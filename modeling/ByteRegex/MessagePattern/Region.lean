/-!
# Places in a pattern text

A place is the point before a character. It is known by the number of
characters before it and, for reports to the user, by its line and column. A
region lies between two places.
-/

namespace ByteRegex.MessagePattern

/-- A point in a text; lines and columns are counted from 1. -/
structure Place where
  offset : Nat := 0
  line : Nat := 1
  column : Nat := 1
deriving DecidableEq, Repr, Inhabited

/-- The place behind the character `c`. -/
def Place.after (p : Place) (c : Char) : Place :=
  if c = '\n' then { offset := p.offset + 1, line := p.line + 1, column := 1 }
  else { p with offset := p.offset + 1, column := p.column + 1 }

structure Region where
  start : Place
  stop : Place
deriving DecidableEq, Repr, Inhabited

namespace Region

/-- The empty region at a place. -/
def at_ (p : Place) : Region :=
  ⟨p, p⟩

/-- The region of one character. -/
def ofChar (p : Place) (c : Char) : Region :=
  ⟨p, p.after c⟩

/-- The region from the start of one to the end of another. -/
def through (first last : Region) : Region :=
  ⟨first.start, last.stop⟩

def isOneLine (r : Region) : Bool :=
  r.start.line == r.stop.line

/-- The number of columns to mark for a region on one line, which is never
none. -/
def width (r : Region) : Nat :=
  max 1 (r.stop.column - r.start.column)

end Region

end ByteRegex.MessagePattern
