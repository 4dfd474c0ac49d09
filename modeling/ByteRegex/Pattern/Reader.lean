import ByteRegex.ByteClass
import ByteRegex.Pattern.Basic
import ByteRegex.Pattern.Error

/-!
# Reading patterns

A pattern text is read in one pass over its bytes. The reader keeps a `Draft`:
the items read so far in the innermost open group, latest first, with the
groups around it as a stack. Each byte extends the draft or fails, so the first
problem met from the left is the one reported; only a class or a group that is
still open when the text ends is noticed at the end.

A byte that could be syntax is a literal where its role is impossible: a
quantifier with nothing to apply to, a `$` before the last byte, a `^` after the
first, a `]` or a brace anywhere.
-/

namespace ByteRegex

/-- What a byte means outside classes and escapes. -/
inductive Sign where
  | openGroup
  | closeGroup
  | bar
  | openClass
  | escape
  | dot
  | dollar
  | quantifier (q : Quantifier)
  | plain
deriving DecidableEq

namespace Sign

def ofByte (b : UInt8) : Sign :=
  if b = '('.toUInt8 then .openGroup
  else if b = ')'.toUInt8 then .closeGroup
  else if b = '|'.toUInt8 then .bar
  else if b = '['.toUInt8 then .openClass
  else if b = '\\'.toUInt8 then .escape
  else if b = '.'.toUInt8 then .dot
  else if b = '$'.toUInt8 then .dollar
  else if b = '?'.toUInt8 then .quantifier .optional
  else if b = '*'.toUInt8 then .quantifier .star
  else if b = '+'.toUInt8 then .quantifier .plus
  else .plain

end Sign

/-- The item that a backslash makes of the byte after it. -/
def Item.ofEscaped (b : UInt8) : Item :=
  if b = 'd'.toUInt8 then .oneOf ByteClass.digits false
  else if b = 'w'.toUInt8 then .oneOf ByteClass.wordBytes false
  else if '1'.toUInt8 ≤ b ∧ b ≤ '9'.toUInt8 then .backreference (b - '0'.toUInt8).toNat
  else .byte b

/-- Where the reader stands within an item. -/
inductive Phase where
  /-- Between items. -/
  | plain
  /-- After a backslash. -/
  | escaped
  /-- After the bracket at this offset, where a `^` would negate the class. -/
  | classStart (opened : Nat)
  /-- Inside a class, with the bytes written so far, latest first. -/
  | classBody (opened : Nat) (negated : Bool) (written : List UInt8)
deriving DecidableEq

/-- A group that is open: what stands before it and what it holds so far, both
latest first, without the branch being read. -/
structure OpenGroup where
  number : Nat
  opened : Nat
  before : List Item
  branches : List (List Item) := []

/-- A pattern read in part. `items` is the branch being read, latest item
first, of the innermost group of `enclosing`. -/
structure Draft where
  phase : Phase := .plain
  items : List Item := []
  enclosing : List OpenGroup := []
  groups : Nat := 0

namespace Draft

/-- The draft with one more item, back between items. -/
def push (d : Draft) (item : Item) : Draft :=
  { d with phase := .plain, items := item :: d.items }

def openGroup (d : Draft) (offset : Nat) : Draft :=
  { d with
    items := []
    enclosing := { number := d.groups + 1, opened := offset, before := d.items } :: d.enclosing
    groups := d.groups + 1 }

/-- Ends the branch being read and begins the next one of the same group. -/
def nextBranch? (d : Draft) : Option Draft :=
  match d.enclosing with
  | [] => none
  | g :: outer =>
    some { d with
      items := []
      enclosing := { g with branches := d.items.reverse :: g.branches } :: outer }

def closeGroup? (d : Draft) : Option Draft :=
  match d.enclosing with
  | [] => none
  | g :: outer =>
    some { d with
      items := .group g.number (d.items.reverse :: g.branches).reverse :: g.before
      enclosing := outer }

/-- Applies a quantifier, written as `b`, to the latest item of the branch, or
takes `b` as a literal if there is none that it can apply to. -/
def quantify (d : Draft) (q : Quantifier) (b : UInt8) : Draft :=
  match d.items with
  | item :: earlier =>
    if item.isQuantifiable then { d with items := .quantified q item :: earlier }
    else d.push (.byte b)
  | [] => d.push (.byte b)

/-- Reads the byte `b` at `offset`; `isLast` tells whether the text ends with
it. -/
def step (d : Draft) (offset : Nat) (b : UInt8) (isLast : Bool) : Except PatternError Draft :=
  match d.phase with
  | .plain =>
    match Sign.ofByte b with
    | .openGroup => .ok (d.openGroup offset)
    | .closeGroup =>
      match d.closeGroup? with
      | some closed => .ok closed
      | none => .error (.unbalancedGroup offset)
    | .bar =>
      match d.nextBranch? with
      | some next => .ok next
      | none => .error (.unbalancedGroup offset)
    | .openClass => .ok { d with phase := .classStart offset }
    | .escape => .ok { d with phase := .escaped }
    | .dot => .ok (d.push .any)
    | .dollar => .ok (d.push (if isLast then .endAnchor else .byte b))
    | .quantifier q => .ok (d.quantify q b)
    | .plain => .ok (d.push (.byte b))
  | .escaped => .ok (d.push (.ofEscaped b))
  | .classStart opened =>
    if b = '^'.toUInt8 then .ok { d with phase := .classBody opened true [] }
    else if b = ']'.toUInt8 then .ok (d.push (.oneOf [] false))
    else .ok { d with phase := .classBody opened false [b] }
  | .classBody opened negated written =>
    if b = ']'.toUInt8 then .ok (d.push (.oneOf written.reverse negated))
    else .ok { d with phase := .classBody opened negated (b :: written) }

/-- Reads bytes, the first of them at `offset`, up to the end of the text. -/
def feed (d : Draft) (offset : Nat) : List UInt8 → Except PatternError Draft
  | [] => .ok d
  | b :: rest =>
    match d.step offset b rest.isEmpty with
    | .ok next => next.feed (offset + 1) rest
    | .error e => .error e

/-- The items of a text that ends here. A backslash at the very end stands for
itself. -/
def finish (d : Draft) : Except PatternError (List Item) :=
  match d.phase with
  | .classStart opened | .classBody opened _ _ => .error (.unterminatedClass opened)
  | .plain | .escaped =>
    match d.enclosing with
    | g :: _ => .error (.unbalancedGroup g.opened)
    | [] =>
      match d.phase with
      | .escaped => .ok (Item.byte '\\'.toUInt8 :: d.items).reverse
      | _ => .ok d.items.reverse

@[simp] theorem feed_nil (d : Draft) (offset : Nat) : d.feed offset [] = .ok d := rfl

theorem feed_cons (d : Draft) (offset : Nat) (b : UInt8) (rest : List UInt8) :
    d.feed offset (b :: rest) =
      (d.step offset b rest.isEmpty).bind fun next => next.feed (offset + 1) rest := by
  rw [feed]
  cases d.step offset b rest.isEmpty <;> rfl

end Draft

namespace Pattern

/-- Reads the part of a pattern text that begins at `offset`. -/
def readFrom (matchStart : Bool) (offset : Nat) (bytes : List UInt8) :
    Except PatternError Pattern :=
  match ({} : Draft).feed offset bytes with
  | .error e => .error e
  | .ok d =>
    match d.finish with
    | .error e => .error e
    | .ok items => .ok { matchStart, items, groups := d.groups }

/-- Reads a pattern text. A `^` at its start is no item but ties the pattern to
the start of the line. -/
def ofBytes : List UInt8 → Except PatternError Pattern
  | [] => .error .empty
  | b :: rest =>
    if b = '^'.toUInt8 then readFrom true 1 rest
    else readFrom false 0 (b :: rest)

def ofString (text : String) : Except PatternError Pattern :=
  ofBytes text.toUTF8.toList

end Pattern

end ByteRegex
