import ByteRegex.MessagePattern.Defect
import ByteRegex.Text.Blank

/-!
# Moving through a pattern text

A cursor is what is left of a text and the place where that begins. Readers move
it: `advance` by one character, `skipBlanks` past blanks and comments where the
pattern says that those do not count. Both tell where the text ends, since most
elements of a pattern may not end with it.
-/

namespace ByteRegex.MessagePattern

/-- The text to be read, whether blanks count in it, and the names that were
given to groups before it. `steps` is more than the characters of the whole
text, so that no reader which moves at each of its steps takes as many. -/
structure Cursor where
  rest : List Char
  steps : Nat
  place : Place := {}
  ignoresBlanks : Bool := false
  names : List (List Char × Region) := []

namespace Cursor

/-- The cursor behind the next character. -/
def advanced (c : Cursor) : Cursor :=
  match c.rest with
  | [] => c
  | x :: rest => { c with rest, place := c.place.after x }

/-- The text behind blanks and comments, or behind a comment alone, and its
place. A comment begins with a number sign and ends with its line. -/
def pastBlanks (inComment : Bool) (place : Place) : List Char → List Char × Place
  | [] => ([], place)
  | x :: rest =>
    if inComment then pastBlanks (x != '\n') (place.after x) rest
    else if isBlank x then pastBlanks false (place.after x) rest
    else if x = '#' then pastBlanks true (place.after x) rest
    else (x :: rest, place)

/-- The cursor behind blanks and comments, if those do not count. -/
def blanksSkipped (c : Cursor) : Cursor :=
  if c.ignoresBlanks then
    let (rest, place) := pastBlanks false c.place c.rest
    { c with rest, place }
  else c

/-- The character that comes after the next one and after blanks, if those do
not count. Of a comment only the number sign and blanks are passed over; where
nothing but those is left, nothing is passed over at all. -/
def secondPastBlanks? (c : Cursor) : Option Char :=
  if c.ignoresBlanks then
    let later := c.rest.drop 1
    match go false later with
    | some x => some x
    | none => later.head?
  else (c.rest.drop 1).head?
where
  go (inComment : Bool) : List Char → Option Char
    | [] => none
    | x :: rest =>
      if isBlank x then go inComment rest
      else if x = '#' ∧ inComment = false then go true rest
      else some x

end Cursor

/-- A reader moves a cursor, or fails. -/
abbrev Read := StateT Cursor (Except Defect)

namespace Read

def fail {α : Type} (flaw : Flaw) (region : Region) : Read α :=
  throw { flaw, region }

/-- The next character. -/
def next? : Read (Option Char) :=
  return (← get).rest.head?

/-- The character after the next one. -/
def second? : Read (Option Char) :=
  return ((← get).rest.drop 1).head?

def place : Read Place :=
  return (← get).place

/-- The region of the next character. -/
def nextRegion : Read Region := do
  let c ← get
  match c.rest with
  | [] => return .at_ c.place
  | x :: _ => return .ofChar c.place x

/-- The region from a place up to the cursor. -/
def since (start : Place) : Read Region :=
  return ⟨start, ← place⟩

/-- Moves past one character and tells whether there is another. -/
def advance : Read Bool := do
  modify Cursor.advanced
  return !(← get).rest.isEmpty

def skipBlanks : Read Unit :=
  modify Cursor.blanksSkipped

/-- Moves past one character and blanks, and tells whether there is another. -/
def advancePastBlanks : Read Bool := do
  if ← advance then
    skipBlanks
    return !(← get).rest.isEmpty
  else return false

/-- Moves past some characters if they come next, and tells whether they do. -/
def accept (expected : List Char) : Read Bool := do
  if expected.isPrefixOf (← get).rest then
    modify fun c => expected.foldl (fun c _ => c.advanced) c
    return true
  else return false

/-- Moves past one of several texts, the first that comes next. -/
def acceptAny : List (List Char) → Read Bool
  | [] => return false
  | expected :: others => do
    if ← accept expected then return true
    else acceptAny others

/-- Moves past characters as long as they satisfy `p`, and past blanks behind
each. -/
def takeWhilePastBlanks (p : Char → Bool) : (fuel : Nat) → List Char → Read (List Char)
  | 0, taken => return taken.reverse
  | fuel + 1, taken => do
    match ← next? with
    | some x =>
      if p x then
        let _ ← advancePastBlanks
        takeWhilePastBlanks p fuel (x :: taken)
      else return taken.reverse
    | none => return taken.reverse

/-- More steps than the rest of the text has characters. -/
def fuel : Read Nat :=
  return (← get).steps

end Read

end ByteRegex.MessagePattern
