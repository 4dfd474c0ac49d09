import ByteRegex.MessagePattern.Cursor
import ByteRegex.MessagePattern.Tree

/-!
# Escapes in message patterns

What a backslash begins: a literal, a character by its code point, a class, or a
condition on the position. The same escapes are read inside and outside of
brackets; which of them may stand between brackets is decided there.
-/

namespace ByteRegex.MessagePattern

open Read

/-- An element that one character or one escape makes. -/
inductive Atom where
  | letter (l : Letter)
  | dot (region : Region)
  | edge (region : Region) (kind : Edge)
  | property (region : Region) (name : Option String)
  | perl (region : Region) (name : PerlClass) (negated : Bool)

namespace Atom

def region : Atom → Region
  | letter l => l.region
  | dot r | edge r _ | property r _ | perl r _ _ => r

def toTree : Atom → Tree
  | letter l => .letter l
  | dot r => .dot r
  | edge r kind => .edge r kind
  | property r name => .property r name
  | perl r name negated => .perl r name negated

end Atom

/-- The characters that mean something unless they are escaped. -/
def metaCharacters : List Char :=
  "\\.+*?()|[]\x7b\x7d^$#&-~".toList

/-- The ASCII characters that stand for themselves after a backslash: all but
letters, digits and angle brackets. -/
def isEscapable (c : Char) : Bool :=
  c.toNat < 128 && !c.isAlphanum && c != '<' && c != '>'

/-- The control characters that a letter stands for. -/
def controlOf? : Char → Option Char
  | 'a' => some '\x07'
  | 'f' => some '\x0c'
  | 't' => some '\t'
  | 'n' => some '\n'
  | 'r' => some '\r'
  | 'v' => some '\x0b'
  | _ => none

def edgeOf? : Char → Option Edge
  | 'A' => some .textStart
  | 'z' => some .textEnd
  | 'b' => some .wordBoundary
  | 'B' => some .noWordBoundary
  | '<' => some .wordStart
  | '>' => some .wordEnd
  | _ => none

/-- A class by its letter; a capital negates it. -/
def perlOf? : Char → Option (PerlClass × Bool)
  | 'd' => some (.digit, false)
  | 'D' => some (.digit, true)
  | 's' => some (.space, false)
  | 'S' => some (.space, true)
  | 'w' => some (.word, false)
  | 'W' => some (.word, true)
  | _ => none

/-- The value of a hexadecimal digit. -/
def hexValue? (c : Char) : Option Nat :=
  if '0' ≤ c ∧ c ≤ '9' then some (c.toNat - '0'.toNat)
  else if 'a' ≤ c ∧ c ≤ 'f' then some (c.toNat - 'a'.toNat + 10)
  else if 'A' ≤ c ∧ c ≤ 'F' then some (c.toNat - 'A'.toNat + 10)
  else none

/-- The value of hexadecimal digits. -/
def hexNumber (digits : List Nat) : Nat :=
  digits.foldl (fun n d => 16 * n + d) 0

/-- The character of a code point, which must be none of a surrogate. -/
def charOfCode (code : Nat) (region : Region) : Read Char :=
  if code.isValidChar then return Char.ofNat code
  else fail .hexNoCharacter region

/-- The digit that comes next. -/
def nextHexDigit : Read Nat := do
  match (← next?).bind hexValue? with
  | some d => return d
  | none => fail .hexDigit (← nextRegion)

/-- Exactly `count` digits; the cursor is left at the last of them. -/
def hexDigits : (count : Nat) → (isFirst : Bool) → List Nat → Read (List Nat)
  | 0, _, digits => return digits.reverse
  | count + 1, isFirst, digits => do
    if !isFirst then
      if !(← advancePastBlanks) then fail .escapeUnfinished (.at_ (← place))
    hexDigits count false ((← nextHexDigit) :: digits)

/-- The digits up to a closing brace, where the cursor is left. -/
def hexDigitsInBraces : (fuel : Nat) → List Nat → Read (List Nat)
  | 0, digits => return digits.reverse
  | fuel + 1, digits => do
    if (← advancePastBlanks) && (← next?) != some '\x7d' then
      hexDigitsInBraces fuel ((← nextHexDigit) :: digits)
    else return digits.reverse

/-- A code point of `count` digits, or of any number of digits in braces, after
its letter. -/
def readHex (start : Place) (count : Nat) (byteForm : Bool) : Read Atom := do
  if !(← advancePastBlanks) then fail .escapeUnfinished (.at_ (← place))
  if (← next?) == some '\x7b' then
    let brace ← place
    let first := (← nextRegion).stop
    let digits ← hexDigitsInBraces (← fuel) []
    if (← next?).isNone then fail .escapeUnfinished (← since brace)
    let last ← place
    let _ ← advancePastBlanks
    if digits.isEmpty then fail .hexEmpty (← since brace)
    let value ← charOfCode (hexNumber digits) ⟨first, last⟩
    return .letter { region := ← since start, value }
  else
    let first ← place
    let digits ← hexDigits count true []
    let _ ← advancePastBlanks
    let value ← charOfCode (hexNumber digits) (← since first)
    return .letter { region := ← since start, value, byteForm }

/-- The name of a property up to a closing brace, where the cursor is left. -/
def propertyName : (fuel : Nat) → List Char → Read (List Char)
  | 0, name => return name.reverse
  | fuel + 1, name => do
    if ← advancePastBlanks then
      match ← next? with
      | some c => if c = '\x7d' then return name.reverse else propertyName fuel (c :: name)
      | none => return name.reverse
    else return name.reverse

/-- A property by a letter or by a name in braces. -/
def readProperty (start : Place) : Read Atom := do
  if !(← advancePastBlanks) then fail .escapeUnfinished (.at_ (← place))
  match ← next? with
  | some '\x7b' =>
    let name ← propertyName (← fuel) []
    if (← next?).isNone then fail .escapeUnfinished (.at_ (← place))
    let _ ← advance
    let hasValue := name.contains ':' || name.contains '='
    return .property (← since start) (if hasValue then none else some (String.ofList name))
  | some '\\' => fail .propertyInvalid (← nextRegion)
  | _ =>
    let _ ← advancePastBlanks
    return .property (← since start) none

def isBoundaryLetter (c : Char) : Bool :=
  c.isAlpha || c == '-'

/-- The kind of word boundary that is named in braces. Where the braces begin
with something else, nothing is read: they are a count. -/
def readBoundaryKind? (escape : Place) : Read (Option Edge) := do
  let before ← get
  if !(← advancePastBlanks) then fail .boundaryUnfinished (← since escape)
  let first ← place
  if !(← next?).any isBoundaryLetter then
    set before
    return none
  let name ← takeWhilePastBlanks isBoundaryLetter (← fuel) []
  if (← next?) != some '\x7d' then fail .boundaryUnclosed (← since before.place)
  let last ← place
  let _ ← advance
  match String.ofList name with
  | "start" => return some .wordStart
  | "end" => return some .wordEnd
  | "start-half" => return some .wordStartHalf
  | "end-half" => return some .wordEndHalf
  | _ => fail .boundaryUnknown ⟨first, last⟩

/-- What begins with the backslash at the cursor. -/
def readEscape : Read Atom := do
  let start ← place
  let _ ← advance
  match ← next? with
  | none => fail .escapeUnfinished (← since start)
  | some c =>
    if c.isDigit then fail .backreference ⟨start, (← nextRegion).stop⟩
    else if c = 'x' then readHex start 2 true
    else if c = 'u' then readHex start 4 false
    else if c = 'U' then readHex start 8 false
    else if c = 'p' ∨ c = 'P' then readProperty start
    else
      let _ ← advance
      let region ← since start
      if let some (name, negated) := perlOf? c then return .perl region name negated
      if metaCharacters.contains c || isEscapable c then
        return .letter { region, value := c }
      if let some value := controlOf? c then return .letter { region, value }
      match edgeOf? c with
      | none => fail .escapeUnknown region
      | some kind =>
        if c = 'b' then
          if (← next?) == some '\x7b' then
            if let some special ← readBoundaryKind? start then
              return .edge (← since start) special
        return .edge region kind

end ByteRegex.MessagePattern
