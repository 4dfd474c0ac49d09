import ByteRegex.MessagePattern.Bracket
import ByteRegex.Text.Alphanumeric

/-!
# Reading message patterns

A message pattern is read from left to right with a stack of what is open:
groups with the sequence before them, and on top of each perhaps the branches of
a choice that are complete. The first defect from the left is reported; a group
that is still open is one at the end of the text, and so is a tree that is
nested too deep.
-/

namespace ByteRegex.MessagePattern

open Read

/-- A sequence being read: where it begins, and its elements, latest first. -/
structure OpenSequence where
  start : Place
  elements : List Tree := []

namespace OpenSequence

def push (s : OpenSequence) (t : Tree) : OpenSequence :=
  { s with elements := t :: s.elements }

def toTree (s : OpenSequence) (stop : Place) : Tree :=
  .ofElements ⟨s.start, stop⟩ s.elements.reverse

end OpenSequence

inductive GroupFrame where
  /-- An open group: what stands before it, its parenthesis, its flags, and
  whether blanks count behind it. -/
  | group (before : OpenSequence) (opening : Region) (items : List FlagItem) (captures : Bool)
      (ignoresBlanks : Bool)
  /-- The complete branches of a choice, latest first. -/
  | choice (start : Place) (branches : List Tree)

/-! ## Groups -/

def flagOf? : Char → Option Flag
  | 'i' => some .ignoreCase
  | 'm' => some .multiLine
  | 's' => some .dotMatchesNewline
  | 'U' => some .swapGreed
  | 'u' => some .unicode
  | 'R' => some .carriageReturns
  | 'x' => some .ignoreBlanks
  | _ => none

/-- A flag letter, or the hyphen, that comes next. -/
def nextFlagItem : Read FlagItem := do
  let region ← nextRegion
  match ← next? with
  | some '-' => return { region, flag := none }
  | c =>
    match c.bind flagOf? with
    | some flag => return { region, flag := some flag }
    | none => fail .flagUnknown region

/-- The flags up to a colon or a closing parenthesis, where the cursor is left.
`items` are those read before, latest first. -/
def readFlags : (fuel : Nat) → (items : List FlagItem) → Read (List FlagItem)
  | 0, items => return items.reverse
  | fuel + 1, items => do
    let c ← next?
    if c == some ':' || c == some ')' then
      match items with
      | { region, flag := none } :: _ => fail .flagNegatesNothing region
      | _ => return items.reverse
    else
      let item ← nextFlagItem
      match items.find? fun other => other.flag == item.flag with
      | some other =>
        let flaw := if item.flag.isNone then Flaw.flagNegationTwice else .flagTwice
        throw { flaw, region := item.region, earlier := some other.region }
      | none =>
        if !(← advance) then fail .flagUnfinished (.at_ (← place))
        readFlags fuel (item :: items)

/-- Whether a name may contain a character, and begin with it. -/
def isNameCharacter (isFirst : Bool) (c : Char) : Bool :=
  if isFirst then c == '_' || isAlphabetic c
  else c == '_' || c == '.' || c == '[' || c == ']' || isAlphanumeric c

/-- The characters of a name up to the closing angle bracket or the end of the
text. -/
def nameCharacters : (fuel : Nat) → List Char → Read (List Char)
  | 0, name => return name.reverse
  | fuel + 1, name => do
    match ← next? with
    | none => return name.reverse
    | some c =>
      if c = '>' then return name.reverse
      else if isNameCharacter name.isEmpty c then
        let _ ← advance
        nameCharacters fuel (c :: name)
      else fail .nameCharacter (← nextRegion)

/-- The name of a group and the angle bracket after it. Names are given once. -/
def readName : Read Unit := do
  let start ← place
  let name ← nameCharacters (← fuel) []
  let region ← since start
  if (← next?).isNone then fail .nameUnfinished (.at_ (← place))
  let _ ← advance
  if name.isEmpty then fail .nameEmpty (.at_ start)
  match (← get).names.find? fun other => other.1 == name with
  | some (_, earlier) => throw { flaw := .nameTwice, region, earlier := some earlier }
  | none => modify fun c => { c with names := (name, region) :: c.names }

/-- What a parenthesis opens: a group with its flags, or flags alone. -/
inductive Opened where
  | group (opening : Region) (items : List FlagItem) (captures : Bool)
  | flags (region : Region) (items : List FlagItem)

def lookAroundSigns : List (List Char) :=
  ["?=".toList, "?!".toList, "?<=".toList, "?<!".toList]

def readParenthesis : Read Opened := do
  let opening ← nextRegion
  let _ ← advance
  skipBlanks
  if ← acceptAny lookAroundSigns then fail .lookAround (← since opening.start)
  let inside ← place
  if ← acceptAny ["?P<".toList, "?<".toList] then
    readName
    return .group opening [] true
  else if ← accept ['?'] then
    if (← next?).isNone then fail .groupUnclosed opening
    let items ← readFlags (← fuel) []
    let closed := (← next?) == some ')'
    let _ ← advance
    if closed then
      if items.isEmpty then fail .nothingToRepeat (.at_ inside)
      return .flags (← since opening.start) items
    else return .group opening items false
  else return .group opening [] true

/-! ## Repetitions -/

/-- The element that a repetition applies to, and the sequence before it. -/
def repeatedElement (s : OpenSequence) : Read (Tree × OpenSequence) := do
  match s.elements with
  | t :: before =>
    if t.isRepeatable then return (t, { s with elements := before })
    else fail .nothingToRepeat (.at_ (← place))
  | [] => fail .nothingToRepeat (.at_ (← place))

def pushRepeated (s : OpenSequence) (t : Tree) (least : Nat) (most : Option Nat)
    (isLazy : Bool) : Read OpenSequence := do
  return s.push (.repeated ⟨t.region.start, ← place⟩ least most isLazy t)

/-- A repetition by one sign, perhaps with a question mark behind it. -/
def readSign (s : OpenSequence) (least : Nat) (most : Option Nat) : Read OpenSequence := do
  let (t, s) ← repeatedElement s
  let _ ← advance
  let isLazy ← accept ['?']
  pushRepeated s t least most isLazy

/-- Moves past blanks, whether they count or not. -/
def skipAllBlanks : (fuel : Nat) → (comments : Bool) → Read Unit
  | 0, _ => return
  | fuel + 1, comments => do
    if (← next?).any isBlank then
      let _ ← if comments then advancePastBlanks else advance
      skipAllBlanks fuel comments

/-- A number that fits in 32 bits, with blanks around it. What is wrong with it
is told as a value, since it may come to matter only later. -/
def readNumber : Read (Except Defect Nat) := do
  skipAllBlanks (← fuel) false
  let start ← place
  let digits ← takeWhilePastBlanks Char.isDigit (← fuel) []
  let region ← since start
  skipAllBlanks (← fuel) true
  let n := digits.foldl (fun n d => 10 * n + (d.toNat - '0'.toNat)) 0
  if digits.isEmpty then return .error { flaw := .countMissing, region }
  else if n < Nat.pow 2 32 then return .ok n
  else return .error { flaw := .decimalInvalid, region }

/-- The value of a number, or its defect. -/
def settle {α : Type} : Except Defect α → Read α
  | .ok a => return a
  | .error d => throw d

/-- The bounds of a count, up to the closing brace. -/
def readBounds (start : Place) : Read (Nat × Option Nat) := do
  let low ← readNumber
  if (← next?).isNone then fail .countUnclosed (← since start)
  if (← next?) == some ',' then
    if !(← advancePastBlanks) then fail .countUnclosed (← since start)
    if (← next?) == some '\x7d' then return (← settle low, none)
    else
      let least ← settle low
      return (least, some (← settle (← readNumber)))
  else
    let n ← settle low
    return (n, some n)

/-- A repetition by a count in braces. -/
def readCounted (s : OpenSequence) : Read OpenSequence := do
  let start ← place
  let (t, s) ← repeatedElement s
  if !(← advancePastBlanks) then fail .countUnclosed (← since start)
  let (least, most) ← readBounds start
  if (← next?) != some '\x7d' then fail .countUnclosed (← since start)
  let isLazy ← if ← advancePastBlanks then accept ['?'] else pure false
  if most.any fun m => m < least then fail .countOrder (← since start)
  pushRepeated s t least most isLazy

/-! ## The whole pattern -/

/-- Ends a branch of a choice. -/
def endBranch (frames : List GroupFrame) (s : OpenSequence) (here : Place) : List GroupFrame :=
  match frames with
  | .choice start branches :: rest => .choice start (s.toTree here :: branches) :: rest
  | _ => .choice s.start [s.toTree here] :: frames

/-- What was read since the innermost group opened, and the frames from that
group on. -/
def endChoice (frames : List GroupFrame) (s : OpenSequence) (here : Place) :
    Tree × List GroupFrame :=
  match frames with
  | .choice start branches :: rest =>
    (.choice ⟨start, here⟩ (s.toTree here :: branches).reverse, rest)
  | _ => (s.toTree here, frames)

/-- Closes the innermost group at the parenthesis that comes next. -/
def closeGroup (frames : List GroupFrame) (s : OpenSequence) :
    Read (List GroupFrame × OpenSequence) := do
  let (inner, rest) := endChoice frames s (← place)
  match rest with
  | .group before opening items captures ignoresBlanks :: outer =>
    let _ ← advance
    modify fun c => { c with ignoresBlanks }
    return (outer, before.push (.group (← since opening.start) items captures inner))
  | _ => fail .groupUnopened (← nextRegion)

/-- Opens what the parenthesis that comes next begins. -/
def openGroup (frames : List GroupFrame) (s : OpenSequence) :
    Read (List GroupFrame × OpenSequence) := do
  match ← readParenthesis with
  | .flags region items =>
    if let some ignoresBlanks := flagState? .ignoreBlanks items then
      modify fun c => { c with ignoresBlanks }
    return (frames, s.push (.flags region items))
  | .group opening items captures =>
    let before := (← get).ignoresBlanks
    modify fun c => { c with
      ignoresBlanks := (flagState? .ignoreBlanks items).getD before }
    return (.group s opening items captures before :: frames, { start := ← place })

/-- One character or escape. -/
def readAtom : Read Atom := do
  match ← next? with
  | some '\\' => readEscape
  | some c =>
    let region ← nextRegion
    let _ ← advance
    match c with
    | '.' => return .dot region
    | '^' => return .edge region .lineStart
    | '$' => return .edge region .lineEnd
    | _ => return .letter { region, value := c }
  | none => fail .escapeUnfinished (.at_ (← place))

/-- The tree of a text that ends here. -/
def finish (frames : List GroupFrame) (s : OpenSequence) : Read Tree := do
  let (tree, rest) := endChoice frames s (← place)
  match rest with
  | [] => return tree
  | .group _ opening _ _ _ :: _ => fail .groupUnclosed opening
  | .choice start _ :: _ => fail .groupUnclosed (.at_ start)

/-- Reads on to the end of the text. -/
def readElements : (fuel : Nat) → List GroupFrame → OpenSequence → Read Tree
  | 0, frames, s => finish frames s
  | fuel + 1, frames, s => do
    skipBlanks
    match ← next? with
    | none => finish frames s
    | some '(' =>
      let (frames, s) ← openGroup frames s
      readElements fuel frames s
    | some ')' =>
      let (frames, s) ← closeGroup frames s
      readElements fuel frames s
    | some '|' =>
      let frames := endBranch frames s (← place)
      let _ ← advance
      readElements fuel frames { start := ← place }
    | some '[' => readElements fuel frames (s.push (← readBracket))
    | some '?' => readElements fuel frames (← readSign s 0 (some 1))
    | some '*' => readElements fuel frames (← readSign s 0 none)
    | some '+' => readElements fuel frames (← readSign s 1 none)
    | some '\x7b' => readElements fuel frames (← readCounted s)
    | some _ => readElements fuel frames (s.push (← readAtom).toTree)

/-- The tree of a pattern text. -/
def Tree.ofString (text : String) : Except Defect Tree :=
  let chars := text.toList
  let steps := chars.length + 1
  match (readElements steps [] { start := {} }).run { rest := chars, steps } with
  | .error e => .error e
  | .ok (tree, _) =>
    match tree.tooDeep? nestLimit 0 with
    | some region => .error { flaw := .nestedTooDeep, region }
    | none => .ok tree

end ByteRegex.MessagePattern
