import ByteRegex.MessagePattern.Escape

/-!
# Bracket classes of message patterns

Brackets hold characters, ranges, named classes and further brackets, combined
by union and by three operators of equal rank that group to the left. What is
open is kept as a stack: brackets with the items before them, and on top of each
perhaps an operator with its left operand.
-/

namespace ByteRegex.MessagePattern

open Read

/-- Items that are united, latest first, and the region they take. -/
structure OpenUnion where
  region : Region
  items : List ClassTree := []

namespace OpenUnion

def push (u : OpenUnion) (item : ClassTree) : OpenUnion where
  region :=
    { start := if u.items.isEmpty then item.region.start else u.region.start
      stop := item.region.stop }
  items := item :: u.items

/-- The class of the items, which needs no node of its own for one of them. -/
def toClass (u : OpenUnion) : ClassTree :=
  match u.items with
  | [] => .empty u.region
  | [item] => item
  | items => .union u.region items.reverse

end OpenUnion

inductive ClassFrame where
  /-- A bracket with the region of what opens it, and what stands before it in
  the bracket around it. -/
  | bracket (before : OpenUnion) (opening : Region) (negated : Bool)
  | operand (operation : SetOperation) (left : ClassTree)

/-- Applies the operator on top of the stack, if there is one. -/
def applyOperator (right : ClassTree) : List ClassFrame → ClassTree × List ClassFrame
  | .operand operation left :: rest =>
    (.combined (left.region.through right.region) operation left right, rest)
  | frames => (right, frames)

/-- Fails at the innermost open bracket. -/
def failUnclosed {α : Type} : List ClassFrame → Read α
  | [] => do fail .classUnclosed (.at_ (← place))
  | .bracket _ opening _ :: _ => fail .classUnclosed opening
  | .operand _ _ :: rest => failUnclosed rest

/-- Hyphens at the start of a bracket, which stand for themselves. -/
def readHyphens (start : Place) : (fuel : Nat) → OpenUnion → Read OpenUnion
  | 0, u => return u
  | fuel + 1, u => do
    if (← next?) == some '-' then
      let u := u.push (.letter { region := ← nextRegion, value := '-' })
      if !(← advancePastBlanks) then fail .classUnclosed (.at_ start)
      readHyphens start fuel u
    else return u

/-- What opens a bracket: the sign of negation, and the characters that stand
for themselves only here. -/
def readOpening : Read (Region × Bool × OpenUnion) := do
  let start ← place
  if !(← advancePastBlanks) then fail .classUnclosed (← since start)
  let negated := (← next?) == some '^'
  if negated then
    if !(← advancePastBlanks) then fail .classUnclosed (← since start)
  let hyphens ← readHyphens start (← fuel) { region := .at_ (← place) }
  if hyphens.items.isEmpty && (← next?) == some ']' then
    let u := hyphens.push (.letter { region := ← nextRegion, value := ']' })
    if !(← advancePastBlanks) then fail .classUnclosed (← since start)
    return (← since start, negated, u)
  else return (← since start, negated, hyphens)

/-- The text up to a colon, where the cursor is left. -/
def nameUpToColon : (fuel : Nat) → List Char → Read (List Char)
  | 0, name => return name.reverse
  | fuel + 1, name => do
    match ← next? with
    | some c =>
      if c = ':' then return name.reverse
      else
        let _ ← advance
        nameUpToColon fuel (c :: name)
    | none => return name.reverse

/-- A named class, bracket and colon included. If there is none, nothing is
read. -/
def readNamedClass? : Read (Option ClassTree) := do
  let before ← get
  let body : Read (Option ClassTree) := do
    if !(← accept "[:".toList) || (← next?).isNone then return none
    let negated ← accept ['^']
    let name ← nameUpToColon (← fuel) []
    if !(← accept ":]".toList) then return none
    match AsciiClass.ofName? (String.ofList name) with
    | some name => return some (.ascii (← since before.place) name negated)
    | none => return none
  match ← body with
  | some named => return some named
  | none =>
    set before
    return none

def readClassAtom : Read Atom := do
  match ← next? with
  | some '\\' => readEscape
  | some c =>
    let region ← nextRegion
    let _ ← advance
    return .letter { region, value := c }
  | none => fail .classUnclosed (.at_ (← place))

/-- An atom as an item of a class. -/
def classItem : Atom → Read ClassTree
  | .letter l => return .letter l
  | .property region name => return .property region name
  | .perl region name negated => return .perl region name negated
  | atom => fail .classEscape atom.region

/-- An atom as the first or last character of a range. -/
def rangeBound : Atom → Read Letter
  | .letter l => return l
  | atom => fail .classRangeBoundary atom.region

/-- A range or a single item. A hyphen makes a range unless a bracket or another
hyphen follows it. -/
def readClassItem (frames : List ClassFrame) : Read ClassTree := do
  let first ← readClassAtom
  skipBlanks
  if (← next?).isNone then failUnclosed frames
  let later := (← get).secondPastBlanks?
  if (← next?) != some '-' || later == some ']' || later == some '-' then
    classItem first
  else
    if !(← advancePastBlanks) then failUnclosed frames
    let last ← readClassAtom
    let region := first.region.through last.region
    let low ← rangeBound first
    let high ← rangeBound last
    if low.value ≤ high.value then return .range region low high
    else fail .classRangeOrder region

/-- The operator that is written as this character twice. -/
def operationOf? : Char → Option SetOperation
  | '&' => some .intersection
  | '-' => some .difference
  | '~' => some .symmetricDifference
  | _ => none

/-- Reads on in the innermost open bracket until the outermost one is closed. -/
def readBracketBody : (fuel : Nat) → List ClassFrame → OpenUnion → Read Tree
  | 0, frames, _ => failUnclosed frames
  | fuel + 1, frames, u => do
    skipBlanks
    match ← next? with
    | none => failUnclosed frames
    | some '[' =>
      match ← readNamedClass? with
      | some named => readBracketBody fuel frames (u.push named)
      | none =>
        let (opening, negated, inner) ← readOpening
        readBracketBody fuel (.bracket u opening negated :: frames) inner
    | some ']' =>
      let (inside, rest) := applyOperator u.toClass frames
      match rest with
      | .bracket before opening negated :: outer =>
        let _ ← advance
        let region ← since opening.start
        if outer.isEmpty then return .bracket region negated inside
        else readBracketBody fuel outer (before.push (.bracketed region negated inside))
      | _ => failUnclosed frames
    | some c =>
      match operationOf? c with
      | some operation =>
        if (← second?) == some c then
          let _ ← accept [c, c]
          let (left, rest) := applyOperator u.toClass frames
          readBracketBody fuel (.operand operation left :: rest) { region := .at_ (← place) }
        else
          readBracketBody fuel frames (u.push (← readClassItem frames))
      | none => readBracketBody fuel frames (u.push (← readClassItem frames))

/-- The class that begins with the bracket at the cursor. -/
def readBracket : Read Tree := do
  let steps ← fuel
  let around : OpenUnion := { region := .at_ (← place) }
  let (opening, negated, u) ← readOpening
  readBracketBody steps [.bracket around opening negated] u

end ByteRegex.MessagePattern
