import ByteRegex.MessagePattern.Shape

/-!
# Shapes in simple form

The functions here put shapes together and simplify them as they do so. None
changes what is matched: neighbouring literals become one, sequences within
sequences and choices within choices are opened up, a choice of characters is a
set, and what all branches of a choice begin with is taken out of it.

Shapes that are made by these functions only are in simple form, and how much
memory a pattern takes is counted on that.
-/

namespace ByteRegex.MessagePattern

namespace Shape

/-- One character of a set. -/
def ofSet (set : CharSet) (inBytes : Bool) : Shape :=
  if set.isEmpty then nothing
  else
    match set.single? with
    | some c => .literal [c]
    | none => .oneOf set inBytes

/-- A repetition. Repeating what is widthless more than once adds nothing. -/
def times (least : Nat) (most : Option Nat) (greedy : Bool) (inner : Shape) : Shape :=
  let (least, most) :=
    if inner.isWidthless then (min least 1, some (min (most.getD 1) 1)) else (least, most)
  if most = some 0 then .empty
  else if least = 1 ∧ most = some 1 then inner
  else .repeated least most greedy inner

/-- The elements that a shape adds to a sequence. -/
def elements : Shape → List Shape
  | empty => []
  | sequence elements => elements
  | s => [s]

/-- Puts an element before others. -/
def consLiteral : Shape → List Shape → List Shape
  | literal s, literal t :: rest => literal (s ++ t) :: rest
  | s, rest => s :: rest

/-- The sequence of some elements, which is no sequence if it has but one. -/
def ofElements : List Shape → Shape
  | [] => empty
  | [s] => s
  | elements => sequence elements

/-- One shape after the other. -/
def concat (shapes : List Shape) : Shape :=
  ofElements ((shapes.flatMap elements).foldr consLiteral [])

/-- The branches that a shape adds to a choice. -/
def branches : Shape → List Shape
  | choice branches => branches
  | s => [s]

/-- The character of a literal that has one character. -/
def char? : Shape → Option Char
  | literal [c] => some c
  | _ => none

def set? : Shape → Option CharSet
  | oneOf set _ => some set
  | _ => none

/-- A choice of characters or sets as one set. -/
def mergedSet? (branches : List Shape) : Option CharSet :=
  match branches.mapM char? with
  | some cs => some (CharSet.ofChars cs)
  | none => (branches.mapM set?).map fun sets => sets.foldl CharSet.union .empty

/-- The number of elements that two sequences begin with in common. -/
def commonLength : List Shape → List Shape → Nat
  | s :: ss, t :: ts => if s.same t then commonLength ss ts + 1 else 0
  | _, _ => 0

def sequence? : Shape → Option (List Shape)
  | sequence elements => some elements
  | _ => none

/-- How many elements all branches of a choice begin with in common, if each is
a sequence, and these sequences. -/
def commonStart? (branches : List Shape) : Option (Nat × List (List Shape)) :=
  match branches.mapM sequence? with
  | some (first :: rest) =>
    let common := rest.foldl (fun n s => min n (commonLength first s)) first.length
    if common = 0 then none else some (common, first :: rest)
  | _ => none

/-- One of some shapes. What they begin with in common is taken out of a choice
at most `fuel` times. -/
def anyOfFuel : (fuel : Nat) → List Shape → Shape
  | fuel, shapes =>
    match shapes.flatMap branches with
    | [] => nothing
    | [s] => s
    | branches =>
      match mergedSet? branches with
      | some set => ofSet set false
      | none =>
        match fuel, commonStart? branches with
        | fuel + 1, some (common, sequences) =>
          let start := (sequences.headD []).take common
          concat (start ++ [anyOfFuel fuel (sequences.map fun s => concat (s.drop common))])
        | _, _ => choice branches

mutual

/-- The number of elements of all sequences in a shape. -/
def elementCount : Shape → Nat
  | sequence elements => elementCounts elements
  | choice branches => elementCounts branches
  | _ => 1

def elementCounts : List Shape → Nat
  | [] => 1
  | s :: rest => s.elementCount + elementCounts rest

end

/-- One of some shapes. -/
def anyOf (shapes : List Shape) : Shape :=
  anyOfFuel (elementCounts shapes) shapes

end Shape

end ByteRegex.MessagePattern
