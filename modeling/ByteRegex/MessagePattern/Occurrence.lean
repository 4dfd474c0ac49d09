import ByteRegex.MessagePattern.Shape

/-!
# Where a shape occurs

Whether a text has a piece of some shape is decided by following all ways at
once. `Shape.ends` takes the positions where the shape may begin to those where
it may end; which of several ways would be preferred makes no difference to
that.
-/

namespace ByteRegex.MessagePattern

/-- The union of two ascending lists. -/
def mergePositions : List Nat → List Nat → List Nat
  | [], qs => qs
  | p :: ps, qs => (qs.takeWhile (· < p)) ++ p :: mergePositions ps (qs.dropWhile (· ≤ p))

/-- The positions that `step` reaches from others in so many steps. Once
the positions stay the same, they do so for ever. -/
def iterate (step : List Nat → List Nat) : (count : Nat) → List Nat → List Nat
  | 0, ps => ps
  | count + 1, ps =>
    let next := step ps
    if next == ps then ps else iterate step count next

/-- Marks the positions that `step` reaches from the `newest` ones in at most so
many steps, passing no marked position again. -/
def spread (step : List Nat → List Nat) :
    (count : Nat) → (newest : List Nat) → (marks : Array Bool) → Array Bool
  | 0, _, marks => marks
  | count + 1, newest, marks =>
    let next := (step newest).filter fun p => marks[p]? == some false
    if next.isEmpty then marks
    else spread step count next (next.foldl (fun m p => m.setIfInBounds p true) marks)

/-- The positions that `step` reaches from others in at most so many steps. -/
def reach (step : List Nat → List Nat) (count size : Nat) (ps : List Nat) : List Nat :=
  let marks := ps.foldl (fun m p => m.setIfInBounds p true) (Array.replicate (size + 1) false)
  let marks := spread step count ps marks
  (List.range (size + 1)).filter fun p => marks[p]? == some true

/-- The character before a position. -/
def charBefore? (text : Array Char) (p : Nat) : Option Char :=
  if p = 0 then none else text[p - 1]?

/-- Whether the text has these characters at a position. -/
def hasAt (text : Array Char) : List Char → Nat → Bool
  | [], _ => true
  | c :: rest, p => text[p]? == some c && hasAt text rest (p + 1)

mutual

/-- The positions where the shape may end, given those where it may begin, both
in ascending order. -/
def Shape.ends (text : Array Char) : Shape → List Nat → List Nat
  | .empty, ps => ps
  | .literal cs, ps => (ps.filter fun p => hasAt text cs p).map (· + cs.length)
  | .oneOf set _, ps =>
    (ps.filter fun p => text[p]?.any set.contains).map (· + 1)
  | .look l, ps => ps.filter fun p => l.holds (charBefore? text p) text[p]?
  | .repeated least most _ inner, ps =>
    let step := inner.ends text
    let reached := iterate step least ps
    let more := match most with
      | none => text.size + 1
      | some most => min (most - least) (text.size + 1)
    reach step more text.size reached
  | .captured inner, ps => inner.ends text ps
  | .choice branches, ps => choiceEnds text branches ps
  | .sequence elements, ps => sequenceEnds text elements ps

def choiceEnds (text : Array Char) : List Shape → List Nat → List Nat
  | [], _ => []
  | branch :: rest, ps => mergePositions (branch.ends text ps) (choiceEnds text rest ps)

def sequenceEnds (text : Array Char) : List Shape → List Nat → List Nat
  | [], ps => ps
  | element :: rest, ps => sequenceEnds text rest (element.ends text ps)

end

/-- Whether a piece of the text has the shape. -/
def Shape.occursIn (s : Shape) (text : Array Char) : Bool :=
  !(s.ends text (List.range (text.size + 1))).isEmpty

end ByteRegex.MessagePattern
