import ByteRegex.Graph.Layout
import ByteRegex.Matcher.State

/-!
# The ways in which a pattern matches

A tree of items has a meaning of its own, without any graph: from a position,
with some captures made before, it matches in several ways, each of which ends
somewhere and leaves captures. `itemsWays` lists them in the order of
preference: longer runs before shorter ones, earlier alternatives before later
ones, another iteration of a group before what follows the group.

The list holds every way, not only the first, because what comes after an item
may refuse the ways that the item prefers. A sequence is therefore read from left
to right, and each way of its first item is continued by all ways of the others.

An iteration of a group that takes no byte is the last one. So an iteration is
followed by another only from a later position, and the recursion ends at the
end of the text.
-/

namespace ByteRegex

/-- One way to match: where it ends and what is captured then. -/
structure Way where
  stop : Nat
  captures : Captures
deriving DecidableEq, Inhabited

/-- How many bytes from `pos` on the class accepts in a row. -/
def runLength (text : Array UInt8) (accepted : ByteClass) (pos : Nat) : Nat :=
  ((text.toList.drop pos).takeWhile accepted.accepts).length

/-- The byte at `pos`, if the class accepts it. -/
def byteWays (text : Array UInt8) (accepted : ByteClass) (pos : Nat) (c : Captures) :
    List Way :=
  match text[pos]? with
  | some b => if accepted.accepts b then [⟨pos + 1, c⟩] else []
  | none => []

/-- The runs of bytes of one class, longest first. -/
def classWays (text : Array UInt8) (accepted : ByteClass) (times : Repeat) (pos : Nat)
    (c : Captures) : List Way :=
  match times with
  | .once => byteWays text accepted pos c
  | .optional => byteWays text accepted pos c ++ [⟨pos, c⟩]
  | .star | .plus =>
    let longest := runLength text accepted pos
    (List.range' times.min (longest + 1 - times.min)).reverse.map fun n => ⟨pos + n, c⟩

/-- A second copy of what the slot holds; no way if it holds nothing. -/
def referenceWays (text : Array UInt8) (slot pos : Nat) (c : Captures) : List Way :=
  match c.get? slot with
  | some span =>
    if span.of text <+: text.toList.drop pos then [⟨pos + (span.of text).length, c⟩] else []
  | none => []

/-- The iterations of a group whose alternatives match in the ways of `body`.
Each sets the slot to what it took. The bound by the size of the text holds of
every way from a position within the text. -/
def iterationWays (text : Array UInt8) (slot : Nat) (times : Repeat)
    (body : Nat → Captures → List Way) (pos : Nat) (c : Captures) : List Way :=
  (body pos c).flatMap fun w =>
    let captured := w.captures.set slot (some ⟨pos, w.stop⟩)
    if times.isUnbounded ∧ pos < w.stop ∧ w.stop ≤ text.size then
      iterationWays text slot times body w.stop captured ++ [⟨w.stop, captured⟩]
    else [⟨w.stop, captured⟩]
termination_by text.size - pos

/-- A group: its iterations and, if it may be missing, none of them. -/
def groupWays (text : Array UInt8) (slot : Nat) (times : Repeat)
    (body : Nat → Captures → List Way) (pos : Nat) (c : Captures) : List Way :=
  iterationWays text slot times body pos c ++ if times.min = 0 then [⟨pos, c⟩] else []

mutual

/-- The ways of an item that may occur `times`. On an end anchor or a
backreference a quantifier has no effect. -/
def Item.ways (text : Array UInt8) (times : Repeat) : Item → Nat → Captures → List Way
  | .byte b => classWays text (.literal b) times
  | .any => classWays text .any times
  | .oneOf written negated => classWays text (.ofWritten written negated) times
  | .quantified q inner => inner.ways text q.times
  | .group number alternatives =>
    groupWays text (slotOf number) times (branchesWays text alternatives)
  | .backreference number => referenceWays text (slotOf number)
  | .endAnchor => fun pos c => if pos = text.size then [⟨pos, c⟩] else []

/-- The ways of a sequence. -/
def itemsWays (text : Array UInt8) : List Item → Nat → Captures → List Way
  | [] => fun pos c => [⟨pos, c⟩]
  | item :: rest => fun pos c =>
    (item.ways text .once pos c).flatMap fun w => itemsWays text rest w.stop w.captures

/-- The ways of alternatives, in their order. -/
def branchesWays (text : Array UInt8) : List (List Item) → Nat → Captures → List Way
  | [] => fun _ _ => []
  | items :: rest => fun pos c =>
    itemsWays text items pos c ++ branchesWays text rest pos c

end

@[simp] theorem itemsWays_nil (text : Array UInt8) (pos : Nat) (c : Captures) :
    itemsWays text [] pos c = [⟨pos, c⟩] := by
  rw [itemsWays]

theorem itemsWays_cons (text : Array UInt8) (item : Item) (rest : List Item) (pos : Nat)
    (c : Captures) :
    itemsWays text (item :: rest) pos c =
      (item.ways text .once pos c).flatMap fun w => itemsWays text rest w.stop w.captures := by
  rw [itemsWays]

/-- The ways of two sequences in a row. -/
theorem itemsWays_append (text : Array UInt8) (xs ys : List Item) (pos : Nat)
    (c : Captures) :
    itemsWays text (xs ++ ys) pos c =
      (itemsWays text xs pos c).flatMap fun w => itemsWays text ys w.stop w.captures := by
  induction xs generalizing pos c with
  | nil => simp
  | cons item rest ih =>
      rw [List.cons_append, itemsWays_cons, itemsWays_cons, List.flatMap_assoc]
      simp only [ih]

theorem itemsWays_endAnchor (text : Array UInt8) (pos : Nat) (c : Captures) :
    itemsWays text [.endAnchor] pos c = if pos = text.size then [⟨pos, c⟩] else [] := by
  rw [itemsWays_cons, Item.ways]
  by_cases h : pos = text.size <;> simp [h]

/-- An end anchor lets only the ways through that end with the text. -/
theorem exists_mem_itemsWays_endAnchor_iff {text : Array UInt8} {items : List Item} {pos : Nat}
    {c : Captures} {stop : Nat} :
    (∃ w ∈ itemsWays text (items ++ [.endAnchor]) pos c, w.stop = stop) ↔
      (∃ w ∈ itemsWays text items pos c, w.stop = stop) ∧ stop = text.size := by
  rw [itemsWays_append]
  constructor
  · rintro ⟨w, hw, rfl⟩
    obtain ⟨v, hv, hw⟩ := List.mem_flatMap.mp hw
    rw [itemsWays_endAnchor] at hw
    split at hw
    next hsize =>
      obtain rfl := List.mem_singleton.mp hw
      exact ⟨⟨v, hv, rfl⟩, hsize⟩
    next => cases hw
  · rintro ⟨⟨w, hw, rfl⟩, hsize⟩
    refine ⟨w, List.mem_flatMap.mpr ⟨w, hw, ?_⟩, rfl⟩
    rw [itemsWays_endAnchor, if_pos hsize]
    exact List.mem_singleton.mpr rfl

/-- The ways of a group that has begun an iteration, from the ends of its
alternatives on: what the iteration at `start` captures, once for every further
iteration and once for none. -/
def tailWays (text : Array UInt8) (slot : Nat) (times : Repeat)
    (body : Nat → Captures → List Way) (start pos : Nat) (c : Captures) : List Way :=
  let captured := c.set slot (some ⟨start, pos⟩)
  (if times.isUnbounded ∧ start < pos ∧ pos ≤ text.size then
    iterationWays text slot times body pos captured else []) ++ [⟨pos, captured⟩]

theorem iterationWays_eq (text : Array UInt8) (slot : Nat) (times : Repeat)
    (body : Nat → Captures → List Way) (pos : Nat) (c : Captures) :
    iterationWays text slot times body pos c =
      (body pos c).flatMap fun w =>
        tailWays text slot times body pos w.stop w.captures := by
  rw [iterationWays]
  congr 1
  funext w
  unfold tailWays
  split <;> simp

/-- After an iteration come further ones, if there may be any, or none. -/
theorem mem_tailWays_iff {text : Array UInt8} {slot : Nat} {times : Repeat}
    {body : Nat → Captures → List Way} {start pos : Nat} {c : Captures} {w : Way} :
    w ∈ tailWays text slot times body start pos c ↔
      (times.isUnbounded ∧ start < pos ∧ pos ≤ text.size) ∧
          w ∈ iterationWays text slot times body pos (c.set slot (some ⟨start, pos⟩)) ∨
        w = ⟨pos, c.set slot (some ⟨start, pos⟩)⟩ := by
  unfold tailWays
  dsimp only
  rw [List.mem_append, List.mem_singleton]
  split
  next hgoes => rw [and_iff_right hgoes]
  next hends => simp only [List.not_mem_nil, hends, false_and]

end ByteRegex
