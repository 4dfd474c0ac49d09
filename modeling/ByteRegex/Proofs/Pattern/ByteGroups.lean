import ByteRegex.Proofs.Graph.Shape
import ByteRegex.Proofs.Pattern.GroupNumbers

/-!
# Single bytes in groups of their own

`Pattern.groupByte p index` is the pattern `p` in which one item that stands for a single byte
is put into a group with a new number; what quantifier stands on the byte then stands on the
group. The bytes of a pattern are counted in the order in which they are written, whatever
groups and quantifiers they stand under.

Along the tree it is as easy to say it of any set of bytes: `Item.groupBytes` is told which
indices are chosen and how many bytes came before.
-/

namespace ByteRegex

/-- The item or, if it is chosen, the group of this number with the item alone in it. -/
def Item.groupIf (number : Nat) (chosen : Bool) (item : Item) : Item :=
  if chosen then .group number [[item]] else item

mutual

/-- How many items that stand for a single byte there are in an item. -/
def Item.byteCount : Item → Nat
  | .byte _ | .any | .oneOf _ _ => 1
  | .quantified _ inner => inner.byteCount
  | .group _ alternatives => branchesByteCount alternatives
  | .backreference _ | .endAnchor => 0

def itemsByteCount : List Item → Nat
  | [] => 0
  | item :: rest => item.byteCount + itemsByteCount rest

def branchesByteCount : List (List Item) → Nat
  | [] => 0
  | items :: rest => itemsByteCount items + branchesByteCount rest

end

section

variable (number : Nat) (chosen : Nat → Bool)

mutual

/-- The item with its chosen bytes in groups of this number. Its bytes have the indices from
`first` on. -/
def Item.groupBytes (first : Nat) : Item → Item
  | .byte b => (Item.byte b).groupIf number (chosen first)
  | .any => Item.any.groupIf number (chosen first)
  | .oneOf written negated => (Item.oneOf written negated).groupIf number (chosen first)
  | .quantified q inner => .quantified q (inner.groupBytes first)
  | .group k alternatives => .group k (branchesGroupBytes first alternatives)
  | .backreference k => .backreference k
  | .endAnchor => .endAnchor

def itemsGroupBytes (first : Nat) : List Item → List Item
  | [] => []
  | item :: rest => item.groupBytes first :: itemsGroupBytes (first + item.byteCount) rest

def branchesGroupBytes (first : Nat) : List (List Item) → List (List Item)
  | [] => []
  | items :: rest =>
    itemsGroupBytes first items :: branchesGroupBytes (first + itemsByteCount items) rest

end

end

/-- The pattern with the byte of this index in a group of its own, which is the last group. An
index that no byte has adds the number of a group and nothing else. -/
def Pattern.groupByte (p : Pattern) (index : Nat) : Pattern where
  matchStart := p.matchStart
  items := itemsGroupBytes (p.groups + 1) (· == index) 0 p.items
  groups := p.groups + 1

section

variable {number : Nat} {chosen : Nat → Bool}

/-! ## Numbers -/

theorem Item.length_numbers_groupIf {item : Item} (hitem : item.numbers = []) (first : Nat) :
    (item.groupIf number (chosen first)).numbers.length =
      item.numbers.length + (List.range' first 1).countP chosen := by
  cases hchosen : chosen first <;> simp [groupIf, Item.numbers, hitem, hchosen]

mutual

/-- Each chosen byte adds one group. -/
theorem Item.length_numbers_groupBytes : ∀ (item : Item) (first : Nat),
    (item.groupBytes number chosen first).numbers.length =
      item.numbers.length + (List.range' first item.byteCount).countP chosen
  | .byte _, first | .any, first | .oneOf _ _, first => by
      rw [Item.groupBytes, Item.byteCount]
      exact Item.length_numbers_groupIf rfl first
  | .quantified _ inner, first => by
      rw [Item.groupBytes, Item.byteCount, Item.numbers, Item.numbers]
      exact Item.length_numbers_groupBytes inner first
  | .group _ alternatives, first => by
      have h := branchesNumbers_groupBytes_length alternatives first
      rw [Item.groupBytes, Item.byteCount, Item.numbers, Item.numbers, List.length_cons,
        List.length_cons, h]
      omega
  | .backreference _, _ | .endAnchor, _ => rfl

theorem itemsNumbers_groupBytes_length : ∀ (items : List Item) (first : Nat),
    (itemsNumbers (itemsGroupBytes number chosen first items)).length =
      (itemsNumbers items).length + (List.range' first (itemsByteCount items)).countP chosen
  | [], _ => rfl
  | item :: rest, first => by
      have hitem := Item.length_numbers_groupBytes item first
      have hrest := itemsNumbers_groupBytes_length rest (first + item.byteCount)
      rw [itemsGroupBytes, itemsNumbers_cons, itemsNumbers_cons, List.length_append,
        List.length_append, hitem, hrest, itemsByteCount, ← List.range'_append_1,
        List.countP_append]
      omega

theorem branchesNumbers_groupBytes_length : ∀ (branches : List (List Item)) (first : Nat),
    (branchesNumbers (branchesGroupBytes number chosen first branches)).length =
      (branchesNumbers branches).length +
        (List.range' first (branchesByteCount branches)).countP chosen
  | [], _ => rfl
  | items :: rest, first => by
      have hitems := itemsNumbers_groupBytes_length items first
      have hrest := branchesNumbers_groupBytes_length rest (first + itemsByteCount items)
      rw [branchesGroupBytes, branchesNumbers_cons, branchesNumbers_cons, List.length_append,
        List.length_append, hitems, hrest, branchesByteCount, ← List.range'_append_1,
        List.countP_append]
      omega

end

/-- A byte of the pattern gets one group. -/
theorem Pattern.length_numbers_groupByte (p : Pattern) {index : Nat}
    (h : index < itemsByteCount p.items) :
    (itemsNumbers (p.groupByte index).items).length = (itemsNumbers p.items).length + 1 := by
  have hone : (List.range' 0 (itemsByteCount p.items)).count index = 1 := by
    rw [List.count_range_1', if_pos (by omega)]
  rw [← hone]
  exact itemsNumbers_groupBytes_length p.items 0

/-! ## Faults -/

/-- A single byte has no fault in a group either. -/
theorem Item.groupIf_faultless (hnumber : number ≠ 0) {item : Item}
    (hitem : ∀ here, item.shapeFault? here = none) (hends : item.endsChain = false) (c : Bool)
    (here : NodeId) : (item.groupIf number c).shapeFault? here = none := by
  cases c with
  | false => exact hitem here
  | true =>
      rw [groupIf, if_pos rfl, shapeFault?_group_eq_none]
      exact ⟨hnumber, by simp [branchesFault?, itemsFault?, anchorFault?, hitem, hends]⟩

/-- No byte is an end anchor, nor is a group. -/
theorem Item.endsChain_groupBytes (item : Item) (first : Nat) :
    (item.groupBytes number chosen first).endsChain = item.endsChain := by
  cases item with
  | byte _ | any | oneOf _ _ =>
      rw [groupBytes]
      cases chosen first <;> rfl
  | quantified q inner =>
      cases inner with
      | byte _ | any | oneOf _ _ =>
          rw [groupBytes, groupBytes]
          cases chosen first <;> rfl
      | quantified _ _ | group _ _ | backreference _ | endAnchor => rfl
  | group _ _ | backreference _ | endAnchor => rfl

/-- A quantifier stands on a quantifier only where it did before. -/
theorem Item.groupBytes_ne_quantified {item : Item}
    (h : ∀ r other, item ≠ .quantified r other) (first : Nat) :
    ∀ r other, item.groupBytes number chosen first ≠ .quantified r other := by
  cases item with
  | byte _ | any | oneOf _ _ =>
      rw [groupBytes]
      cases chosen first <;> exact fun _ _ => nofun
  | quantified q inner => exact absurd rfl (h q inner)
  | group _ _ | backreference _ | endAnchor => exact fun _ _ => nofun

/-- The entry of a sequence is its exit only if the sequence is empty. -/
theorem entryOf_itemsGroupBytes_eq_none {items : List Item} {first : Nat} {here here' : NodeId}
    {exit exit' : Option NodeId} (h : entryOf items here exit = none)
    (hexit : exit = none → exit' = none) :
    entryOf (itemsGroupBytes number chosen first items) here' exit' = none := by
  cases items with
  | nil => exact hexit h
  | cons item rest => cases h

theorem anchorFault?_itemsGroupBytes {items : List Item} {first : Nat} {here here' : NodeId}
    {exit exit' : Option NodeId} (h : anchorFault? here exit items = none)
    (hexit : exit = none → exit' = none) :
    anchorFault? here' exit' (itemsGroupBytes number chosen first items) = none := by
  induction items generalizing first here here' with
  | nil => rfl
  | cons item rest ih =>
      rw [anchorFault?_cons_eq_none] at h
      rw [itemsGroupBytes, anchorFault?_cons_eq_none, Item.endsChain_groupBytes]
      exact ⟨fun hends => entryOf_itemsGroupBytes_eq_none (h.1 hends) hexit, ih h.2⟩

mutual

theorem Item.groupBytes_faultless (hnumber : number ≠ 0) : ∀ (item : Item) (first : Nat)
    (here here' : NodeId), item.shapeFault? here = none →
      (item.groupBytes number chosen first).shapeFault? here' = none
  | .byte _, _, _, here', _ | .any, _, _, here', _ | .oneOf _ _, _, _, here', _ => by
      rw [Item.groupBytes]
      exact Item.groupIf_faultless hnumber (fun _ => rfl) rfl _ here'
  | .quantified q inner, first, here, here', h => by
      rw [Item.shapeFault?_quantified_eq_none, Item.not_illShaped_quantified_iff] at h
      rw [Item.groupBytes, Item.shapeFault?_quantified_eq_none, Item.not_illShaped_quantified_iff]
      exact ⟨Item.groupBytes_ne_quantified h.1 first,
        Item.groupBytes_faultless hnumber inner first here here' h.2⟩
  | .group _ alternatives, first, here, here', h => by
      rw [Item.shapeFault?_group_eq_none] at h
      rw [Item.groupBytes, Item.shapeFault?_group_eq_none]
      exact ⟨h.1, branchesGroupBytes_faultless hnumber alternatives first _ _ _ _ h.2⟩
  | .backreference _, _, _, _, h | .endAnchor, _, _, _, h => h

theorem itemsGroupBytes_faultless (hnumber : number ≠ 0) : ∀ (items : List Item) (first : Nat)
    (here here' : NodeId), itemsFault? here items = none →
      itemsFault? here' (itemsGroupBytes number chosen first items) = none
  | [], _, _, _, _ => rfl
  | item :: rest, first, here, here', h => by
      rw [itemsFault?_cons_eq_none] at h
      rw [itemsGroupBytes, itemsFault?_cons_eq_none]
      exact ⟨Item.groupBytes_faultless hnumber item first here here' h.1,
        itemsGroupBytes_faultless hnumber rest _ _ _ h.2⟩

theorem branchesGroupBytes_faultless (hnumber : number ≠ 0) : ∀ (branches : List (List Item))
    (first : Nat) (tail tail' here here' : NodeId), branchesFault? tail here branches = none →
      branchesFault? tail' here' (branchesGroupBytes number chosen first branches) = none
  | [], _, _, _, _, _, _ => rfl
  | items :: rest, first, tail, tail', here, here', h => by
      rw [branchesFault?_cons_eq_none] at h
      rw [branchesGroupBytes, branchesFault?_cons_eq_none]
      exact ⟨⟨itemsGroupBytes_faultless hnumber items first here here' h.1.1,
        anchorFault?_itemsGroupBytes h.1.2 nofun⟩,
        branchesGroupBytes_faultless hnumber rest _ tail tail' _ _ h.2⟩

end

end

/-- A pattern that has a graph still has one. -/
theorem Pattern.shapeFault?_groupByte {p : Pattern} (h : p.shapeFault? = none) (index : Nat) :
    (p.groupByte index).shapeFault? = none := by
  rw [shapeFault?_eq_none] at h ⊢
  exact ⟨itemsGroupBytes_faultless (Nat.succ_ne_zero p.groups) p.items 0 0 0 h.1,
    anchorFault?_itemsGroupBytes h.2 id⟩

end ByteRegex
