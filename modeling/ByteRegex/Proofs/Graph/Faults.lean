import ByteRegex.Proofs.Graph.Placement

/-!
# Trees without faults

A tree has no fault if none of its parts has one and every end anchor in it has
nothing to continue at. The lemmas here take "no fault" apart along the tree.
-/

namespace ByteRegex

@[simp] theorem numberFault?_eq_none {number : Nat} : numberFault? number = none ↔ number ≠ 0 := by
  simp [numberFault?]

/-- An item in a sequence may end its chain only if nothing comes after it. -/
theorem anchorFault?_cons_eq_none {here : NodeId} {exit : Option NodeId} {item : Item}
    {rest : List Item} :
    anchorFault? here exit (item :: rest) = none ↔
      (item.endsChain = true → entryOf rest (here + item.nodeCount) exit = none) ∧
        anchorFault? (here + item.nodeCount) exit rest = none := by
  rw [anchorFault?, continuation_eq_entryOf]
  cases hends : item.endsChain with
  | false => simp
  | true =>
      cases hentry : entryOf rest (here + item.nodeCount) exit with
      | none => simp
      | some successor => simp

theorem itemsFault?_cons_eq_none {here : NodeId} {item : Item} {rest : List Item} :
    itemsFault? here (item :: rest) = none ↔
      item.shapeFault? here = none ∧ itemsFault? (here + item.nodeCount) rest = none := by
  rw [itemsFault?, Option.or_eq_none_iff]

theorem branchesFault?_cons_eq_none {tail here : NodeId} {items : List Item}
    {rest : List (List Item)} :
    branchesFault? tail here (items :: rest) = none ↔
      (itemsFault? here items = none ∧ anchorFault? here (some tail) items = none) ∧
        branchesFault? tail (here + itemsNodeCount items) rest = none := by
  rw [branchesFault?, Option.or_eq_none_iff, Option.or_eq_none_iff]

theorem Item.shapeFault?_group_eq_none {here : NodeId} {number : Nat}
    {alternatives : List (List Item)} :
    (Item.group number alternatives).shapeFault? here = none ↔
      number ≠ 0 ∧ branchesFault? (here + 1) (here + 2) alternatives = none := by
  rw [Item.shapeFault?, Option.or_eq_none_iff, numberFault?_eq_none]

/-- A quantifier adds no fault to an item that is no quantifier itself, and it
changes nothing about what may follow. -/
theorem Item.quantified_faultless {here : NodeId} {q : Quantifier} {inner : Item}
    (h : (Item.quantified q inner).shapeFault? here = none) :
    inner.shapeFault? here = none ∧
      (Item.quantified q inner).endsChain = inner.endsChain := by
  cases inner with
  | quantified _ _ => simp [Item.shapeFault?] at h
  | byte _ => exact ⟨rfl, rfl⟩
  | any => exact ⟨rfl, rfl⟩
  | oneOf _ _ => exact ⟨rfl, rfl⟩
  | endAnchor => exact ⟨rfl, rfl⟩
  | backreference _ | group _ _ =>
      rw [Item.shapeFault?] at h
      · exact ⟨h, rfl⟩
      · intro _ _ heq
        cases heq

theorem Pattern.shapeFault?_eq_none {p : Pattern} :
    p.shapeFault? = none ↔
      itemsFault? 0 p.items = none ∧ anchorFault? 0 none p.items = none := by
  rw [Pattern.shapeFault?, Option.or_eq_none_iff]

end ByteRegex
