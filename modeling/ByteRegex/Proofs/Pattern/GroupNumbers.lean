import ByteRegex.Graph.Layout

/-!
# The group numbers of a tree

`itemsNumbers` lists the numbers of all groups of a sequence, inner ones
included, in the order in which the groups open. The slots of a tree are these
numbers less one. `itemsGroups` lists the groups themselves in the same order,
each with its number and its alternatives.
-/

namespace ByteRegex

mutual

/-- The numbers of the groups of an item, in the order in which they open. -/
def Item.numbers : Item → List Nat
  | .byte _ | .any | .oneOf _ _ | .backreference _ | .endAnchor => []
  | .quantified _ inner => inner.numbers
  | .group number alternatives => number :: branchesNumbers alternatives

/-- The numbers of the groups of a sequence. -/
def itemsNumbers : List Item → List Nat
  | [] => []
  | item :: rest => item.numbers ++ itemsNumbers rest

/-- The numbers of the groups of all alternatives. -/
def branchesNumbers : List (List Item) → List Nat
  | [] => []
  | items :: rest => itemsNumbers items ++ branchesNumbers rest

end

@[simp] theorem itemsNumbers_nil : itemsNumbers [] = [] := rfl

@[simp] theorem itemsNumbers_cons (item : Item) (rest : List Item) :
    itemsNumbers (item :: rest) = item.numbers ++ itemsNumbers rest := by
  rw [itemsNumbers]

@[simp] theorem branchesNumbers_nil : branchesNumbers [] = [] := rfl

@[simp] theorem branchesNumbers_cons (items : List Item) (rest : List (List Item)) :
    branchesNumbers (items :: rest) = itemsNumbers items ++ branchesNumbers rest := by
  rw [branchesNumbers]

theorem itemsNumbers_append (xs ys : List Item) :
    itemsNumbers (xs ++ ys) = itemsNumbers xs ++ itemsNumbers ys := by
  induction xs with
  | nil => rfl
  | cons item rest ih => simp [ih]

theorem branchesNumbers_append (xs ys : List (List Item)) :
    branchesNumbers (xs ++ ys) = branchesNumbers xs ++ branchesNumbers ys := by
  induction xs with
  | nil => rfl
  | cons items rest ih => simp [ih]

/-- The slots of groups with these numbers. -/
def slotsOf (numbers : List Nat) : List Nat :=
  numbers.map slotOf

@[simp] theorem slotsOf_nil : slotsOf [] = [] := rfl

@[simp] theorem slotsOf_cons (n : Nat) (numbers : List Nat) :
    slotsOf (n :: numbers) = slotOf n :: slotsOf numbers := rfl

@[simp] theorem slotsOf_append (xs ys : List Nat) :
    slotsOf (xs ++ ys) = slotsOf xs ++ slotsOf ys :=
  List.map_append

/-- Groups numbered from 1 on without a gap have the slots from 0 on. -/
theorem slotsOf_range' (n : Nat) : slotsOf (List.range' 1 n) = List.range n := by
  unfold slotsOf
  rw [List.range'_eq_map_range, List.map_map]
  apply List.map_id''
  intro i
  simp [slotOf]

/-! ## Groups with their alternatives -/

mutual

/-- The groups of an item, in the order in which they open. -/
def Item.groups : Item → List (Nat × List (List Item))
  | .byte _ | .any | .oneOf _ _ | .backreference _ | .endAnchor => []
  | .quantified _ inner => inner.groups
  | .group number alternatives => (number, alternatives) :: branchesGroups alternatives

/-- The groups of a sequence. -/
def itemsGroups : List Item → List (Nat × List (List Item))
  | [] => []
  | item :: rest => item.groups ++ itemsGroups rest

/-- The groups in all alternatives. -/
def branchesGroups : List (List Item) → List (Nat × List (List Item))
  | [] => []
  | items :: rest => itemsGroups items ++ branchesGroups rest

end

@[simp] theorem itemsGroups_nil : itemsGroups [] = [] := rfl

@[simp] theorem itemsGroups_cons (item : Item) (rest : List Item) :
    itemsGroups (item :: rest) = item.groups ++ itemsGroups rest := by
  rw [itemsGroups]

@[simp] theorem branchesGroups_nil : branchesGroups [] = [] := rfl

@[simp] theorem branchesGroups_cons (items : List Item) (rest : List (List Item)) :
    branchesGroups (items :: rest) = itemsGroups items ++ branchesGroups rest := by
  rw [branchesGroups]

theorem itemsGroups_append (xs ys : List Item) :
    itemsGroups (xs ++ ys) = itemsGroups xs ++ itemsGroups ys := by
  induction xs with
  | nil => rfl
  | cons item rest ih => simp [ih]

theorem groups_subset_itemsGroups {item : Item} {items : List Item} (h : item ∈ items) :
    item.groups ⊆ itemsGroups items := by
  obtain ⟨before, after, rfl⟩ := List.append_of_mem h
  rw [itemsGroups_append, itemsGroups_cons]
  exact List.subset_append_of_subset_right _ (List.subset_append_left _ _)

mutual

theorem Item.map_fst_groups : ∀ item : Item, item.groups.map Prod.fst = item.numbers
  | .byte _ | .any | .oneOf _ _ | .backreference _ | .endAnchor => by
      simp [Item.groups, Item.numbers]
  | .quantified _ inner => by
      rw [Item.groups, Item.numbers]
      exact Item.map_fst_groups inner
  | .group _ alternatives => by
      rw [Item.groups, Item.numbers, List.map_cons, branchesGroups_map_fst alternatives]

theorem itemsGroups_map_fst : ∀ items : List Item,
    (itemsGroups items).map Prod.fst = itemsNumbers items
  | [] => rfl
  | item :: rest => by
      rw [itemsGroups_cons, itemsNumbers_cons, List.map_append, Item.map_fst_groups item,
        itemsGroups_map_fst rest]

theorem branchesGroups_map_fst : ∀ branches : List (List Item),
    (branchesGroups branches).map Prod.fst = branchesNumbers branches
  | [] => rfl
  | items :: rest => by
      rw [branchesGroups_cons, branchesNumbers_cons, List.map_append, itemsGroups_map_fst items,
        branchesGroups_map_fst rest]

end

end ByteRegex
