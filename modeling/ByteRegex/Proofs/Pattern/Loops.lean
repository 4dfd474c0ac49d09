import ByteRegex.Proofs.Graph.Shape

/-!
# Loops in a tree

A group under `*` or `+` is a loop: a walk comes back to its nodes, once more for each iteration.
Two numbers say what this may cost. `itemsLoopDepth` is the greatest number of loops around a point
of the tree, each loop being around its own alternatives. `itemsRate` is how many more nodes may be
under way for each byte that a walk takes: every iteration but the last takes a byte, and then comes
back to the alternatives and to the tail. Loops inside each other add up, those next to each other
do not, since a byte is taken in one of them only.
-/

namespace ByteRegex

/-- A group under `*` or `+`. -/
def Item.IsLoop (item : Item) : Prop :=
  ∃ q number alternatives, item = .quantified q (.group number alternatives) ∧
    q.times.isUnbounded = true

mutual

/-- The greatest number of loops around a point of an item that may occur `times`. -/
def Item.loopDepth (times : Repeat) : Item → Nat
  | .byte _ | .any | .oneOf _ _ | .backreference _ | .endAnchor => 0
  | .quantified q inner => inner.loopDepth q.times
  | .group _ alternatives =>
    branchesLoopDepth alternatives + if times.isUnbounded then 1 else 0

/-- The greatest number of loops around a point of a sequence. -/
def itemsLoopDepth : List Item → Nat
  | [] => 0
  | item :: rest => max (item.loopDepth .once) (itemsLoopDepth rest)

/-- The greatest number of loops around a point of the alternatives. -/
def branchesLoopDepth : List (List Item) → Nat
  | [] => 0
  | items :: rest => max (itemsLoopDepth items) (branchesLoopDepth rest)

end

mutual

/-- How many more nodes of an item may be under way for each byte that it takes. -/
def Item.rate (times : Repeat) : Item → Nat
  | .byte _ | .any | .oneOf _ _ | .backreference _ | .endAnchor => 0
  | .quantified q inner => inner.rate q.times
  | .group _ alternatives =>
    branchesRate alternatives + if times.isUnbounded then branchesNodeCount alternatives + 1 else 0

/-- How many more nodes of a sequence may be under way for each byte that it takes. -/
def itemsRate : List Item → Nat
  | [] => 0
  | item :: rest => max (item.rate .once) (itemsRate rest)

/-- How many more nodes of the alternatives may be under way for each byte that they take. -/
def branchesRate : List (List Item) → Nat
  | [] => 0
  | items :: rest => max (itemsRate items) (branchesRate rest)

end

/-- A bound for each of two parts by its nodes and its loops is one for both together. -/
theorem max_le_nodes_mul_loops {r r' n n' l l' : Nat} (h : r ≤ n * l) (h' : r' ≤ n' * l') :
    max r r' ≤ (n + n') * max l l' := by
  have hleft : n * l ≤ (n + n') * max l l' :=
    Nat.mul_le_mul (Nat.le_add_right n n') (Nat.le_max_left l l')
  have hright : n' * l' ≤ (n + n') * max l l' :=
    Nat.mul_le_mul (Nat.le_add_left n' n) (Nat.le_max_right l l')
  exact Nat.max_le.mpr ⟨Nat.le_trans h hleft, Nat.le_trans h' hright⟩

mutual

/-- Each loop around a node adds the node once. -/
theorem Item.rate_le : ∀ (item : Item) (times : Repeat),
    item.rate times ≤ item.nodeCount * item.loopDepth times
  | .byte _, _ | .any, _ | .oneOf _ _, _ | .backreference _, _ | .endAnchor, _ => by
      simp [Item.rate]
  | .quantified q inner, _ => by
      rw [Item.rate, Item.nodeCount, Item.loopDepth]
      exact Item.rate_le inner q.times
  | .group _ alternatives, times => by
      have hbody := branchesRate_le alternatives
      rw [Item.rate, Item.nodeCount, Item.loopDepth]
      split
      · rw [Nat.mul_succ, Nat.add_mul]
        omega
      · rw [Nat.add_zero, Nat.add_zero, Nat.add_mul]
        omega

theorem itemsRate_le : ∀ items : List Item,
    itemsRate items ≤ itemsNodeCount items * itemsLoopDepth items
  | [] => Nat.zero_le _
  | item :: rest => by
      rw [itemsRate, itemsNodeCount, itemsLoopDepth]
      exact max_le_nodes_mul_loops (Item.rate_le item .once) (itemsRate_le rest)

theorem branchesRate_le : ∀ branches : List (List Item),
    branchesRate branches ≤ branchesNodeCount branches * branchesLoopDepth branches
  | [] => Nat.zero_le _
  | items :: rest => by
      rw [branchesRate, branchesNodeCount, branchesLoopDepth]
      exact max_le_nodes_mul_loops (itemsRate_le items) (branchesRate_le rest)

end

mutual

/-- Around an item without loops in it there is one at most, which its quantifier makes. -/
theorem Item.loopDepth_eq_zero : ∀ (item : Item) (times : Repeat),
    (∀ part ∈ item :: item.inside, ¬ part.IsLoop) →
    (∀ number alternatives, item = .group number alternatives → times.isUnbounded = false) →
      item.loopDepth times = 0
  | .byte _, _, _, _ | .any, _, _, _ | .oneOf _ _, _, _, _ | .backreference _, _, _, _
  | .endAnchor, _, _, _ => by
      simp [Item.loopDepth]
  | .quantified q inner, _, hparts, _ => by
      rw [Item.inside, List.forall_mem_cons] at hparts
      rw [Item.loopDepth]
      refine Item.loopDepth_eq_zero inner q.times hparts.2 fun number alternatives hgroup => ?_
      rw [← Bool.not_eq_true]
      exact fun hrepeat => hparts.1 ⟨q, number, alternatives, by rw [hgroup], hrepeat⟩
  | .group number alternatives, times, hparts, htimes => by
      rw [Item.inside, List.forall_mem_cons] at hparts
      rw [Item.loopDepth, branchesLoopDepth_eq_zero alternatives hparts.2,
        htimes number alternatives rfl]
      rfl

theorem itemsLoopDepth_eq_zero : ∀ items : List Item,
    (∀ part ∈ itemsParts items, ¬ part.IsLoop) → itemsLoopDepth items = 0
  | [], _ => rfl
  | item :: rest, hparts => by
      rw [itemsParts, ← List.cons_append, List.forall_mem_append] at hparts
      rw [itemsLoopDepth, Item.loopDepth_eq_zero item .once hparts.1 fun _ _ _ => rfl,
        itemsLoopDepth_eq_zero rest hparts.2, Nat.max_self]

theorem branchesLoopDepth_eq_zero : ∀ branches : List (List Item),
    (∀ part ∈ branchesParts branches, ¬ part.IsLoop) → branchesLoopDepth branches = 0
  | [], _ => rfl
  | items :: rest, hparts => by
      rw [branchesParts, List.forall_mem_append] at hparts
      rw [branchesLoopDepth, itemsLoopDepth_eq_zero items hparts.1,
        branchesLoopDepth_eq_zero rest hparts.2, Nat.max_self]

end

/-- Without loops a byte costs nothing. -/
theorem itemsRate_eq_zero {items : List Item} (h : ∀ part ∈ itemsParts items, ¬ part.IsLoop) :
    itemsRate items = 0 := by
  have hrate := itemsRate_le items
  rw [itemsLoopDepth_eq_zero items h, Nat.mul_zero] at hrate
  exact Nat.le_zero.mp hrate

end ByteRegex
