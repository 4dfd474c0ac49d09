import ByteRegex.Graph.Layout

/-!
# Where the nodes of a pattern stand

`Program.Places p here ns` says that the nodes `ns` stand in `p` one after the
other from index `here` on. Laying a pattern out places the nodes of each part
of its tree at the index that the part was told, so a statement about a part is
a statement about any program in which its nodes are placed: nothing else of
the program matters to it. The sizes that the layout computes beforehand are the
lengths of the lists of nodes that it makes.
-/

namespace ByteRegex

/-! ## Sizes -/

mutual

theorem Item.length_nodes (times : Repeat) (here : NodeId) (next : Option NodeId) :
    ∀ item : Item, (item.nodes times here next).length = item.nodeCount
  | .byte _ | .any | .oneOf _ _ | .backreference _ | .endAnchor => by
      simp [Item.nodes, Item.nodeCount]
  | .quantified q inner => by
      rw [Item.nodes, Item.nodeCount]
      exact Item.length_nodes q.times here next inner
  | .group _ alternatives => by
      have h := branchesNodes_length (here + 1) (here + 2) alternatives
      simp only [Item.nodes, Item.nodeCount, List.length_cons, h]
      omega

theorem itemsNodes_length (here : NodeId) (exit : Option NodeId) :
    ∀ items : List Item, (itemsNodes here exit items).length = itemsNodeCount items
  | [] => rfl
  | item :: rest => by
      rw [itemsNodes, itemsNodeCount, List.length_append, Item.length_nodes,
        itemsNodes_length (here + item.nodeCount) exit rest]

theorem branchesNodes_length (tail here : NodeId) :
    ∀ branches : List (List Item),
      (branchesNodes tail here branches).length = branchesNodeCount branches
  | [] => rfl
  | items :: rest => by
      rw [branchesNodes, branchesNodeCount, List.length_append, itemsNodes_length,
        branchesNodes_length tail (here + itemsNodeCount items) rest]

end

/-- Every item takes a node. -/
theorem Item.nodeCount_pos : ∀ item : Item, 0 < item.nodeCount
  | .byte _ | .any | .oneOf _ _ | .backreference _ | .endAnchor => by simp [Item.nodeCount]
  | .quantified _ inner => by
      rw [Item.nodeCount]
      exact Item.nodeCount_pos inner
  | .group _ _ => by
      rw [Item.nodeCount]
      omega

/-! ## Placement -/

/-- The nodes `ns` stand in the program one after the other from `here` on. -/
def Program.Places (p : Program) (here : NodeId) (ns : List Node) : Prop :=
  ∀ i (h : i < ns.length), p.nodes[here + i]? = some ns[i]

namespace Program.Places

variable {p : Program} {here : NodeId} {n : Node} {ns ms : List Node}

theorem head (h : p.Places here (n :: ns)) : p.nodes[here]? = some n :=
  h 0 (Nat.zero_lt_succ _)

theorem tail (h : p.Places here (n :: ns)) : p.Places (here + 1) ns := by
  intro i hi
  have hsucc := h (i + 1) (by simpa using hi)
  rwa [List.getElem_cons_succ, ← Nat.add_assoc, Nat.add_right_comm] at hsucc

theorem append_left (h : p.Places here (ns ++ ms)) : p.Places here ns := by
  intro i hi
  rw [h i (by rw [List.length_append]; omega), List.getElem_append_left hi]

theorem append_right (h : p.Places here (ns ++ ms)) : p.Places (here + ns.length) ms := by
  intro i hi
  rw [Nat.add_assoc, h (ns.length + i) (by rw [List.length_append]; omega),
    List.getElem_append_right (by omega)]
  simp

end Program.Places

/-- A program places all of its nodes at 0. -/
theorem Program.places_all (p : Program) : p.Places 0 p.nodes.toList := by
  intro i hi
  have hsize : i < p.nodes.size := by simpa using hi
  simp [hsize]

/-! ## Placement of the parts of a tree -/

/-- The node to enter a sequence at: its first one or, if it has no items, its
exit. -/
def entryOf (items : List Item) (here : NodeId) (exit : Option NodeId) : Option NodeId :=
  if items.isEmpty then exit else some here

@[simp] theorem entryOf_nil (here : NodeId) (exit : Option NodeId) :
    entryOf [] here exit = exit := rfl

@[simp] theorem entryOf_cons (item : Item) (rest : List Item) (here : NodeId)
    (exit : Option NodeId) : entryOf (item :: rest) here exit = some here := rfl

/-- An item of a sequence continues at the entry of the items after it. -/
theorem continuation_eq_entryOf (item : Item) (rest : List Item) (here : NodeId)
    (exit : Option NodeId) :
    continuation item rest here exit = entryOf rest (here + item.nodeCount) exit := rfl

theorem itemsNodeCount_append (xs ys : List Item) :
    itemsNodeCount (xs ++ ys) = itemsNodeCount xs + itemsNodeCount ys := by
  induction xs with
  | nil => rw [List.nil_append, itemsNodeCount, Nat.zero_add]
  | cons item rest ih =>
      rw [List.cons_append, itemsNodeCount, itemsNodeCount, ih, Nat.add_assoc]

/-- Two sequences in a row stand one behind the other. -/
theorem itemsNodes_append (xs ys : List Item) (here : NodeId) (exit : Option NodeId) :
    itemsNodes here exit (xs ++ ys) =
      itemsNodes here (entryOf ys (here + itemsNodeCount xs) exit) xs ++
        itemsNodes (here + itemsNodeCount xs) exit ys := by
  induction xs generalizing here with
  | nil => rfl
  | cons item rest ih =>
      have hnext : continuation item (rest ++ ys) here exit =
          continuation item rest here
            (entryOf ys (here + item.nodeCount + itemsNodeCount rest) exit) := by
        cases rest <;> rfl
      rw [List.cons_append, itemsNodes, itemsNodes, ih, hnext, itemsNodeCount, List.append_assoc,
        ← Nat.add_assoc]

theorem entryOf_append (xs ys : List Item) (here : NodeId) (exit : Option NodeId) :
    entryOf (xs ++ ys) here exit =
      entryOf xs here (entryOf ys (here + itemsNodeCount xs) exit) := by
  cases xs <;> rfl

section

variable {p : Program} {here tail : NodeId} {exit next : Option NodeId}

theorem Program.Places.first_item {item : Item} {rest : List Item}
    (h : p.Places here (itemsNodes here exit (item :: rest))) :
    p.Places here
      (item.nodes .once here (entryOf rest (here + item.nodeCount) exit)) := by
  rw [itemsNodes, continuation_eq_entryOf] at h
  exact h.append_left

theorem Program.Places.later_items {item : Item} {rest : List Item}
    (h : p.Places here (itemsNodes here exit (item :: rest))) :
    p.Places (here + item.nodeCount) (itemsNodes (here + item.nodeCount) exit rest) := by
  rw [itemsNodes] at h
  have hrest := h.append_right
  rwa [Item.length_nodes] at hrest

theorem Program.Places.first_branch {items : List Item} {rest : List (List Item)}
    (h : p.Places here (branchesNodes tail here (items :: rest))) :
    p.Places here (itemsNodes here (some tail) items) := by
  rw [branchesNodes] at h
  exact h.append_left

theorem Program.Places.later_branches {items : List Item} {rest : List (List Item)}
    (h : p.Places here (branchesNodes tail here (items :: rest))) :
    p.Places (here + itemsNodeCount items)
      (branchesNodes tail (here + itemsNodeCount items) rest) := by
  rw [branchesNodes] at h
  have hrest := h.append_right
  rwa [itemsNodes_length] at hrest

theorem Program.Places.group_head {times : Repeat} {number : Nat}
    {alternatives : List (List Item)}
    (h : p.Places here ((Item.group number alternatives).nodes times here next)) :
    p.nodes[here]? = some (.groupHead (slotOf number) times
      (branchEntries (here + 1) (here + 2) alternatives) (here + 1)) := by
  rw [Item.nodes] at h
  exact h.head

theorem Program.Places.group_tail {times : Repeat} {number : Nat}
    {alternatives : List (List Item)}
    (h : p.Places here ((Item.group number alternatives).nodes times here next)) :
    p.nodes[here + 1]? = some (.groupTail (slotOf number) here next) := by
  rw [Item.nodes] at h
  exact h.tail.head

theorem Program.Places.group_branches {times : Repeat} {number : Nat}
    {alternatives : List (List Item)}
    (h : p.Places here ((Item.group number alternatives).nodes times here next)) :
    p.Places (here + 2) (branchesNodes (here + 1) (here + 2) alternatives) := by
  rw [Item.nodes] at h
  exact h.tail.tail

end

/-- An alternative that is left at the tail is entered at a node in any case. -/
theorem entryOf_tail (items : List Item) (here tail : NodeId) :
    entryOf items here (some tail) = some (if items.isEmpty then tail else here) := by
  cases items <;> rfl

/-! ## Placement of a whole pattern -/

/-- The graph of a pattern without faults. -/
theorem Pattern.toProgram_eq_ok {p : Pattern} (h : p.shapeFault? = none) :
    p.toProgram = .ok {
      nodes := (itemsNodes 0 none p.items).toArray
      root := entryOf p.items 0 none
      slots := p.groups } := by
  rw [Pattern.toProgram, h]
  rfl

/-- What the graph of a pattern is made of. -/
theorem Pattern.toProgram_eq_ok_iff {p : Pattern} {program : Program} :
    p.toProgram = .ok program ↔
      p.shapeFault? = none ∧ program.nodes.toList = itemsNodes 0 none p.items ∧
        program.root = entryOf p.items 0 none ∧ program.slots = p.groups := by
  constructor
  · intro h
    cases hfault : p.shapeFault? with
    | some fault => simp [Pattern.toProgram, hfault] at h
    | none =>
        rw [Pattern.toProgram_eq_ok hfault] at h
        cases h
        exact ⟨rfl, rfl, rfl, rfl⟩
  · rintro ⟨hfault, hnodes, hroot, hslots⟩
    rw [Pattern.toProgram_eq_ok hfault]
    obtain ⟨nodes, root, slots⟩ := program
    simp only at hnodes hroot hslots
    subst hroot hslots
    rw [← hnodes]

/-- The graph of a pattern places its items at 0. -/
theorem Pattern.toProgram_places {p : Pattern} {program : Program}
    (h : p.toProgram = .ok program) : program.Places 0 (itemsNodes 0 none p.items) := by
  have hnodes := (Pattern.toProgram_eq_ok_iff.mp h).2.1
  rw [← hnodes]
  exact program.places_all

end ByteRegex
