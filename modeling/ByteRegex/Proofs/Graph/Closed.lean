import ByteRegex.Proofs.Graph.Placement
import ByteRegex.Proofs.Pattern.GroupNumbers

/-!
# Closed graphs

A graph is closed if no index in it leads nowhere: the root and every index that a node names
are indices of nodes, and every group has a slot. Nothing is asked about how the nodes hang
together. A backreference may ask for any slot, since a slot that is not there is as good as
one that holds nothing.

The graph of a pattern is closed if its groups have slots. Every node of a part names nodes of
this part or the one where the part is left: `Item.nodes_stay` and the two lemmas beside it.
-/

namespace ByteRegex

/-- The indices that a node names. -/
def Node.ids : Node → List Nat
  | .bytes _ _ next | .backreference _ next => next.toList
  | .groupHead _ _ alternatives tail => tail :: alternatives
  | .groupTail _ head next => head :: next.toList
  | .endAnchor => []

/-- The slot of the group that a node begins or ends. -/
def Node.groupSlot? : Node → Option Nat
  | .groupHead slot _ _ _ | .groupTail slot _ _ => some slot
  | .bytes _ _ _ | .backreference _ _ | .endAnchor => none

/-- No index of the program leads nowhere. -/
structure Program.Closed (p : Program) : Prop where
  root : ∀ id ∈ p.root, id < p.nodes.size
  ids : ∀ node ∈ p.nodes, ∀ id ∈ node.ids, id < p.nodes.size
  slots : ∀ node ∈ p.nodes, ∀ slot ∈ node.groupSlot?, slot < p.slots

/-! ## The nodes of a tree -/

/-- The node names indices below `bound` and the exit only, and its slot is that of one of these
groups. -/
structure Node.Stays (node : Node) (bound : Nat) (exit : Option NodeId) (numbers : List Nat) :
    Prop where
  ids : ∀ id ∈ node.ids, id < bound ∨ exit = some id
  slot : ∀ slot ∈ node.groupSlot?, slot ∈ slotsOf numbers

section

variable {bound more : Nat} {exit : Option NodeId} {xs ys : List Nat}

theorem Node.Stays.mono {node : Node} {exit' : Option NodeId} (h : node.Stays bound exit xs)
    (hexit : ∀ id : Nat, exit = some id → id < more ∨ exit' = some id) (hbound : bound ≤ more)
    (hxs : ∀ slot ∈ slotsOf xs, slot ∈ slotsOf ys) : node.Stays more exit' ys := by
  refine ⟨fun id hid => ?_, fun slot hslot => hxs slot (h.slot slot hslot)⟩
  rcases h.ids id hid with hlt | heq
  · exact .inl (Nat.lt_of_lt_of_le hlt hbound)
  · exact hexit id heq

/-- Nodes without a group name only where they continue. -/
theorem Node.stays_of_toList {node : Node} {next : Option NodeId} (h : node.ids = next.toList)
    (hslot : node.groupSlot? = none) : node.Stays bound next xs := by
  refine ⟨fun id hid => .inr ?_, fun slot hmem => ?_⟩
  · rw [h, Option.mem_toList] at hid
    exact hid
  · rw [hslot] at hmem
    cases hmem

end

/-- Alternatives are entered at one of their nodes or at the tail. -/
theorem mem_branchEntries {tail here id : Nat} {branches : List (List Item)}
    (h : id ∈ branchEntries tail here branches) :
    id < here + branchesNodeCount branches ∨ id = tail := by
  induction branches generalizing here with
  | nil => cases h
  | cons items rest ih =>
      rw [branchEntries, List.mem_cons] at h
      rw [branchesNodeCount]
      rcases h with rfl | h
      · cases items with
        | nil => exact .inr rfl
        | cons item others =>
            have hpos := item.nodeCount_pos
            have hentry : (if (item :: others).isEmpty then tail else here) = here := rfl
            rw [hentry, itemsNodeCount]
            exact .inl (by omega)
      · rcases ih h with hlt | heq
        · exact .inl (by omega)
        · exact .inr heq

mutual

/-- The nodes of an item name each other and where the item continues. -/
theorem Item.nodes_stay : ∀ (item : Item) (times : Repeat) (here : Nat) (next : Option NodeId),
    ∀ node ∈ item.nodes times here next, node.Stays (here + item.nodeCount) next item.numbers
  | .byte _, _, _, _, node, hnode | .any, _, _, _, node, hnode | .oneOf _ _, _, _, _, node, hnode
  | .backreference _, _, _, _, node, hnode => by
      rw [Item.nodes, List.mem_singleton] at hnode
      rw [hnode]
      exact Node.stays_of_toList rfl rfl
  | .endAnchor, _, _, _, node, hnode => by
      rw [Item.nodes, List.mem_singleton] at hnode
      rw [hnode]
      exact ⟨nofun, nofun⟩
  | .quantified q inner, _, here, next, node, hnode => by
      rw [Item.nodes] at hnode
      rw [Item.nodeCount, Item.numbers]
      exact Item.nodes_stay inner q.times here next node hnode
  | .group number alternatives, times, here, next, node, hnode => by
      rw [Item.nodes, List.mem_cons, List.mem_cons] at hnode
      rw [Item.nodeCount, Item.numbers]
      rcases hnode with rfl | rfl | hnode
      · refine ⟨fun id hid => ?_, fun slot hslot => Option.some.inj hslot ▸ List.mem_cons_self⟩
        rcases List.mem_cons.mp hid with rfl | hentry
        · exact .inl (by omega)
        · rcases mem_branchEntries hentry with hlt | rfl
          · exact .inl (by omega)
          · exact .inl (by omega)
      · refine ⟨fun id hid => ?_, fun slot hslot => Option.some.inj hslot ▸ List.mem_cons_self⟩
        rcases List.mem_cons.mp hid with rfl | hnext
        · exact .inl (by omega)
        · exact .inr (Option.mem_toList.mp hnext)
      · apply (branchesNodes_stay alternatives (here + 1) (here + 2) node hnode).mono
        · intro id htail
          obtain rfl := Option.some.inj htail
          exact .inl (by omega)
        · omega
        · exact fun slot hslot => List.mem_cons_of_mem _ hslot

theorem itemsNodes_stay : ∀ (items : List Item) (here : Nat) (exit : Option NodeId),
    ∀ node ∈ itemsNodes here exit items,
      node.Stays (here + itemsNodeCount items) exit (itemsNumbers items)
  | [], _, _, _, hnode => by cases hnode
  | item :: rest, here, exit, node, hnode => by
      rw [itemsNodes, continuation_eq_entryOf, List.mem_append] at hnode
      rw [itemsNodeCount, itemsNumbers_cons, ← Nat.add_assoc]
      rcases hnode with hnode | hnode
      · apply (Item.nodes_stay item .once here _ node hnode).mono
        · intro id hid
          cases rest with
          | nil => exact .inr hid
          | cons other others =>
              have hpos := other.nodeCount_pos
              obtain rfl := Option.some.inj hid
              rw [itemsNodeCount]
              exact .inl (by omega)
        · omega
        · exact fun slot hslot => by
            rw [slotsOf_append]
            exact List.mem_append_left _ hslot
      · apply (itemsNodes_stay rest (here + item.nodeCount) exit node hnode).mono
        · exact fun id hid => .inr hid
        · exact Nat.le_refl _
        · exact fun slot hslot => by
            rw [slotsOf_append]
            exact List.mem_append_right _ hslot

theorem branchesNodes_stay : ∀ (branches : List (List Item)) (tail here : Nat),
    ∀ node ∈ branchesNodes tail here branches,
      node.Stays (here + branchesNodeCount branches) (some tail) (branchesNumbers branches)
  | [], _, _, _, hnode => by cases hnode
  | items :: rest, tail, here, node, hnode => by
      rw [branchesNodes, List.mem_append] at hnode
      rw [branchesNodeCount, branchesNumbers_cons, ← Nat.add_assoc]
      rcases hnode with hnode | hnode
      · apply (itemsNodes_stay items here (some tail) node hnode).mono
        · exact fun id hid => .inr hid
        · omega
        · exact fun slot hslot => by
            rw [slotsOf_append]
            exact List.mem_append_left _ hslot
      · apply (branchesNodes_stay rest tail (here + itemsNodeCount items) node hnode).mono
        · exact fun id hid => .inr hid
        · exact Nat.le_refl _
        · exact fun slot hslot => by
            rw [slotsOf_append]
            exact List.mem_append_right _ hslot

end

/-- No node of a pattern's graph names an index that leads nowhere. -/
theorem Pattern.toProgram_ids_lt {p : Pattern} {program : Program}
    (h : p.toProgram = .ok program) :
    ∀ node ∈ program.nodes, ∀ id ∈ node.ids, id < program.nodes.size := by
  have hnodes := (toProgram_eq_ok_iff.mp h).2.1
  intro node hnode id hid
  rw [← Array.mem_toList_iff, hnodes] at hnode
  rw [← Array.length_toList, hnodes, itemsNodes_length]
  rcases (itemsNodes_stay p.items 0 none node hnode).ids id hid with hlt | hexit
  · rwa [Nat.zero_add] at hlt
  · cases hexit

/-- The graph of a pattern is closed if its groups are numbered from 1 up to their number. They
need not be numbered in order, nor differently. -/
theorem Pattern.toProgram_closed {p : Pattern} {program : Program}
    (h : p.toProgram = .ok program)
    (hnumbers : ∀ n ∈ itemsNumbers p.items, 1 ≤ n ∧ n ≤ p.groups) : program.Closed := by
  obtain ⟨_, hnodes, hroot, hslots⟩ := toProgram_eq_ok_iff.mp h
  refine ⟨?_, toProgram_ids_lt h, ?_⟩
  · intro id hid
    rw [hroot] at hid
    rw [← Array.length_toList, hnodes, itemsNodes_length]
    cases hitems : p.items with
    | nil =>
        rw [hitems] at hid
        cases hid
    | cons item rest =>
        rw [hitems] at hid
        obtain rfl := Option.some.inj hid
        rw [itemsNodeCount]
        exact Nat.add_pos_left item.nodeCount_pos _
  · intro node hnode slot hslot
    rw [← Array.mem_toList_iff, hnodes] at hnode
    have hmem := (itemsNodes_stay p.items 0 none node hnode).slot slot hslot
    obtain ⟨n, hn, rfl⟩ := List.mem_map.mp hmem
    obtain ⟨hlow, hhigh⟩ := hnumbers n hn
    rw [hslots, slotOf]
    omega

end ByteRegex
