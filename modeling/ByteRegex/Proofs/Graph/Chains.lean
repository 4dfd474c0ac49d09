import ByteRegex.Proofs.Graph.Closed
import ByteRegex.Proofs.Graph.Shape
import ByteRegex.Proofs.Pattern.Readable

/-!
# The chains of a graph

The graph of a pattern falls into chains: one that begins at the root and stands for the items
of the pattern, and one for each alternative of each group, which begins at an entry of the
group's head, stands for the items of the alternative and arrives at the group's tail. A chain
goes from a head to its own tail, past the alternatives. `Program.ShowsItems` reads a tree off
a graph in this way, from the nodes alone, and tells the chains on the way.

That no chain runs through a node twice and no two share one, and that there are no nodes but
those on a chain, is one statement: the chains in a row are a rearrangement of all indices.
-/

namespace ByteRegex

/-! ## Walking along chains -/

/-- Where a chain goes on behind a node: at a head, with its own tail. -/
def Node.after : Node → Option NodeId
  | .bytes _ _ next | .backreference _ next | .groupTail _ _ next => next
  | .groupHead _ _ _ tail => some tail
  | .endAnchor => none

/-- A walk along a chain from `start` on passes the nodes `ids` and arrives at `stop`. -/
inductive Program.Walks (p : Program) : Option NodeId → List NodeId → Option NodeId → Prop
  | arrived (stop : Option NodeId) : Walks p stop [] stop
  | passes {id : NodeId} {node : Node} {ids : List NodeId} {stop : Option NodeId}
      (hnode : p.nodes[id]? = some node) (hrest : Walks p node.after ids stop) :
      Walks p (some id) (id :: ids) stop

/-- The bytes that an item accepts if it stands for one byte. -/
def Item.byteClass? : Item → Option ByteClass
  | .byte b => some (.literal b)
  | .any => some .any
  | .oneOf written negated => some (.ofWritten written negated)
  | .quantified _ _ | .group _ _ | .backreference _ | .endAnchor => none

mutual

/-- The nodes `ids`, which are neighbours on a chain, stand for an item that may occur `times`;
the chains of the alternatives inside it are `inner`. A group has a head with its quantifier
and, right behind it, the tail that belongs to this head. -/
inductive Program.ShowsItem (p : Program) :
    Repeat → Item → List NodeId → List (List NodeId) → Prop
  | bytes {times : Repeat} {item : Item} {accepted : ByteClass} {id : NodeId}
      {next : Option NodeId} (hclass : item.byteClass? = some accepted)
      (hnode : p.nodes[id]? = some (.bytes accepted times next)) :
      ShowsItem p times item [id] []
  | backreference {times : Repeat} {number : Nat} {id : NodeId} {next : Option NodeId}
      (hnode : p.nodes[id]? = some (.backreference (slotOf number) next)) :
      ShowsItem p times (.backreference number) [id] []
  | endAnchor {times : Repeat} {id : NodeId} (hnode : p.nodes[id]? = some .endAnchor) :
      ShowsItem p times .endAnchor [id] []
  | quantified {times : Repeat} {q : Quantifier} {item : Item} {ids : List NodeId}
      {inner : List (List NodeId)} (hitem : ShowsItem p q.times item ids inner) :
      ShowsItem p times (.quantified q item) ids inner
  | group {times : Repeat} {number : Nat} {alternatives : List (List Item)} {head : NodeId}
      {entries : List NodeId} {next : Option NodeId} {inner : List (List NodeId)}
      (hhead : p.nodes[head]? = some (.groupHead (slotOf number) times entries (head + 1)))
      (htail : p.nodes[head + 1]? = some (.groupTail (slotOf number) head next))
      (hbranches : ShowsBranches p (head + 1) alternatives entries inner) :
      ShowsItem p times (.group number alternatives) [head, head + 1] inner

/-- The nodes `ids` stand for the items of a sequence, in their order. -/
inductive Program.ShowsItems (p : Program) :
    List Item → List NodeId → List (List NodeId) → Prop
  | nil : ShowsItems p [] [] []
  | cons {item : Item} {rest : List Item} {ids others : List NodeId}
      {inner more : List (List NodeId)} (hitem : ShowsItem p .once item ids inner)
      (hrest : ShowsItems p rest others more) :
      ShowsItems p (item :: rest) (ids ++ others) (inner ++ more)

/-- There is one entry for each alternative, and the chain that begins there stands for the
alternative and arrives at `tail`. -/
inductive Program.ShowsBranches (p : Program) :
    NodeId → List (List Item) → List NodeId → List (List NodeId) → Prop
  | nil {tail : NodeId} : ShowsBranches p tail [] [] []
  | cons {tail entry : NodeId} {items : List Item} {rest : List (List Item)}
      {chain entries : List NodeId} {inner others : List (List NodeId)}
      (hitems : ShowsItems p items chain inner) (hwalk : p.Walks (some entry) chain (some tail))
      (hrest : ShowsBranches p tail rest entries others) :
      ShowsBranches p tail (items :: rest) (entry :: entries) (chain :: (inner ++ others))

end

/-! ## The chains of a tree -/

/-- Chains whose nodes are those from `here` on, `count` in number, each once. -/
def Fills (chains : List (List NodeId)) (here count : Nat) : Prop :=
  chains.flatten.Perm (List.range' here count)

section

variable {chain other : List NodeId} {inner more : List (List NodeId)} {here m n : Nat}

/-- A chain and its continuation, each with the chains inside it. -/
theorem Fills.append_chain (h : Fills (chain :: inner) here m)
    (g : Fills (other :: more) (here + m) n) :
    Fills ((chain ++ other) :: (inner ++ more)) here (m + n) := by
  have hboth := h.append g
  rw [List.range'_append_1] at hboth
  refine List.Perm.trans ?_ hboth
  simp only [List.flatten_cons, List.flatten_append, List.append_assoc]
  exact (List.perm_append_comm_assoc other inner.flatten more.flatten).append_left chain

theorem Fills.append (h : Fills inner here m) (g : Fills more (here + m) n) :
    Fills (inner ++ more) here (m + n) := by
  have hboth := List.Perm.append h g
  rwa [← List.flatten_append, List.range'_append_1] at hboth

end

section

variable {p : Program}

mutual

/-- The nodes of an item are passed on the way from its first one to where it continues. -/
theorem Item.nodes_show : ∀ (item : Item) (times : Repeat) (here : NodeId) (next : Option NodeId),
    p.Places here (item.nodes times here next) → item.shapeFault? here = none →
    (item.endsChain = true → next = none) →
    ∃ ids inner, p.ShowsItem times item ids inner ∧ Fills (ids :: inner) here item.nodeCount ∧
      ∀ others stop, p.Walks next others stop → p.Walks (some here) (ids ++ others) stop
  | .byte b, times, here, next, hplaces, _, _ => by
      rw [Item.nodes] at hplaces
      exact ⟨[here], [], .bytes rfl hplaces.head, .refl _, fun _ _ => .passes hplaces.head⟩
  | .any, times, here, next, hplaces, _, _ => by
      rw [Item.nodes] at hplaces
      exact ⟨[here], [], .bytes rfl hplaces.head, .refl _, fun _ _ => .passes hplaces.head⟩
  | .oneOf _ _, times, here, next, hplaces, _, _ => by
      rw [Item.nodes] at hplaces
      exact ⟨[here], [], .bytes rfl hplaces.head, .refl _, fun _ _ => .passes hplaces.head⟩
  | .backreference number, times, here, next, hplaces, _, _ => by
      rw [Item.nodes] at hplaces
      exact ⟨[here], [], .backreference hplaces.head, .refl _, fun _ _ => .passes hplaces.head⟩
  | .endAnchor, times, here, next, hplaces, _, hends => by
      rw [Item.nodes] at hplaces
      rw [hends rfl]
      exact ⟨[here], [], .endAnchor hplaces.head, .refl _, fun _ _ => .passes hplaces.head⟩
  | .quantified q inner, times, here, next, hplaces, hfault, hends => by
      obtain ⟨hinner, hchain⟩ := Item.quantified_faultless hfault
      rw [Item.nodes] at hplaces
      rw [hchain] at hends
      obtain ⟨ids, chains, hshows, hfills, hwalk⟩ :=
        Item.nodes_show inner q.times here next hplaces hinner hends
      exact ⟨ids, chains, .quantified hshows, by rwa [Item.nodeCount], hwalk⟩
  | .group number alternatives, times, here, next, hplaces, hfault, _ => by
      rw [Item.shapeFault?_group_eq_none] at hfault
      obtain ⟨inner, hbranches, hfills⟩ := branchesNodes_show alternatives (here + 1) (here + 2)
        hplaces.group_branches hfault.2
      refine ⟨[here, here + 1], inner, .group hplaces.group_head hplaces.group_tail hbranches, ?_,
        fun others stop h => .passes hplaces.group_head (.passes hplaces.group_tail h)⟩
      rw [Item.nodeCount]
      have hown : Fills [[here, here + 1]] here 2 := .refl _
      exact hown.append hfills

/-- The nodes of a sequence are passed on the way from its entry to its exit. -/
theorem itemsNodes_show : ∀ (items : List Item) (here : NodeId) (exit : Option NodeId),
    p.Places here (itemsNodes here exit items) → itemsFault? here items = none →
    anchorFault? here exit items = none →
    ∃ chain inner, p.ShowsItems items chain inner ∧
      Fills (chain :: inner) here (itemsNodeCount items) ∧
      p.Walks (entryOf items here exit) chain exit
  | [], here, exit, _, _, _ => ⟨[], [], .nil, .refl _, .arrived exit⟩
  | item :: rest, here, exit, hplaces, hfaults, hanchors => by
      obtain ⟨hfault, hfaults⟩ := itemsFault?_cons_eq_none.mp hfaults
      obtain ⟨hends, hanchors⟩ := anchorFault?_cons_eq_none.mp hanchors
      obtain ⟨others, more, hrest, hrestFills, hrestWalk⟩ :=
        itemsNodes_show rest (here + item.nodeCount) exit hplaces.later_items hfaults hanchors
      obtain ⟨ids, inner, hitem, hitemFills, hwalk⟩ :=
        Item.nodes_show item .once here _ hplaces.first_item hfault hends
      exact ⟨ids ++ others, inner ++ more, .cons hitem hrest, hitemFills.append_chain hrestFills,
        hwalk others exit hrestWalk⟩

/-- The nodes of alternatives are passed on the ways from their entries to the tail. -/
theorem branchesNodes_show : ∀ (branches : List (List Item)) (tail here : NodeId),
    p.Places here (branchesNodes tail here branches) → branchesFault? tail here branches = none →
    ∃ chains, p.ShowsBranches tail branches (branchEntries tail here branches) chains ∧
      Fills chains here (branchesNodeCount branches)
  | [], tail, here, _, _ => ⟨[], .nil, .refl _⟩
  | items :: rest, tail, here, hplaces, hfaults => by
      obtain ⟨⟨hitems, hanchors⟩, hrest⟩ := branchesFault?_cons_eq_none.mp hfaults
      obtain ⟨chain, inner, hshows, hfills, hwalk⟩ :=
        itemsNodes_show items here (some tail) hplaces.first_branch hitems hanchors
      obtain ⟨others, hbranches, hothers⟩ := branchesNodes_show rest tail
        (here + itemsNodeCount items) hplaces.later_branches hrest
      rw [entryOf_tail] at hwalk
      exact ⟨chain :: (inner ++ others), .cons hshows hwalk hbranches, hfills.append hothers⟩

end

end

/-! ## Counting nodes -/

/-- An item that takes one node. -/
def Item.isAtom : Item → Bool
  | .byte _ | .any | .oneOf _ _ | .backreference _ | .endAnchor => true
  | .quantified _ _ | .group _ _ => false

def Item.isGroup : Item → Bool
  | .group _ _ => true
  | _ => false

/-- The nodes that some items take, not counting what is inside them. -/
def ownNodeCount (items : List Item) : Nat :=
  items.countP Item.isAtom + 2 * items.countP Item.isGroup

theorem ownNodeCount_append (xs ys : List Item) :
    ownNodeCount (xs ++ ys) = ownNodeCount xs + ownNodeCount ys := by
  unfold ownNodeCount
  rw [List.countP_append, List.countP_append]
  omega

mutual

theorem Item.nodeCount_eq : ∀ item : Item, item.nodeCount = ownNodeCount (item :: item.inside)
  | .byte _ | .any | .oneOf _ _ | .backreference _ | .endAnchor => rfl
  | .quantified q inner => by
      rw [Item.nodeCount, Item.nodeCount_eq inner, Item.inside]
      exact (Nat.zero_add _).symm.trans
        (ownNodeCount_append [.quantified q inner] (inner :: inner.inside)).symm
  | .group number alternatives => by
      rw [Item.nodeCount, branchesNodeCount_eq alternatives, Item.inside]
      exact (ownNodeCount_append [.group number alternatives] (branchesParts alternatives)).symm

theorem itemsNodeCount_eq : ∀ items : List Item,
    itemsNodeCount items = ownNodeCount (itemsParts items)
  | [] => rfl
  | item :: rest => by
      rw [itemsNodeCount, Item.nodeCount_eq item, itemsNodeCount_eq rest, itemsParts,
        ← ownNodeCount_append, List.cons_append]

theorem branchesNodeCount_eq : ∀ branches : List (List Item),
    branchesNodeCount branches = ownNodeCount (branchesParts branches)
  | [] => rfl
  | items :: rest => by
      rw [branchesNodeCount, itemsNodeCount_eq items, branchesNodeCount_eq rest, branchesParts,
        ownNodeCount_append]

end

/-! ## The slots of the heads -/

/-- The slot of a group at its head. -/
def Node.headSlot? : Node → Option Nat
  | .groupHead slot _ _ _ => some slot
  | .bytes _ _ _ | .backreference _ _ | .groupTail _ _ _ | .endAnchor => none

mutual

/-- The heads stand in the order in which the groups open. -/
theorem Item.nodes_headSlots : ∀ (item : Item) (times : Repeat) (here : NodeId)
    (next : Option NodeId),
    (item.nodes times here next).filterMap Node.headSlot? = slotsOf item.numbers
  | .byte _, _, _, _ | .any, _, _, _ | .oneOf _ _, _, _, _ | .backreference _, _, _, _
  | .endAnchor, _, _, _ => rfl
  | .quantified q inner, _, here, next => by
      rw [Item.nodes, Item.numbers]
      exact Item.nodes_headSlots inner q.times here next
  | .group number alternatives, _, here, _ => by
      rw [Item.nodes, Item.numbers, slotsOf_cons,
        ← branchesNodes_headSlots alternatives (here + 1) (here + 2)]
      rfl

theorem itemsNodes_headSlots : ∀ (items : List Item) (here : NodeId) (exit : Option NodeId),
    (itemsNodes here exit items).filterMap Node.headSlot? = slotsOf (itemsNumbers items)
  | [], _, _ => rfl
  | item :: rest, here, exit => by
      rw [itemsNodes, List.filterMap_append, Item.nodes_headSlots item, itemsNodes_headSlots rest,
        itemsNumbers_cons, slotsOf_append]

theorem branchesNodes_headSlots : ∀ (branches : List (List Item)) (tail here : NodeId),
    (branchesNodes tail here branches).filterMap Node.headSlot? = slotsOf (branchesNumbers branches)
  | [], _, _ => rfl
  | items :: rest, tail, here => by
      rw [branchesNodes, List.filterMap_append, itemsNodes_headSlots items,
        branchesNodes_headSlots rest, branchesNumbers_cons, slotsOf_append]

end

/-! ## Whole graphs -/

/-- The graph of a pattern, which can be assembled step by step, has one node for each item that
is neither a quantifier nor a group and two for each group. The root is the first node, if there
are items, and no node names an index that leads nowhere. The chain from the root stands for
the items of the pattern and ends with nothing behind it; the chain of each alternative, as
`Program.ShowsBranches` says, stands for its items and arrives at the tail of its group; and
every node is on one of these chains, once. The heads have the slots of the groups in the order
in which these open, and if the pattern is read from a text these are all slots in their
order. A pattern with the number 0 has no graph, so every slot is one below its number. -/
theorem toProgram_falls_into_chains (p : Pattern) (program : Program)
    (h : p.toProgram = .ok program) :
    p.assemble = .ok program ∧
      program.nodes.size = (itemsParts p.items).countP Item.isAtom +
        2 * (itemsParts p.items).countP Item.isGroup ∧
      program.root = (if p.items = [] then none else some 0) ∧
      (∀ node ∈ program.nodes, ∀ id ∈ node.ids, id < program.nodes.size) ∧
      (∃ chain inner, program.ShowsItems p.items chain inner ∧
        program.Walks program.root chain none ∧
        (chain :: inner).flatten.Perm (List.range program.nodes.size)) ∧
      program.nodes.toList.filterMap Node.headSlot? = slotsOf (itemsNumbers p.items) ∧
      ∀ text, Pattern.ofString text = .ok p →
        program.nodes.toList.filterMap Node.headSlot? = List.range p.groups := by
  obtain ⟨hfault, hnodes, hroot, _⟩ := Pattern.toProgram_eq_ok_iff.mp h
  obtain ⟨hitems, hanchors⟩ := Pattern.shapeFault?_eq_none.mp hfault
  have hsize : program.nodes.size = itemsNodeCount p.items := by
    rw [← Array.length_toList, hnodes, itemsNodes_length]
  have hheads : program.nodes.toList.filterMap Node.headSlot? = slotsOf (itemsNumbers p.items) := by
    rw [hnodes, itemsNodes_headSlots]
  obtain ⟨chain, inner, hshows, hfills, hwalk⟩ :=
    itemsNodes_show p.items 0 none (Pattern.toProgram_places h) hitems hanchors
  refine ⟨p.assemble_eq_toProgram.trans h, hsize.trans (itemsNodeCount_eq p.items), ?_,
    Pattern.toProgram_ids_lt h, ⟨chain, inner, hshows, hroot ▸ hwalk, ?_⟩, hheads, ?_⟩
  · rw [hroot]
    cases p.items <;> rfl
  · rw [hsize, List.range_eq_range']
    exact hfills
  · intro text htext
    rw [hheads, (Pattern.readable_of_ofBytes htext).numbers, slotsOf_range']

/-- A group in a repeated group. The first alternative of the inner one is empty, so its chain
has no nodes and its entry is the tail. -/
theorem toProgram_falls_into_chains_nested :
    ∃ p program, Pattern.ofString "((|a)*b)+c$" = .ok p ∧ p.toProgram = .ok program ∧
      p.assemble = .ok program ∧ program.nodes.size = 4 + 2 * 2 ∧ program.root = some 0 ∧
      (∀ node ∈ program.nodes, ∀ id ∈ node.ids, id < program.nodes.size) ∧
      (∃ chain inner, program.ShowsItems p.items chain inner ∧ program.Walks (some 0) chain none ∧
        (chain :: inner).flatten.Perm (List.range program.nodes.size)) ∧
      program.nodes.toList.filterMap Node.headSlot? = [0, 1] := by
  let p : Pattern := ⟨false, [.quantified .plus (.group 1 [[.quantified .star
    (.group 2 [[], [.byte 97]]), .byte 98]]), .byte 99, .endAnchor], 2⟩
  have hread : Pattern.ofString "((|a)*b)+c$" = .ok p := (Pattern.ofString_eq _).trans rfl
  have hprogram : p.toProgram = .ok {
      nodes := #[.groupHead 0 .plus [2] 1, .groupTail 0 0 (some 6), .groupHead 1 .star [3, 4] 3,
        .groupTail 1 2 (some 5), .bytes (.literal 97) .once (some 3),
        .bytes (.literal 98) .once (some 1), .bytes (.literal 99) .once (some 7), .endAnchor]
      root := some 0
      slots := 2 } := rfl
  obtain ⟨hassemble, hsize, hroot, hids, hchains, _, hslots⟩ :=
    toProgram_falls_into_chains p _ hprogram
  exact ⟨p, _, hread, hprogram, hassemble, hsize, hroot, hids, hchains, hslots _ hread⟩

end ByteRegex
