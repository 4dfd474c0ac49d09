import ByteRegex.Proofs.Graph.Faults

/-!
# Appending nodes first and linking them later

The layout completes every node when it makes it. A graph can also be assembled in two
phases: the nodes of a sequence are appended without successors, and when the sequence is
complete they are linked in a row, those of an alternative also to the tail of the group.
The head of a group is completed when all its alternatives are. What breaks off here is a
step, not a check made beforehand: an item that has no nodes, a slot below the number 0, or a
link from an end anchor.

Nodes are overwritten all the time, by their index, while others stand before and behind
them. That an assembly writes over nothing but what it means to is `Item.append_eq`,
`appendItems_eq` and `linkRow_items`, and from these `Pattern.assemble_eq_toProgram`: both
ways come to the same graph and to the same fault.
-/

namespace ByteRegex

/-! ## Assembly -/

/-- The node with another successor; an end anchor can have none. A head stays as it is, for
it goes on through its tail. -/
def Node.linked? (successor : NodeId) : Node → Option Node
  | .bytes accepted times _ => some (.bytes accepted times (some successor))
  | .backreference slot _ => some (.backreference slot (some successor))
  | .groupHead slot times alternatives tail => some (.groupHead slot times alternatives tail)
  | .groupTail slot head _ => some (.groupTail slot head (some successor))
  | .endAnchor => none

/-- Gives the node `id` a successor. -/
def linkNode (nodes : List Node) (id successor : NodeId) : Except ShapeFault (List Node) :=
  match nodes[id]?.bind (Node.linked? successor) with
  | some node => .ok (nodes.set id node)
  | none => .error (.anchorContinues id successor)

/-- Links each node of a row to the one after it. -/
def linkRow (nodes : List Node) : List NodeId → Except ShapeFault (List Node)
  | id :: successor :: more =>
    (linkNode nodes id successor).bind fun linked => linkRow linked (successor :: more)
  | [_] | [] => .ok nodes

/-- The slot of a group number, if there is one below it. -/
def takeSlot : Nat → Except ShapeFault Nat
  | 0 => .error .numberZero
  | slot + 1 => .ok slot

/-- Appends one node; the row of a single node is its index. -/
def appendNode (nodes : List Node) (node : Node) : Except ShapeFault (List NodeId × List Node) :=
  .ok ([nodes.length], nodes ++ [node])

mutual

/-- Appends the nodes of an item. The result is the row of those that will be linked to what
stands before and behind the item, and all nodes. -/
def Item.append (times : Repeat) (nodes : List Node) :
    Item → Except ShapeFault (List NodeId × List Node)
  | .byte b => appendNode nodes (.bytes (.literal b) times none)
  | .any => appendNode nodes (.bytes .any times none)
  | .oneOf written negated => appendNode nodes (.bytes (.ofWritten written negated) times none)
  | .quantified _ (.quantified _ _) => .error .nestedQuantifier
  | .quantified q inner => inner.append q.times nodes
  | .group number alternatives =>
    (takeSlot number).bind fun slot =>
      let head := nodes.length
      let tail := head + 1
      (appendBranches tail (nodes ++ [.groupHead slot times [] 0, .groupTail slot head none])
          alternatives).bind fun (entries, appended) =>
        .ok ([head, tail], appended.set head (.groupHead slot times entries tail))
  | .backreference number =>
    (takeSlot number).bind fun slot => appendNode nodes (.backreference slot none)
  | .endAnchor => appendNode nodes .endAnchor

/-- Appends the nodes of a sequence; nothing is linked yet. -/
def appendItems (nodes : List Node) : List Item → Except ShapeFault (List NodeId × List Node)
  | [] => .ok ([], nodes)
  | item :: rest =>
    (item.append .once nodes).bind fun (row, appended) =>
      (appendItems appended rest).bind fun (others, all) => .ok (row ++ others, all)

/-- Appends the nodes of alternatives, each linked in a row that ends at `tail`. The result
is the entries of the alternatives, and all nodes. -/
def appendBranches (tail : NodeId) (nodes : List Node) :
    List (List Item) → Except ShapeFault (List NodeId × List Node)
  | [] => .ok ([], nodes)
  | items :: rest =>
    (appendItems nodes items).bind fun (row, appended) =>
      (linkRow appended (row ++ [tail])).bind fun linked =>
        (appendBranches tail linked rest).bind fun (entries, all) =>
          .ok (row.head?.getD tail :: entries, all)

end

/-- The graph of a pattern, assembled from the empty list of nodes. -/
def Pattern.assemble (p : Pattern) : Except ShapeFault Program :=
  (appendItems [] p.items).bind fun (row, appended) =>
    (linkRow appended row).bind fun linked =>
      .ok { nodes := linked.toArray, root := row.head?, slots := p.groups }

/-! ## Results that a fault may prevent -/

/-- A result, unless there is a fault. -/
def unlessFault {α : Type} (fault? : Option ShapeFault) (result : α) : Except ShapeFault α :=
  match fault? with
  | some fault => .error fault
  | none => .ok result

@[simp] theorem unlessFault_none {α : Type} (result : α) :
    unlessFault none result = .ok result := rfl

/-- Of two steps in a row the first one to break off decides on the fault. -/
theorem unlessFault_bind {α β : Type} {first? second? : Option ShapeFault} {a : α} {b : β}
    {next : α → Except ShapeFault β}
    (h : first? = none → next a = unlessFault second? b) :
    (unlessFault first? a).bind next = unlessFault (first?.or second?) b := by
  cases first? with
  | some fault => rfl
  | none => exact h rfl

/-- A step behind which nothing breaks off. -/
theorem unlessFault_bind_ok {α β : Type} {fault? : Option ShapeFault} {a : α} {b : β}
    {next : α → Except ShapeFault β} (h : next a = .ok b) :
    (unlessFault fault? a).bind next = unlessFault fault? b := by
  cases fault? with
  | some fault => rfl
  | none => exact h

/-! ## Appending -/

theorem takeSlot_eq (number : Nat) :
    takeSlot number = unlessFault (numberFault? number) (slotOf number) := by
  cases number <;> rfl

/-- The nodes of an item that are linked to what stands before and behind it. -/
def Item.row (here : NodeId) : Item → List NodeId
  | .group _ _ => [here, here + 1]
  | .quantified _ inner => inner.row here
  | .byte _ | .any | .oneOf _ _ | .backreference _ | .endAnchor => [here]

/-- The nodes of a sequence that are linked in a row. -/
def itemsRow (here : NodeId) : List Item → List NodeId
  | [] => []
  | item :: rest => item.row here ++ itemsRow (here + item.nodeCount) rest

/-- The nodes of a sequence before they are linked. -/
def unlinkedNodes (here : NodeId) : List Item → List Node
  | [] => []
  | item :: rest => item.nodes .once here none ++ unlinkedNodes (here + item.nodeCount) rest

theorem Item.exists_row_eq (here : NodeId) :
    ∀ item : Item, ∃ more, item.row here = here :: more
  | .byte _ | .any | .oneOf _ _ | .backreference _ | .endAnchor => ⟨[], rfl⟩
  | .group _ _ => ⟨[here + 1], rfl⟩
  | .quantified _ inner => by
      rw [Item.row]
      exact Item.exists_row_eq here inner

/-- The row of a sequence begins at its entry. -/
theorem head?_itemsRow (here : NodeId) (items : List Item) :
    (itemsRow here items).head? = entryOf items here none := by
  cases items with
  | nil => rfl
  | cons item rest =>
      obtain ⟨more, hrow⟩ := item.exists_row_eq here
      rw [itemsRow, hrow]
      rfl

/-! ## Linking -/

/-- A link changes the one node that it is for. -/
theorem linkRow_at (pre post : List Node) {node linked : Node} {successor : NodeId}
    (h : node.linked? successor = some linked) (more : List NodeId) :
    linkRow (pre ++ node :: post) (pre.length :: successor :: more) =
      linkRow (pre ++ linked :: post) (successor :: more) := by
  have hlink : linkNode (pre ++ node :: post) pre.length successor =
      .ok (pre ++ linked :: post) := by
    simp [linkNode, h]
  rw [linkRow, hlink]
  rfl

/-- The nodes of an item are linked to its successor, wherever they stand, unless the item ends
its chain. -/
theorem Item.linkRow_row (pre post : List Node) (successor : NodeId) (more : List NodeId) :
    ∀ (item : Item) (times : Repeat), item.shapeFault? pre.length = none →
      linkRow (pre ++ (item.nodes times pre.length none ++ post))
          (item.row pre.length ++ successor :: more) =
        (unlessFault (if item.endsChain then some (.anchorContinues pre.length successor) else none)
          (pre ++ (item.nodes times pre.length (some successor) ++ post))).bind
            fun linked => linkRow linked (successor :: more)
  | .byte _, _, _ | .any, _, _ | .oneOf _ _, _, _ | .backreference _, _, _ =>
      linkRow_at pre post rfl more
  | .endAnchor, times, _ => by
      have hlink : linkNode (pre ++ .endAnchor :: post) pre.length successor =
          .error (.anchorContinues pre.length successor) := by
        simp [linkNode, Node.linked?]
      simp only [Item.nodes, Item.row, List.cons_append, List.nil_append, linkRow, hlink]
      rfl
  | .quantified q inner, _, h => by
      obtain ⟨hinner, hends⟩ := Item.quantified_faultless h
      rw [Item.nodes, Item.nodes, Item.row, hends]
      exact Item.linkRow_row pre post successor more inner q.times hinner
  | .group number alternatives, times, _ => by
      have hlinked : (Node.groupTail (slotOf number) pre.length none).linked? successor =
          some (.groupTail (slotOf number) pre.length (some successor)) := rfl
      -- the link from the head to its tail changes nothing
      have htail := linkRow_at (pre ++ [.groupHead (slotOf number) times
        (branchEntries (pre.length + 1) (pre.length + 2) alternatives) (pre.length + 1)])
        (branchesNodes (pre.length + 1) (pre.length + 2) alternatives ++ post) hlinked more
      simp only [List.append_assoc, List.length_append, List.length_cons, List.length_nil] at htail
      exact (linkRow_at pre _ rfl (successor :: more)).trans htail

/-- The row of a sequence that has an entry begins there. -/
theorem exists_itemsRow_eq {here entry : NodeId} {items : List Item} {exit : Option NodeId}
    (h : entryOf items here exit = some entry) :
    ∃ more, itemsRow here items ++ exit.toList = entry :: more := by
  cases items with
  | nil =>
      cases exit with
      | none => cases h
      | some successor => exact ⟨[], congrArg (fun id => [id]) (Option.some.inj h)⟩
  | cons item rest =>
      obtain ⟨more, hrow⟩ := item.exists_row_eq here
      rw [itemsRow, hrow]
      exact ⟨_, congrArg (· :: _) (Option.some.inj h)⟩

/-- An item at the end of a row is linked to nothing. -/
theorem Item.linkRow_last (pre : List Node) :
    ∀ (item : Item) (times : Repeat),
      linkRow (pre ++ item.nodes times pre.length none) (item.row pre.length) =
        .ok (pre ++ item.nodes times pre.length none)
  | .byte _, _ | .any, _ | .oneOf _ _, _ | .backreference _, _ | .endAnchor, _ => rfl
  | .quantified q inner, _ => by
      rw [Item.nodes, Item.row]
      exact Item.linkRow_last pre inner q.times
  | .group _ _, _ => linkRow_at pre _ rfl []

theorem anchorFault?_cons_of_entry {here successor : NodeId} {exit : Option NodeId} {item : Item}
    {rest : List Item} (h : entryOf rest (here + item.nodeCount) exit = some successor) :
    anchorFault? here exit (item :: rest) =
      (if item.endsChain then some (.anchorContinues here successor) else none).or
        (anchorFault? (here + item.nodeCount) exit rest) := by
  rw [anchorFault?, continuation_eq_entryOf, h]
  cases item.endsChain <;> rfl

/-- A sequence of appended nodes is linked in a row up to its exit. -/
theorem linkRow_items (exit : Option NodeId) :
    ∀ (items : List Item) (pre : List Node), itemsFault? pre.length items = none →
      linkRow (pre ++ unlinkedNodes pre.length items) (itemsRow pre.length items ++ exit.toList) =
        unlessFault (anchorFault? pre.length exit items) (pre ++ itemsNodes pre.length exit items)
  | [], pre, _ => by
      cases exit <;> rfl
  | item :: rest, pre, h => by
      obtain ⟨hitem, hrest⟩ := itemsFault?_cons_eq_none.mp h
      rw [unlinkedNodes, itemsRow, itemsNodes, continuation_eq_entryOf, List.append_assoc]
      cases hentry : entryOf rest (pre.length + item.nodeCount) exit with
      | none =>
          have hnil : rest = [] ∧ exit = none := by
            cases rest with
            | nil => exact ⟨rfl, hentry⟩
            | cons other others => cases hentry
          obtain ⟨rfl, rfl⟩ := hnil
          have hfault : anchorFault? pre.length none [item] = none := by
            rw [anchorFault?, continuation_eq_entryOf, hentry]
            cases item.endsChain <;> rfl
          have hlast := item.linkRow_last pre .once
          rw [hfault]
          simpa [unlinkedNodes, itemsRow, itemsNodes] using hlast
      | some successor =>
          obtain ⟨more, hrow⟩ := exists_itemsRow_eq hentry
          have hlength : (pre ++ item.nodes .once pre.length (some successor)).length =
              pre.length + item.nodeCount := by
            rw [List.length_append, Item.length_nodes]
          have hothers := linkRow_items exit rest
            (pre ++ item.nodes .once pre.length (some successor)) (hlength ▸ hrest)
          rw [hlength, hrow, List.append_assoc, List.append_assoc] at hothers
          rw [hrow, item.linkRow_row pre _ successor more .once hitem,
            anchorFault?_cons_of_entry hentry]
          exact unlessFault_bind fun _ => hothers

/-! ## Both ways agree -/

mutual

/-- Appending an item adds its nodes behind all others, without a successor. -/
theorem Item.append_eq (nodes : List Node) : ∀ (item : Item) (times : Repeat),
    item.append times nodes = unlessFault (item.shapeFault? nodes.length)
      (item.row nodes.length, nodes ++ item.nodes times nodes.length none)
  | .byte _, _ | .any, _ | .oneOf _ _, _ | .endAnchor, _ => rfl
  | .quantified _ (.quantified _ _), _ | .quantified _ (.byte _), _ | .quantified _ .any, _
  | .quantified _ (.oneOf _ _), _ | .quantified _ .endAnchor, _ => rfl
  | .quantified q (.backreference number), _ =>
      Item.append_eq nodes (.backreference number) q.times
  | .quantified q (.group number alternatives), _ =>
      Item.append_eq nodes (.group number alternatives) q.times
  | .backreference number, _ => by
      rw [Item.append, takeSlot_eq]
      exact unlessFault_bind_ok rfl
  | .group number alternatives, times => by
      have hbranches := appendBranches_eq (nodes.length + 1) alternatives
        (nodes ++ [.groupHead (slotOf number) times [] 0,
          .groupTail (slotOf number) nodes.length none])
      rw [List.length_append, List.append_assoc] at hbranches
      rw [Item.append, takeSlot_eq, Item.shapeFault?]
      apply unlessFault_bind
      intro _
      dsimp only
      rw [hbranches]
      apply unlessFault_bind_ok
      simp [Item.row, Item.nodes]

/-- Appending a sequence adds its nodes, none of them linked to another. -/
theorem appendItems_eq : ∀ (items : List Item) (nodes : List Node),
    appendItems nodes items = unlessFault (itemsFault? nodes.length items)
      (itemsRow nodes.length items, nodes ++ unlinkedNodes nodes.length items)
  | [], nodes => by
      simp [appendItems, itemsFault?, itemsRow, unlinkedNodes]
  | item :: rest, nodes => by
      have hrest := appendItems_eq rest (nodes ++ item.nodes .once nodes.length none)
      rw [List.length_append, Item.length_nodes, List.append_assoc] at hrest
      rw [appendItems, Item.append_eq nodes item .once, itemsFault?, itemsRow, unlinkedNodes]
      apply unlessFault_bind
      intro _
      dsimp only
      rw [hrest]
      exact unlessFault_bind_ok rfl

/-- Appending alternatives adds their nodes, linked up to the tail. -/
theorem appendBranches_eq (tail : NodeId) : ∀ (branches : List (List Item)) (nodes : List Node),
    appendBranches tail nodes branches = unlessFault (branchesFault? tail nodes.length branches)
      (branchEntries tail nodes.length branches, nodes ++ branchesNodes tail nodes.length branches)
  | [], nodes => by
      simp [appendBranches, branchesFault?, branchEntries, branchesNodes]
  | items :: rest, nodes => by
      have hrest := appendBranches_eq tail rest (nodes ++ itemsNodes nodes.length (some tail) items)
      rw [List.length_append, itemsNodes_length, List.append_assoc] at hrest
      have hentry : (itemsRow nodes.length items).head?.getD tail =
          if items.isEmpty then tail else nodes.length := by
        rw [head?_itemsRow]
        cases items <;> rfl
      rw [appendBranches, appendItems_eq items nodes, branchesFault?, branchEntries, branchesNodes,
        Option.or_assoc]
      apply unlessFault_bind
      intro hitems
      have hlink := linkRow_items (some tail) items nodes hitems
      dsimp only
      rw [Option.toList_some] at hlink
      rw [hlink]
      apply unlessFault_bind
      intro _
      rw [hrest]
      apply unlessFault_bind_ok
      rw [hentry]

end

/-- Assembling a pattern comes to the same graph as laying it out, or breaks off with the same
fault. -/
theorem Pattern.assemble_eq_toProgram (p : Pattern) : p.assemble = p.toProgram := by
  have hlayout : p.toProgram = unlessFault p.shapeFault? {
      nodes := (itemsNodes 0 none p.items).toArray
      root := entryOf p.items 0 none
      slots := p.groups } := by
    rw [toProgram]
    cases p.shapeFault? <;> rfl
  rw [hlayout, assemble, appendItems_eq, shapeFault?]
  apply unlessFault_bind
  intro hitems
  have hlink := linkRow_items none p.items [] hitems
  rw [Option.toList_none, List.append_nil] at hlink
  dsimp only
  rw [hlink]
  apply unlessFault_bind_ok
  rw [head?_itemsRow]
  rfl

end ByteRegex
