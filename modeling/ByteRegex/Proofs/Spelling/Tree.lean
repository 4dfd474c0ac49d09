import ByteRegex.Graph.Spelling
import ByteRegex.Proofs.Graph.Placement
import ByteRegex.Proofs.Pattern.Readable

/-!
# The spelling of a tree

A graph is spelled by walking it. The graph of a tree has the shape of the tree,
so its spelling can be told from the tree alone, item by item; `itemsSpell` does
so. That the walk comes to the same is proved from the end of a chain backwards:
a node is spelled before whatever is spelled from the next node on, and the walk
needs as much room as there are nodes before the end.
-/

namespace ByteRegex

mutual

/-- The spelling of an item that may occur `times`. -/
def Item.spell (times : Repeat) : Item → List UInt8
  | .byte b => (ByteClass.literal b).spell ++ times.spell
  | .any => ByteClass.any.spell ++ times.spell
  | .oneOf written negated => (ByteClass.ofWritten written negated).spell ++ times.spell
  | .quantified q inner => inner.spell q.times
  | .group _ alternatives => spellBranches (branchesSpell alternatives) ++ times.spell
  | .backreference number => spellReference (slotOf number)
  | .endAnchor => ['$'.toUInt8]

/-- The spelling of a sequence. -/
def itemsSpell : List Item → List UInt8
  | [] => []
  | item :: rest => item.spell .once ++ itemsSpell rest

/-- The spellings of alternatives. -/
def branchesSpell : List (List Item) → List (List UInt8)
  | [] => []
  | items :: rest => itemsSpell items :: branchesSpell rest

end

/-- The spelling of a whole pattern. -/
def Pattern.spell (p : Pattern) : List UInt8 :=
  (if p.matchStart then ['^'.toUInt8] else []) ++ itemsSpell p.items

@[simp] theorem itemsSpell_nil : itemsSpell [] = [] := rfl

theorem itemsSpell_cons (item : Item) (rest : List Item) :
    itemsSpell (item :: rest) = item.spell .once ++ itemsSpell rest := by
  rw [itemsSpell]

theorem branchesSpell_cons (items : List Item) (rest : List (List Item)) :
    branchesSpell (items :: rest) = itemsSpell items :: branchesSpell rest := by
  rw [branchesSpell]

theorem itemsSpell_append (xs ys : List Item) :
    itemsSpell (xs ++ ys) = itemsSpell xs ++ itemsSpell ys := by
  induction xs with
  | nil => rfl
  | cons item rest ih =>
      rw [List.cons_append, itemsSpell_cons, itemsSpell_cons, ih, List.append_assoc]

/-! ## One node at a time -/

/-- The walk from `here` to `stop` spells `bytes` if it may pass `need` nodes. -/
def Program.Spells (p : Program) (here stop : Option NodeId) (need : Nat) (bytes : List UInt8) :
    Prop :=
  ∀ room, need ≤ room → p.spellFrom? room here stop = some bytes

/-- The walks from the entries of alternatives to their tail spell `branches`. -/
def Program.SpellsAll (p : Program) (entries : List NodeId) (tail : NodeId) (need : Nat)
    (branches : List (List UInt8)) : Prop :=
  ∀ room, need ≤ room →
    entries.mapM (fun entry => p.spellFrom? room (some entry) (some tail)) = some branches

namespace Program

variable {p : Program} {id : NodeId} {next stop : Option NodeId} {need : Nat}
  {bytes : List UInt8}

theorem Spells.mono {more : Nat} (h : p.Spells next stop need bytes) (hneed : need ≤ more) :
    p.Spells next stop more bytes :=
  fun room hroom => h room (Nat.le_trans hneed hroom)

theorem SpellsAll.mono {entries : List NodeId} {tail : NodeId} {more : Nat}
    {branches : List (List UInt8)} (h : p.SpellsAll entries tail need branches)
    (hneed : need ≤ more) : p.SpellsAll entries tail more branches :=
  fun room hroom => h room (Nat.le_trans hneed hroom)

/-- The walk ends at the end of the chain. -/
theorem spells_none (p : Program) (stop : Option NodeId) : p.Spells none stop 0 [] := by
  intro room _
  cases room <;> rfl

/-- The walk ends where it is to stop. -/
theorem spells_stop (p : Program) (id : NodeId) : p.Spells (some id) (some id) 0 [] := by
  intro room _
  cases room <;> simp [spellFrom?]

/-- A walk that may pass a node has room left behind it. -/
theorem spells_of_room
    (h : ∀ room, need ≤ room → p.spellFrom? (room + 1) (some id) stop = some bytes) :
    p.Spells (some id) stop (need + 1) bytes := by
  intro room hroom
  obtain ⟨room, rfl⟩ := Nat.exists_eq_add_of_le' (Nat.le_trans (Nat.le_add_left 1 need) hroom)
  exact h room (Nat.le_of_succ_le_succ hroom)

theorem spells_bytes {accepted : ByteClass} {times : Repeat}
    (hnode : p.nodes[id]? = some (.bytes accepted times next)) (hstop : stop ≠ some id)
    (h : p.Spells next stop need bytes) :
    p.Spells (some id) stop (need + 1) (accepted.spell ++ times.spell ++ bytes) := by
  refine spells_of_room fun room hroom => ?_
  rw [spellFrom?, if_neg hstop]
  simp only [hnode, h room hroom, Option.map_some]

theorem spells_backreference {slot : Nat}
    (hnode : p.nodes[id]? = some (.backreference slot next)) (hstop : stop ≠ some id)
    (h : p.Spells next stop need bytes) :
    p.Spells (some id) stop (need + 1) (spellReference slot ++ bytes) := by
  refine spells_of_room fun room hroom => ?_
  rw [spellFrom?, if_neg hstop]
  simp only [hnode, h room hroom, Option.map_some]

theorem spells_endAnchor (hnode : p.nodes[id]? = some .endAnchor) (hstop : stop ≠ some id) :
    p.Spells (some id) stop 1 ['$'.toUInt8] := by
  refine spells_of_room fun room _ => ?_
  rw [spellFrom?, if_neg hstop]
  simp only [hnode]

theorem spells_group {slot : Nat} {times : Repeat} {entries : List NodeId} {tail : NodeId}
    {branches : List (List UInt8)}
    (hhead : p.nodes[id]? = some (.groupHead slot times entries tail))
    (htail : p.nodes[tail]? = some (.groupTail slot id next)) (hstop : stop ≠ some id)
    (hbranches : p.SpellsAll entries tail need branches) (h : p.Spells next stop need bytes) :
    p.Spells (some id) stop (need + 1) (spellBranches branches ++ times.spell ++ bytes) := by
  refine spells_of_room fun room hroom => ?_
  rw [spellFrom?, if_neg hstop]
  simp only [hhead, hbranches room hroom, afterTail?, htail, h room hroom, Option.bind_some,
    Option.map_some]

theorem spellsAll_nil (p : Program) (tail : NodeId) : p.SpellsAll [] tail 0 [] :=
  fun _ _ => rfl

theorem spellsAll_cons {entries : List NodeId} {tail : NodeId} {branches : List (List UInt8)}
    (h : p.Spells (some id) (some tail) need bytes)
    (hrest : p.SpellsAll entries tail need branches) :
    p.SpellsAll (id :: entries) tail need (bytes :: branches) := by
  intro room hroom
  rw [List.mapM_cons, h room hroom, hrest room hroom]
  rfl

end Program

/-! ## The walk along a tree -/

/-- A walk never stops where it begins if it stops before. -/
theorem stop_ne_start {stop : Option NodeId} {here : NodeId} (h : ∀ id ∈ stop, id < here) :
    stop ≠ some here := by
  rintro rfl
  exact Nat.lt_irrefl here (h here rfl)

section

variable {p : Program}

mutual

theorem Item.spells : ∀ (item : Item) (times : Repeat) (here : NodeId) (next stop : Option NodeId)
    (need : Nat) (bytes : List UInt8), item.Readable →
    p.Places here (item.nodes times here next) → (∀ id ∈ stop, id < here) →
    p.Spells next stop need bytes →
    p.Spells (some here) stop (item.nodeCount + need) (item.spell times ++ bytes)
  | .byte b, times, here, next, stop, need, bytes, _, hplaces, hstop, h => by
      rw [Item.nodes] at hplaces
      rw [Item.spell, Item.nodeCount, Nat.add_comm]
      exact Program.spells_bytes hplaces.head (stop_ne_start hstop) h
  | .any, times, here, next, stop, need, bytes, _, hplaces, hstop, h => by
      rw [Item.nodes] at hplaces
      rw [Item.spell, Item.nodeCount, Nat.add_comm]
      exact Program.spells_bytes hplaces.head (stop_ne_start hstop) h
  | .oneOf written negated, times, here, next, stop, need, bytes, _, hplaces, hstop, h => by
      rw [Item.nodes] at hplaces
      rw [Item.spell, Item.nodeCount, Nat.add_comm]
      exact Program.spells_bytes hplaces.head (stop_ne_start hstop) h
  | .quantified q inner, times, here, next, stop, need, bytes, hread, hplaces, hstop, h => by
      rw [Item.nodes] at hplaces
      rw [Item.Readable] at hread
      rw [Item.spell, Item.nodeCount]
      exact Item.spells inner q.times here next stop need bytes hread.2 hplaces hstop h
  | .group number alternatives, times, here, next, stop, need, bytes, hread, hplaces, hstop, h => by
      rw [Item.Readable] at hread
      have hbranches := branchesNodes_spell alternatives (here + 1) (here + 2) hread.2
        hplaces.group_branches (Nat.lt_succ_self _)
      have hgroup := Program.spells_group hplaces.group_head hplaces.group_tail
        (stop_ne_start hstop) (hbranches.mono (Nat.le_add_right _ need))
        (h.mono (Nat.le_add_left _ _))
      rw [Item.spell, Item.nodeCount]
      exact hgroup.mono (by omega)
  | .backreference number, times, here, next, stop, need, bytes, _, hplaces, hstop, h => by
      rw [Item.nodes] at hplaces
      rw [Item.spell, Item.nodeCount, Nat.add_comm]
      exact Program.spells_backreference hplaces.head (stop_ne_start hstop) h
  | .endAnchor, _, _, _, _, _, _, hread, _, _, _ => hread.elim

theorem itemsNodes_spell : ∀ (items : List Item) (here : NodeId) (exit stop : Option NodeId)
    (need : Nat) (bytes : List UInt8), itemsReadable items →
    p.Places here (itemsNodes here exit items) → (∀ id ∈ stop, id < here) →
    p.Spells exit stop need bytes →
    p.Spells (entryOf items here exit) stop (itemsNodeCount items + need)
      (itemsSpell items ++ bytes)
  | [], here, exit, stop, need, bytes, _, _, _, h => by
      rw [itemsNodeCount, Nat.zero_add]
      exact h
  | item :: rest, here, exit, stop, need, bytes, hread, hplaces, hstop, h => by
      rw [itemsReadable_cons] at hread
      have hlater : ∀ id ∈ stop, id < here + item.nodeCount :=
        fun id hid => Nat.lt_add_right _ (hstop id hid)
      have hrest :=
        itemsNodes_spell rest _ exit stop need bytes hread.2 hplaces.later_items hlater h
      rw [itemsSpell_cons, itemsNodeCount, Nat.add_assoc, List.append_assoc]
      exact Item.spells item .once here _ stop _ _ hread.1 hplaces.first_item hstop hrest

theorem branchesNodes_spell : ∀ (branches : List (List Item)) (tail here : NodeId),
    branchesReadable branches → p.Places here (branchesNodes tail here branches) → tail < here →
    p.SpellsAll (branchEntries tail here branches) tail (branchesNodeCount branches)
      (branchesSpell branches)
  | [], tail, _, _, _, _ => Program.spellsAll_nil p tail
  | items :: rest, tail, here, hread, hplaces, htail => by
      rw [branchesReadable_cons] at hread
      have hfirst := itemsNodes_spell items here (some tail) (some tail) 0 [] hread.1
        hplaces.first_branch (by simpa using htail) (Program.spells_stop p tail)
      have hrest := branchesNodes_spell rest tail _ hread.2 hplaces.later_branches
        (Nat.lt_add_right _ htail)
      rw [entryOf_tail, List.append_nil] at hfirst
      rw [branchEntries, branchesSpell_cons, branchesNodeCount]
      exact Program.spellsAll_cons (hfirst.mono (by omega)) (hrest.mono (by omega))

end

end

/-- The spelling of the graph of a pattern is that of its tree. -/
theorem Pattern.Readable.spell?_eq {pattern : Pattern} (hread : pattern.Readable)
    {program : Program} (hprogram : pattern.toProgram = .ok program) :
    program.spell? = some (itemsSpell pattern.items) := by
  obtain ⟨_, hnodes, hroot, _⟩ := Pattern.toProgram_eq_ok_iff.mp hprogram
  have hsize : program.nodes.size = itemsNodeCount pattern.items := by
    rw [← Array.length_toList, hnodes, itemsNodes_length]
  have hplaces := Pattern.toProgram_places hprogram
  have hstop : ∀ id ∈ (none : Option NodeId), id < 0 := by simp
  unfold Program.spell?
  rw [hroot, hsize]
  obtain ⟨items, hitems, heq | heq⟩ := hread.items
  · rw [heq] at hplaces ⊢
    have hspells := itemsNodes_spell items 0 none none 0 [] hitems hplaces hstop
      (Program.spells_none program none)
    rw [List.append_nil] at hspells
    exact hspells _ (Nat.le_refl _)
  · rw [heq] at hplaces ⊢
    rw [itemsNodes_append] at hplaces
    have hanchor := hplaces.append_right
    rw [itemsNodes_length] at hanchor
    have hspells := itemsNodes_spell items 0 _ none 1 ['$'.toUInt8] hitems hplaces.append_left hstop
      (Program.spells_endAnchor hanchor.head (by simp))
    rw [entryOf_append, itemsSpell_append, itemsNodeCount_append]
    exact hspells _ (Nat.le_refl _)

end ByteRegex
