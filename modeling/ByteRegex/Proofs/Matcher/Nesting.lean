import ByteRegex.Proofs.Matcher.FirstWay
import ByteRegex.Proofs.Matcher.Paths
import ByteRegex.Proofs.Pattern.Loops

/-!
# How deep a walk nests

A walk gives up a path only if it runs out of room, so it gives up none if there is room for the
longest path. `Matcher.NeedsAtMost m id f base rate` says that from `id` on, in every state that the
frame admits, room for `base` nodes and for `rate` more for each byte that is left is enough. What a
part of the pattern adds to the base is the number of its nodes: without a loop, a path comes to each
of them once at most, however long the text is.

The tail of a loop goes back. It does so behind an iteration that has taken a byte, and this byte
pays for the alternatives and the tail of the next one: that is the rate of the loop. An iteration
without a byte is the last, so it is paid for once. The start of the group, which the frame knows,
is what tells the two apart.
-/

namespace ByteRegex

/-- When the evaluation ends, no path has been given up. -/
def Outcome.Unmarked (o : Outcome) : Prop :=
  o.state.deep = false

/-- From `id` on no path is given up in any state that the frame admits, if there is room for `base`
nodes and for `rate` more for each byte that is left. -/
def Matcher.NeedsAtMost (m : Matcher) (id : Option NodeId) (f : Frame) (base rate : Nat) : Prop :=
  ∀ room pos s, f.Admits m pos s → s.deep = false → base + rate * (m.text.size - pos) ≤ room →
    (m.visit room id pos s).Unmarked

namespace Matcher.NeedsAtMost

variable {m : Matcher} {id : Option NodeId} {f : Frame} {base rate : Nat}

/-- More nodes are enough as well. -/
theorem mono (h : m.NeedsAtMost id f base rate) {more : Nat} (hbase : base ≤ more) :
    m.NeedsAtMost id f more rate :=
  fun room pos s hs hdeep hroom => h room pos s hs hdeep (by omega)

/-- A node needs room for itself and for wherever it may go on. -/
theorem of_step {here : NodeId} {node : Node} (hnode : m.program.nodes[here]? = some node)
    (h : ∀ r pos s, f.Admits m pos s → base + rate * (m.text.size - pos) ≤ r →
      ∀ id stop t, m.GoesOn node pos s id stop t → t.deep = false →
        (m.visit r id stop t).Unmarked) :
    m.NeedsAtMost (some here) f (1 + base) rate := by
  intro room pos s hs hdeep hroom
  obtain ⟨r, rfl⟩ := Nat.exists_eq_add_of_le' (show 1 ≤ room by omega)
  rw [visit_succ]
  have hgo := h r pos s hs (by omega)
  exact (step_same (Q := (· = false)) (visit_restores m r) hdeep hnode
    fun id stop t ht hmark => ⟨rfl, hgo id stop t ht hmark⟩).2

theorem endOfChain (m : Matcher) (f : Frame) (rate : Nat) : m.NeedsAtMost none f 0 rate := by
  intro room pos s _ hdeep _
  rw [visit_none]
  exact hdeep

/-- Less room is enough further on in the text, so a node that goes on with what follows and leaves
the tables needs room for itself and for what follows. -/
theorem of_next {here : NodeId} {node : Node} {next : Option NodeId}
    (hnode : m.program.nodes[here]? = some node) (hnext : m.NeedsAtMost next f base rate)
    (hgo : ∀ pos s id stop t, m.GoesOn node pos s id stop t → id = next ∧ s.SameTables t) :
    m.NeedsAtMost (some here) f (1 + base) rate := by
  refine .of_step hnode fun r pos s hs hroom id stop t ht hmark => ?_
  obtain ⟨rfl, htables⟩ := hgo pos s id stop t ht
  have hpos := ht.pos_le
  have hsize := ht.le_size hs.le_size
  refine hnext r stop t ((hs.of_sameTables htables).later hpos hsize) hmark (Nat.le_trans ?_ hroom)
  exact Nat.add_le_add_left (Nat.mul_le_mul_left rate (by omega)) base

end Matcher.NeedsAtMost

/-! ## Groups -/

/-- The alternatives of a group that begin at `entries` need `count` nodes more than the tail that
they meet at, and no rate above `rate`. -/
def Matcher.EntriesNeed (m : Matcher) (entries : List NodeId) (tail : NodeId) (numbers : List Nat)
    (count rate : Nat) : Prop :=
  ∀ f base, f.Covers m numbers → m.NeedsAtMost (some tail) f base rate →
    ∀ entry ∈ entries, m.NeedsAtMost (some entry) f (count + base) rate

section

variable {m : Matcher} {f : Frame} {times : Repeat} {number : Nat} {numbers : List Nat}
  {entries : List NodeId} {head tail : NodeId} {next : Option NodeId} {base count inner extra : Nat}

/-- Beginning an iteration needs what the alternatives need, if it is known what the tail needs. -/
theorem iteration_unmarked {tailBase r pos : Nat} {s t : State} {entry : NodeId}
    (hcovers : f.Covers m (number :: numbers))
    (hentries : m.EntriesNeed entries tail numbers count inner)
    (htail : m.NeedsAtMost (some tail) (s.inside (slotOf number) pos (slotsOf numbers)) tailBase inner)
    (hs : f.Admits m pos s) (hroom : count + tailBase + inner * (m.text.size - pos) ≤ r)
    (hentry : entry ∈ entries) (ht : (s.setStart (slotOf number) pos).SameTables t)
    (hmark : t.deep = false) : (m.visit r (some entry) pos t).Unmarked :=
  hentries _ tailBase (hcovers.inside s pos) htail entry hentry r pos t
    (hs.beginIteration ht (slotsOf numbers)) hmark hroom

/-- One more iteration is paid for by the bytes of the last one, at least one of them. -/
theorem iteration_room {size start pos r : Nat} (hstart : start < pos) (hpos : pos ≤ size)
    (hextra : count + 1 ≤ extra)
    (hroom : base + extra * (size - start) + inner * (size - pos) ≤ r) :
    count + (1 + (base + extra * (size - pos))) + inner * (size - pos) ≤ r := by
  have hsplit : size - start = (size - pos) + (pos - start) := by omega
  have hpaid : extra ≤ extra * (pos - start) := Nat.le_mul_of_pos_right extra (by omega)
  rw [hsplit, Nat.mul_add] at hroom
  omega

/-- The tail of a group needs, behind an iteration that began at `start`, room for what follows and
for one more iteration for each byte from there on. The induction is on these bytes. -/
theorem groupTail_needsAtMost (hcovers : f.Covers m (number :: numbers))
    (hentries : m.EntriesNeed entries tail numbers count inner)
    (hhead : m.program.nodes[head]? = some (.groupHead (slotOf number) times entries tail))
    (htail : m.program.nodes[tail]? = some (.groupTail (slotOf number) head next))
    (hextra : times.isUnbounded = true → count + 1 ≤ extra)
    (hnext : m.NeedsAtMost next f base (inner + extra)) {start : Nat} {u : State}
    (hu : f.Admits m start u) :
    m.NeedsAtMost (some tail) (u.inside (slotOf number) start (slotsOf numbers))
      (1 + (base + extra * (m.text.size - start))) inner := by
  refine .of_step htail fun r pos s hs hroom id stop t ht hmark => ?_
  have hset := hs.afterIteration hu hcovers
  have hstart := hs.start_of_inside hu.fits hcovers.head_inRange hcovers.head_notMem
  cases ht with
  | again hread hnode hagain hentry htables =>
      cases hstart.symm.trans hread
      cases hhead.symm.trans hnode
      obtain ⟨hrepeat, hlater, rfl⟩ := Matcher.againAt_eq_some.mp hagain
      have hless := groupTail_needsAtMost hcovers hentries hhead htail hextra hnext hset
      exact iteration_unmarked hcovers hentries hless hset
        (iteration_room hlater hs.le_size (hextra hrepeat) hroom) hentry htables hmark
  | leave hread htables =>
      cases hstart.symm.trans hread
      refine hnext r pos t (hset.of_sameTables htables) hmark ?_
      have hbehind : extra * (m.text.size - pos) ≤ extra * (m.text.size - start) :=
        Nat.mul_le_mul_left extra (Nat.sub_le_sub_left hs.low_le _)
      rw [Nat.add_mul]
      omega
termination_by m.text.size - start
decreasing_by
  have := hs.le_size
  omega

theorem groupHead_needsAtMost (hcovers : f.Covers m (number :: numbers))
    (hentries : m.EntriesNeed entries tail numbers count inner)
    (hhead : m.program.nodes[head]? = some (.groupHead (slotOf number) times entries tail))
    (htail : m.program.nodes[tail]? = some (.groupTail (slotOf number) head next))
    (hextra : times.isUnbounded = true → count + 1 ≤ extra)
    (hnext : m.NeedsAtMost next f base (inner + extra)) :
    m.NeedsAtMost (some head) f (2 + count + base) (inner + extra) := by
  have hbase : 2 + count + base = 1 + (count + 1 + base) := by omega
  rw [hbase]
  refine .of_step hhead fun r pos s hs hroom id stop t ht hmark => ?_
  cases ht with
  | enter hentry htables =>
      have hiterate := groupTail_needsAtMost hcovers hentries hhead htail hextra hnext hs
      rw [Nat.add_mul] at hroom
      exact iteration_unmarked hcovers hentries hiterate hs (by omega) hentry htables hmark
  | skip _ hnode htables =>
      cases htail.symm.trans hnode
      exact hnext r pos t (hs.of_sameTables htables) hmark (by omega)

end

/-! ## Trees -/

mutual

/-- The nodes of an item need room for each of them once and for its rate, besides what they
continue with. -/
theorem Item.nodes_needAtMost {m : Matcher} {f : Frame} {base rate : Nat} :
    ∀ (item : Item) (times : Repeat) (here : NodeId) (next : Option NodeId),
      m.program.Places here (item.nodes times here next) → item.rate times ≤ rate →
      f.Covers m item.numbers → m.NeedsAtMost next f base rate →
        m.NeedsAtMost (some here) f (item.nodeCount + base) rate
  | .byte b, times, here, next, hplaces, _, _, hnext => by
      rw [Item.nodes] at hplaces
      exact .of_next hplaces.head hnext fun _ _ _ _ _ => Matcher.GoesOn.of_bytes
  | .any, times, here, next, hplaces, _, _, hnext => by
      rw [Item.nodes] at hplaces
      exact .of_next hplaces.head hnext fun _ _ _ _ _ => Matcher.GoesOn.of_bytes
  | .oneOf written negated, times, here, next, hplaces, _, _, hnext => by
      rw [Item.nodes] at hplaces
      exact .of_next hplaces.head hnext fun _ _ _ _ _ => Matcher.GoesOn.of_bytes
  | .backreference number, times, here, next, hplaces, _, _, hnext => by
      rw [Item.nodes] at hplaces
      exact .of_next hplaces.head hnext fun _ _ _ _ _ => Matcher.GoesOn.of_backreference
  | .endAnchor, times, here, next, hplaces, _, _, hnext => by
      rw [Item.nodes] at hplaces
      exact .of_next hplaces.head hnext fun _ _ _ _ _ ht => nomatch ht
  | .quantified q inner, times, here, next, hplaces, hrate, hcovers, hnext => by
      rw [Item.nodes] at hplaces
      rw [Item.rate] at hrate
      rw [Item.numbers] at hcovers
      rw [Item.nodeCount]
      exact Item.nodes_needAtMost inner q.times here next hplaces hrate hcovers hnext
  | .group number alternatives, times, here, next, hplaces, hrate, hcovers, hnext => by
      rw [Item.rate] at hrate
      rw [Item.numbers] at hcovers
      rw [Item.nodeCount]
      -- the rate is split into what the alternatives need and what is left for the loop
      obtain ⟨extra, rfl⟩ := Nat.exists_eq_add_of_le (Nat.le_of_add_right_le hrate)
      have hextra : times.isUnbounded = true → branchesNodeCount alternatives + 1 ≤ extra := by
        intro hrepeat
        rw [if_pos hrepeat] at hrate
        omega
      exact groupHead_needsAtMost hcovers
        (branchesNodes_need alternatives (here + 1) (here + 2) hplaces.group_branches
          (Nat.le_refl _))
        hplaces.group_head hplaces.group_tail hextra hnext

theorem itemsNodes_needAtMost {m : Matcher} {f : Frame} {base rate : Nat} :
    ∀ (items : List Item) (here : NodeId) (exit : Option NodeId),
      m.program.Places here (itemsNodes here exit items) → itemsRate items ≤ rate →
      f.Covers m (itemsNumbers items) → m.NeedsAtMost exit f base rate →
        m.NeedsAtMost (entryOf items here exit) f (itemsNodeCount items + base) rate
  | [], here, exit, _, _, _, hexit => by
      rwa [entryOf_nil, itemsNodeCount, Nat.zero_add]
  | item :: rest, here, exit, hplaces, hrate, hcovers, hexit => by
      rw [itemsRate, Nat.max_le] at hrate
      rw [itemsNumbers_cons] at hcovers
      have hrest := itemsNodes_needAtMost rest (here + item.nodeCount) exit hplaces.later_items
        hrate.2 hcovers.right hexit
      rw [entryOf_cons, itemsNodeCount, Nat.add_assoc]
      exact Item.nodes_needAtMost item .once here _ hplaces.first_item hrate.1 hcovers.left hrest

theorem branchesNodes_need {m : Matcher} {rate : Nat} : ∀ (branches : List (List Item))
      (tail here : NodeId), m.program.Places here (branchesNodes tail here branches) →
      branchesRate branches ≤ rate →
        m.EntriesNeed (branchEntries tail here branches) tail (branchesNumbers branches)
          (branchesNodeCount branches) rate
  | [], tail, here, _, _ => fun _ _ _ _ _ hentry => nomatch hentry
  | items :: rest, tail, here, hplaces, hrate => by
      rw [branchesRate, Nat.max_le] at hrate
      intro f base hcovers htail
      rw [branchesNumbers_cons] at hcovers
      rw [branchEntries, branchesNodeCount, List.forall_mem_cons]
      have hfirst := itemsNodes_needAtMost items here (some tail) hplaces.first_branch hrate.1
        hcovers.left htail
      rw [entryOf_tail] at hfirst
      refine ⟨hfirst.mono (by omega), fun entry hentry => ?_⟩
      have hothers := branchesNodes_need rest tail (here + itemsNodeCount items)
        hplaces.later_branches hrate.2 f base hcovers.right htail entry hentry
      exact hothers.mono (by omega)

end

/-! ## Attempts -/

/-- The graph of a pattern has a node for each one that its items take. -/
theorem Pattern.size_toProgram {p : Pattern} {program : Program}
    (h : p.toProgram = .ok program) : program.nodes.size = itemsNodeCount p.items := by
  have hnodes := (Pattern.toProgram_eq_ok_iff.mp h).2.1
  rw [← Array.length_toList, hnodes, itemsNodes_length]

/-- An attempt over the graph of a readable pattern gives up no path if there is room for all nodes
once and for the rate of the pattern. -/
theorem Pattern.Readable.attempt_unmarked {p : Pattern} (hread : p.Readable) {m : Matcher}
    (hprogram : p.toProgram = .ok m.program) {limit pos : Nat} (hpos : pos ≤ m.text.size)
    {s : State} (hs : s.HasSlots p.groups)
    (hroom : m.program.nodes.size + itemsRate p.items * (m.text.size - pos) ≤ limit) :
    (m.attempt limit pos s).Unmarked := by
  obtain ⟨_, _, hroot, hslots⟩ := Pattern.toProgram_eq_ok_iff.mp hprogram
  have hneeds := itemsNodes_needAtMost p.items 0 none (Pattern.toProgram_places hprogram)
    (Nat.le_refl _) (hread.covers hslots pos s.reset.starts)
    (Matcher.NeedsAtMost.endOfChain m _ _)
  rw [Pattern.size_toProgram hprogram] at hroom
  rw [Matcher.attempt, hroot]
  exact hneeds limit pos s.reset (State.reset_admits hs hslots hpos) rfl hroom

/-- A text that is a pattern without a group under `*` or `+` compiles to a graph on which an
attempt never gives up a path, however long the text is that it is matched with, if the limit is no
less than the number of nodes. Bytes may be repeated, groups may be optional and stand in each
other, and there may be backreferences.

`Matcher.matchAt` is the attempt with the limit `maxDepth`. -/
theorem loop_free_attempt_gives_up_nothing (text : String) (p : Pattern)
    (h : Pattern.ofString text = .ok p) (hloops : ∀ part ∈ itemsParts p.items, ¬ part.IsLoop) :
    ∃ program, p.toProgram = .ok program ∧
      ∀ (m : Matcher) (limit pos : Nat) (s : State), m.program = program →
        program.nodes.size ≤ limit → pos ≤ m.text.size → s.HasSlots p.groups →
          (m.attempt limit pos s).state.deep = false := by
  obtain ⟨program, hprogram⟩ := Pattern.exists_toProgram_of_ofBytes h
  refine ⟨program, hprogram, ?_⟩
  rintro m limit pos s rfl hlimit hpos hs
  have hread := Pattern.readable_of_ofBytes h
  refine hread.attempt_unmarked hprogram hpos hs ?_
  rwa [itemsRate_eq_zero hloops, Nat.zero_mul, Nat.add_zero]

/-- A path through all six nodes. A limit of six is enough for it, and for any longer run of `b`;
with five the end anchor is not reached. -/
theorem loop_free_attempt_gives_up_nothing_six :
    ∃ (p : Pattern) (m : Matcher), Pattern.ofString "a?(b+)?\\1$" = .ok p ∧
      p.toProgram = .ok m.program ∧ (∀ part ∈ itemsParts p.items, ¬ part.IsLoop) ∧
      m.program.nodes.size = 6 ∧ m.text = #[97, 98, 98] ∧
      (m.attempt 6 0 (.fresh 1)).state.deep = false ∧
      (m.attempt 5 0 (.fresh 1)).state.deep = true := by
  let p : Pattern := ⟨false, [.quantified .optional (.byte 97),
    .quantified .optional (.group 1 [[.quantified .plus (.byte 98)]]), .backreference 1,
    .endAnchor], 1⟩
  have hread : Pattern.ofString "a?(b+)?\\1$" = .ok p := (Pattern.ofString_eq _).trans rfl
  have hloops : ∀ part ∈ itemsParts p.items, ¬ part.IsLoop := by
    simp [p, itemsParts, branchesParts, Item.inside, Item.IsLoop, Quantifier.times,
      Repeat.isUnbounded]
  obtain ⟨program, hprogram, hcomplete⟩ := loop_free_attempt_gives_up_nothing _ p hread hloops
  have hgraph := hprogram
  cases hgraph
  refine ⟨p, ⟨_, #[97, 98, 98], .error⟩, hread, hprogram, hloops, rfl, rfl, ?_, by decide +kernel⟩
  exact hcomplete _ 6 0 (.fresh 1) rfl (by decide) (Nat.zero_le _) (State.hasSlots_fresh 1)

end ByteRegex
