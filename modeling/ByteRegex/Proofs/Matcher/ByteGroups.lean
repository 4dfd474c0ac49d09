import ByteRegex.Proofs.Language.Basic
import ByteRegex.Proofs.Matcher.SideBySide
import ByteRegex.Proofs.Pattern.ByteGroups

/-!
# A single byte in a group of its own

An iterated byte is matched in a loop: its run is measured once and then tried from the longest
length to the shortest. An iterated group is matched by going back from its tail. If the group
holds just that byte, both come to the same positions in the same order: the tail behind a byte
begins another iteration first, so what follows the last byte of the run is tried first, and a
failure gives the bytes back one by one.

So a pattern matches as before, and captures the same, when one of its bytes is put into a
group of its own. Only the depth differs.
-/

namespace ByteRegex

/-! ## Iterations of one byte -/

section

variable {m m' : Matcher} {own r r' pos count : Nat} {accepted : ByteClass} {times : Repeat}
  {head tail entry : NodeId} {next next' : Option NodeId} {s t : State}
  (htext : m'.text = m.text) (hnext : m.Concurs m' own r next next')
  (hhead : m'.program.nodes[head]? = some (.groupHead own times [entry] tail))
  (htail : m'.program.nodes[tail]? = some (.groupTail own head next'))
  (hentry : m'.program.nodes[entry]? = some (.bytes accepted .once (some tail)))

include htext hnext hhead htail in
/-- The tail of the group behind one byte, which begins another iteration where the run of bytes
goes on. -/
theorem byteTail_concurs (hpos : pos + 1 ≤ m.text.size) (hst : s.AlikeBut own t)
    (hstart : t.starts[own]? = some pos)
    (hagain : ∀ r' t, s.AlikeBut own t →
      (afterBytes (m.visit r) next count (pos + 1) s).Concurs own
        (if times.isUnbounded then m'.enterGroup (m'.visit r') own [entry] (pos + 1) t
          else .failed t)) :
    (afterBytes (m.visit r) next (count + 1) pos s).Concurs own
      (m'.visit r' (some tail) (pos + 1) t) := by
  cases r' with
  | zero => exact .abandoned_right _ t m'.verbosity (pos + 1)
  | succ r' =>
      have hin := hst.own_captures
      have hprevious : t.captures.slots[own]? = some t.captures.slots[own] :=
        Array.getElem?_eq_getElem hin
      have hset := hst.setCapture_own (some ⟨pos, pos + 1⟩)
      rw [Matcher.visit_succ]
      simp only [Matcher.step, htail, Matcher.matchTail, hstart, hprevious, hhead, htext,
        Matcher.againAt, Nat.le_add_right, hpos, and_self, if_true, Nat.lt_succ_self, and_true]
      refine Outcome.Concurs.onFailure_own (.orElse ?_ ?_ ?_ ?_) ?_ ?_
      · have hmore := hagain r' _ hset
        cases hrepeat : times.isUnbounded with
        | true => simpa [hrepeat] using hmore
        | false => simpa [hrepeat] using hmore
      · exact fun u v huv => hnext r (Nat.le_refl r) r' (pos + 1) u v hpos huv
      · exact m.visit_keepsDeep r next (pos + 1)
      · exact m'.visit_keepsDeep r' next' (pos + 1)
      · exact fun u v huv => huv.setCapture_own _
      · exact fun _ => id

include htext hentry in
/-- An iteration of the group takes one byte to the tail, with its start in the own slot, or
fails. -/
theorem enterByte_concurs {o : Outcome} (hst : s.AlikeBut own t)
    (hbyte : m.text[pos]?.any accepted.accepts = true → ∀ r' t, s.AlikeBut own t →
      t.starts[own]? = some pos → o.Concurs own (m'.visit r' (some tail) (pos + 1) t))
    (hnone : m.text[pos]?.any accepted.accepts = false → o = .failed s) :
    o.Concurs own (m'.enterGroup (m'.visit r') own [entry] pos t) := by
  have hin := hst.own_starts
  have hsaved : t.starts[own]? = some t.starts[own] := Array.getElem?_eq_getElem hin
  have hinside := hst.setStart_own pos
  have hstart : (t.setStart own pos).starts[own]? = some pos := by simp [State.setStart, hin]
  simp only [Matcher.enterGroup, hsaved, Matcher.tryAlternatives, Outcome.orElse_fail]
  refine Outcome.Concurs.onFailure_own ?_ (fun u v huv => huv.setStart_own _) (fun _ => id)
  cases r' with
  | zero => exact .abandoned_right o _ m'.verbosity pos
  | succ r' =>
      have hnote := hinside.of_sameTables (.refl s)
        ((t.setStart own pos).sameTables_note m'.verbosity (.alternative own 0 pos))
      rw [Matcher.visit_succ]
      simp only [Matcher.step, hentry, Matcher.matchBytes_once, htext]
      cases hany : m.text[pos]?.any accepted.accepts with
      | true => exact hbyte hany r' _ hnote (by rwa [State.note_starts])
      | false => exact hnone hany ▸ .failed hnote

include htext hnext hhead htail hentry in
/-- Iterations of the group do what a run of bytes does: they come to the longest run first, for
a tail tries another iteration before it goes on. -/
theorem iterateByte_concurs (hpos : pos ≤ m.text.size) (hst : s.AlikeBut own t)
    (hcount : times.reach (runLength m.text accepted pos) = count) :
    (afterBytes (m.visit r) next count pos s).Concurs own
      (m'.enterGroup (m'.visit r') own [entry] pos t) := by
  induction count generalizing pos s t r' with
  | zero =>
      refine enterByte_concurs htext hentry hst (fun hany => ?_) fun _ => rfl
      rw [runLength_eq, if_pos hany, Repeat.reach_succ] at hcount
      cases hcount
  | succ count ih =>
      refine enterByte_concurs htext hentry hst (fun hany r' t hst hstart => ?_) fun hany => ?_
      · have hlt : pos < m.text.size := by
          obtain ⟨b, hb, _⟩ := (Option.any_eq_true _ _).mp hany
          exact (Array.getElem?_eq_some_iff.mp hb).1
        rw [runLength_eq, if_pos hany, Repeat.reach_succ, Nat.succ_inj] at hcount
        refine byteTail_concurs htext hnext hhead htail hlt hst hstart fun r' t hst => ?_
        split at hcount
        · next hrepeat =>
          rw [if_pos hrepeat]
          exact ih hlt hst hcount
        · next hrepeat =>
          rw [if_neg hrepeat, ← hcount]
          exact .failed hst
      · rw [runLength_eq, hany] at hcount
        have hle := times.reach_le 0
        simp only [Bool.false_eq_true, if_false] at hcount
        omega

end

/-- A node for bytes concurs with a group that has one alternative, a single byte of the same
class, and occurs as often. The slot of the group is unknown to the first matcher. -/
theorem byteGroup_concurs {m m' : Matcher} {own room : Nat} {accepted : ByteClass}
    {times : Repeat} {here head tail entry : NodeId} {next next' : Option NodeId}
    (htext : m'.text = m.text)
    (hnode : m.program.nodes[here]? = some (.bytes accepted times next))
    (hhead : m'.program.nodes[head]? = some (.groupHead own times [entry] tail))
    (htail : m'.program.nodes[tail]? = some (.groupTail own head next'))
    (hentry : m'.program.nodes[entry]? = some (.bytes accepted .once (some tail)))
    (hnext : m.Concurs m' own room next next') :
    m.Concurs m' own room (some here) (some head) := by
  apply Matcher.Concurs.of_step
  intro r hr r' pos s t hpos hst
  have hrest := hnext.mono (Nat.le_of_lt hr)
  obtain ⟨u, hsu, hbytes⟩ := m.matchBytes_eq_afterBytes (m.visit r) accepted times next hpos s
  simp only [Matcher.step, hnode, hhead, hbytes, Matcher.matchHead_eq htail]
  apply (iterateByte_concurs htext hrest hhead htail hentry hpos
    (hst.of_sameTables hsu (.refl t)) rfl).orElse
  · exact fun u v huv => skip_concurs hrest times hpos huv (.refl u) (v.sameTables_note _ _)
  · exact fun u => skip_keepsDeep m times r next pos id
  · exact fun v => skip_keepsDeep m' times r' next' pos (v.keepsDeep_note _ _)

/-! ## Trees -/

/-- A byte concurs with itself and with a group of its own. -/
theorem groupIf_concurs {m m' : Matcher} {number room : Nat} {item : Item} {accepted : ByteClass}
    (htext : m'.text = m.text)
    (hnodes : ∀ times here next, item.nodes times here next = [.bytes accepted times next])
    (c : Bool) {times : Repeat} {here here' : NodeId} {next next' : Option NodeId}
    (hplaces : m.program.Places here (item.nodes times here next))
    (hplaces' : m'.program.Places here' ((item.groupIf number c).nodes times here' next'))
    (hnext : m.Concurs m' (slotOf number) room next next') :
    m.Concurs m' (slotOf number) room (some here) (some here') := by
  rw [hnodes] at hplaces
  cases c with
  | false =>
      have hbyte : (item.groupIf number false).nodes times here' next' =
          [.bytes accepted times next'] := hnodes times here' next'
      rw [hbyte] at hplaces'
      exact bytes_concurs htext hplaces.head hplaces'.head hnext
  | true =>
      have hgroup : m'.program.Places here'
        ((Item.group number [[item]]).nodes times here' next') := hplaces'
      have hentry := hgroup.group_branches.first_branch.first_item
      rw [hnodes] at hentry
      exact byteGroup_concurs htext hplaces.head hgroup.group_head hgroup.group_tail hentry.head
        hnext

mutual

/-- An item concurs with the same item with chosen bytes in groups, if what they continue with
does and nothing else has the slot of these groups. -/
theorem Item.groupBytes_concur {m m' : Matcher} {number room : Nat} {chosen : Nat → Bool}
    (htext : m'.text = m.text) : ∀ (item : Item) (times : Repeat) (first : Nat)
    (here here' : NodeId) (next next' : Option NodeId),
    m.program.Places here (item.nodes times here next) →
    m'.program.Places here' ((item.groupBytes number chosen first).nodes times here' next') →
    (∀ k ∈ item.numbers, slotOf k ≠ slotOf number) →
    (∀ k ∈ item.references, slotOf k ≠ slotOf number) →
    m.Concurs m' (slotOf number) room next next' →
      m.Concurs m' (slotOf number) room (some here) (some here')
  | .byte b, times, first, here, here', next, next', hplaces, hplaces', _, _, hnext => by
      rw [Item.groupBytes] at hplaces'
      exact groupIf_concurs htext (fun _ _ _ => rfl) _ hplaces hplaces' hnext
  | .any, times, first, here, here', next, next', hplaces, hplaces', _, _, hnext => by
      rw [Item.groupBytes] at hplaces'
      exact groupIf_concurs htext (fun _ _ _ => rfl) _ hplaces hplaces' hnext
  | .oneOf written negated, times, first, here, here', next, next', hplaces, hplaces', _, _,
      hnext => by
      rw [Item.groupBytes] at hplaces'
      exact groupIf_concurs htext (fun _ _ _ => rfl) _ hplaces hplaces' hnext
  | .backreference k, times, first, here, here', next, next', hplaces, hplaces', _, hreferences,
      hnext => by
      rw [Item.groupBytes, Item.nodes] at hplaces'
      rw [Item.nodes] at hplaces
      have hslot := hreferences k (by rw [Item.references]; exact List.mem_singleton.mpr rfl)
      exact backreference_concurs htext hslot hplaces.head hplaces'.head hnext
  | .endAnchor, times, first, here, here', next, next', hplaces, hplaces', _, _, _ => by
      rw [Item.groupBytes, Item.nodes] at hplaces'
      rw [Item.nodes] at hplaces
      exact endAnchor_concurs htext hplaces.head hplaces'.head
  | .quantified q inner, times, first, here, here', next, next', hplaces, hplaces', hnumbers,
      hreferences, hnext => by
      rw [Item.groupBytes, Item.nodes] at hplaces'
      rw [Item.nodes] at hplaces
      rw [Item.numbers] at hnumbers
      rw [Item.references] at hreferences
      exact Item.groupBytes_concur htext inner q.times first here here' next next' hplaces hplaces'
        hnumbers hreferences hnext
  | .group k alternatives, times, first, here, here', next, next', hplaces, hplaces', hnumbers,
      hreferences, hnext => by
      rw [Item.groupBytes] at hplaces'
      rw [Item.numbers, List.forall_mem_cons] at hnumbers
      rw [Item.references] at hreferences
      have hentries := branchesGroupBytes_concur htext alternatives first (here + 1) (here' + 1)
        (here + 2) (here' + 2) hplaces.group_branches hplaces'.group_branches hnumbers.2 hreferences
      exact groupHead_concurs htext hnumbers.1 hplaces.group_head hplaces'.group_head hentries
        hplaces.group_tail hplaces'.group_tail hnext

theorem itemsGroupBytes_concur {m m' : Matcher} {number room : Nat} {chosen : Nat → Bool}
    (htext : m'.text = m.text) : ∀ (items : List Item) (first : Nat) (here here' : NodeId)
    (exit exit' : Option NodeId), m.program.Places here (itemsNodes here exit items) →
    m'.program.Places here'
      (itemsNodes here' exit' (itemsGroupBytes number chosen first items)) →
    (∀ k ∈ itemsNumbers items, slotOf k ≠ slotOf number) →
    (∀ k ∈ itemsReferences items, slotOf k ≠ slotOf number) →
    m.Concurs m' (slotOf number) room exit exit' →
      m.Concurs m' (slotOf number) room (entryOf items here exit)
        (entryOf (itemsGroupBytes number chosen first items) here' exit')
  | [], _, _, _, _, _, _, _, _, _, hexit => hexit
  | item :: rest, first, here, here', exit, exit', hplaces, hplaces', hnumbers, hreferences,
      hexit => by
      rw [itemsGroupBytes] at hplaces' ⊢
      rw [itemsNumbers_cons, List.forall_mem_append] at hnumbers
      rw [itemsReferences_cons, List.forall_mem_append] at hreferences
      have hrest := itemsGroupBytes_concur htext rest _ _ _ exit exit' hplaces.later_items
        hplaces'.later_items hnumbers.2 hreferences.2 hexit
      exact Item.groupBytes_concur htext item .once first here here' _ _ hplaces.first_item
        hplaces'.first_item hnumbers.1 hreferences.1 hrest

theorem branchesGroupBytes_concur {m m' : Matcher} {number : Nat} {chosen : Nat → Bool}
    (htext : m'.text = m.text) : ∀ (branches : List (List Item)) (first : Nat)
    (tail tail' here here' : NodeId), m.program.Places here (branchesNodes tail here branches) →
    m'.program.Places here'
      (branchesNodes tail' here' (branchesGroupBytes number chosen first branches)) →
    (∀ k ∈ branchesNumbers branches, slotOf k ≠ slotOf number) →
    (∀ k ∈ branchesReferences branches, slotOf k ≠ slotOf number) →
      m.EntriesConcur m' (slotOf number) tail tail' (branchEntries tail here branches)
        (branchEntries tail' here' (branchesGroupBytes number chosen first branches))
  | [], _, _, _, _, _, _, _, _, _ => .nil
  | items :: rest, first, tail, tail', here, here', hplaces, hplaces', hnumbers, hreferences => by
      rw [branchesGroupBytes] at hplaces' ⊢
      rw [branchesNumbers_cons, List.forall_mem_append] at hnumbers
      rw [branchesReferences_cons, List.forall_mem_append] at hreferences
      refine .cons (fun room htail => ?_) (branchesGroupBytes_concur htext rest _ tail tail' _ _
        hplaces.later_branches hplaces'.later_branches hnumbers.2 hreferences.2)
      have hitems := itemsGroupBytes_concur htext items first here here' (some tail) (some tail')
        hplaces.first_branch hplaces'.first_branch hnumbers.1 hreferences.1 htail
      rwa [entryOf_tail, entryOf_tail] at hitems

end

/-! ## Whole patterns -/

/-- A slot that is not the one of the group with the number `k + 1`. -/
theorem slotOf_ne {n k : Nat} (hn : 1 ≤ n) (hk : n ≠ k + 1) : slotOf n ≠ k := by
  unfold slotOf
  omega

/-- The walks through both graphs concur from their roots on. -/
theorem Pattern.groupByte_concur {p : Pattern} {index : Nat} {m m' : Matcher}
    (hprogram : p.toProgram = .ok m.program)
    (hgrouped : (p.groupByte index).toProgram = .ok m'.program) (htext : m'.text = m.text)
    (hnumbers : ∀ n ∈ itemsNumbers p.items, slotOf n ≠ p.groups)
    (hreferences : ∀ n ∈ itemsReferences p.items, slotOf n ≠ p.groups) (room : Nat) :
    m.Concurs m' p.groups room m.program.root m'.program.root := by
  have hitems := itemsGroupBytes_concur htext p.items 0 0 0 none none (toProgram_places hprogram)
    (toProgram_places hgrouped) hnumbers hreferences (.endOfChain m m' _ room)
  rw [(toProgram_eq_ok_iff.mp hprogram).2.2.1, (toProgram_eq_ok_iff.mp hgrouped).2.2.1]
  exact hitems

/-- A pattern matches as before, and captures the same, when one of its bytes is put into a group
of its own, wherever the byte stands and however often it may occur; the grouped pattern has one
group more. The groups of the pattern may have any numbers that it has slots for, and no reference
may be to the new one. The patterns need not go equally deep, so nothing is said of an attempt that
gives up a path.

`Matcher.matchAt` is the attempt with the limit `maxDepth`. -/
theorem grouped_byte_matches_alike (p : Pattern) (index : Nat) (program : Program)
    (hprogram : p.toProgram = .ok program)
    (hnumbers : ∀ n ∈ itemsNumbers p.items, 1 ≤ n ∧ n ≤ p.groups)
    (hreferences : ∀ n ∈ itemsReferences p.items, 1 ≤ n ∧ n ≠ p.groups + 1) :
    ∃ grouped, (p.groupByte index).toProgram = .ok grouped ∧
      (index < itemsByteCount p.items →
        (itemsNumbers (p.groupByte index).items).length = (itemsNumbers p.items).length + 1) ∧
      ∀ (m m' : Matcher) (limit limit' pos : Nat) (s t : State),
        m.program = program → m'.program = grouped → m'.text = m.text → pos ≤ m.text.size →
        s.HasSlots p.groups → t.HasSlots (p.groups + 1) →
        (m.attempt limit pos s).state.deep = false →
        (m'.attempt limit' pos t).state.deep = false →
          ((∃ stop u v, m.attempt limit pos s = .matched stop u ∧
              m'.attempt limit' pos t = .matched stop v) ∨
            (∃ u v, m.attempt limit pos s = .failed u ∧ m'.attempt limit' pos t = .failed v)) ∧
          ∀ slot < p.groups, (m.attempt limit pos s).state.captures.get? slot =
            (m'.attempt limit' pos t).state.captures.get? slot := by
  obtain ⟨hfault, _, _, hslots⟩ := Pattern.toProgram_eq_ok_iff.mp hprogram
  have hgrouped := Pattern.toProgram_eq_ok (p.shapeFault?_groupByte hfault index)
  refine ⟨_, hgrouped, p.length_numbers_groupByte, ?_⟩
  rintro m m' limit limit' pos s t rfl hm' htext hpos hs ht hdeep hdeep'
  have hgroups : ∀ n ∈ itemsNumbers p.items, slotOf n ≠ p.groups := fun n hn =>
    slotOf_ne (hnumbers n hn).1 (Nat.ne_of_lt (Nat.lt_succ_of_le (hnumbers n hn).2))
  have hothers : ∀ n ∈ itemsReferences p.items, slotOf n ≠ p.groups := fun n hn =>
    slotOf_ne (hreferences n hn).1 (hreferences n hn).2
  have hsafe := attempt_safe (Pattern.toProgram_closed hprogram hnumbers) limit hpos (hslots ▸ hs)
  have hconcur := Pattern.groupByte_concur hprogram (hm' ▸ hgrouped) htext hgroups hothers limit
  have hsame : (m.attempt limit pos s).SameBut p.groups (m'.attempt limit' pos t) :=
    hconcur limit (Nat.le_refl limit) limit' pos s.reset t.reset hpos
      (State.reset_alikeBut hs ht) hdeep hdeep'
  generalize m.attempt limit pos s = o at hsame hsafe ⊢
  generalize m'.attempt limit' pos t = o' at hsame ⊢
  cases hsame with
  | matched stop h =>
      exact ⟨.inl ⟨stop, _, _, rfl, rfl⟩, fun slot hslot => h.get?_eq (Nat.ne_of_lt hslot)⟩
  | failed h => exact ⟨.inr ⟨_, _, rfl, rfl⟩, fun slot hslot => h.get?_eq (Nat.ne_of_lt hslot)⟩
  | faulted fault fault' u v => exact hsafe.elim

/-- The byte is the `a` of `(a*b|\1)+`, so its group is a loop in a loop. On this text the second
iteration of the outer one fails in both alternatives, behind a run of two bytes, and the match
ends with the first, whether or not the run is in a group. -/
theorem grouped_byte_matches_alike_nested :
    ∃ (p : Pattern) (m m' : Matcher) (u v : State), Pattern.ofString "(a*b|\\1)+" = .ok p ∧
      p.toProgram = .ok m.program ∧ (p.groupByte 0).toProgram = .ok m'.program ∧
      0 < itemsByteCount p.items ∧ (itemsNumbers (p.groupByte 0).items).length = 2 ∧
      m.text = #[97, 97, 98, 97, 97] ∧ m'.text = m.text ∧
      (∀ n ∈ itemsNumbers p.items, 1 ≤ n ∧ n ≤ p.groups) ∧
      (∀ n ∈ itemsReferences p.items, 1 ≤ n ∧ n ≠ p.groups + 1) ∧
      (m.attempt 8 0 (.fresh 1)).state.deep = false ∧
      (m'.attempt 16 0 (.fresh 2)).state.deep = false ∧
      m.attempt 8 0 (.fresh 1) = .matched 3 u ∧ m'.attempt 16 0 (.fresh 2) = .matched 3 v ∧
      u.captures.get? 0 = some ⟨0, 3⟩ ∧ v.captures.get? 0 = some ⟨0, 3⟩ := by
  let p : Pattern := ⟨false, [.quantified .plus (.group 1 [[.quantified .star (.byte 97),
    .byte 98], [.backreference 1]])], 1⟩
  let program : Program := {
    nodes := #[.groupHead 0 .plus [2, 4] 1, .groupTail 0 0 none,
      .bytes (.literal 97) .star (some 3), .bytes (.literal 98) .once (some 1),
      .backreference 0 (some 1)]
    root := some 0
    slots := 1 }
  have hread : Pattern.ofString "(a*b|\\1)+" = .ok p := (Pattern.ofString_eq _).trans rfl
  have hprogram : p.toProgram = .ok program := rfl
  have hnumbers : ∀ n ∈ itemsNumbers p.items, 1 ≤ n ∧ n ≤ p.groups := by decide
  have hreferences : ∀ n ∈ itemsReferences p.items, 1 ≤ n ∧ n ≠ p.groups + 1 := by decide
  have hindex : 0 < itemsByteCount p.items := by decide
  obtain ⟨grouped, hgrouped, hmore, hboth⟩ :=
    grouped_byte_matches_alike p 0 program hprogram hnumbers hreferences
  let m : Matcher := { program, text := #[97, 97, 98, 97, 97] }
  let m' : Matcher := { program := grouped, text := m.text }
  let u : State := ⟨⟨#[some ⟨0, 3⟩]⟩, #[0], false, []⟩
  have hgraph := hgrouped
  cases hgraph
  have hdeep : (m.attempt 8 0 (.fresh 1)).state.deep = false := by decide +kernel
  have hdeep' : (m'.attempt 16 0 (.fresh 2)).state.deep = false := by decide +kernel
  have hmatched : m.attempt 8 0 (.fresh 1) = .matched 3 u := by decide +kernel
  obtain ⟨hends, hcaptures⟩ := hboth m m' 8 16 0 (.fresh 1) (.fresh 2) rfl rfl rfl (Nat.zero_le _)
    (State.hasSlots_fresh 1) (State.hasSlots_fresh 2) hdeep hdeep'
  have hslot := hcaptures 0 Nat.zero_lt_one
  rw [hmatched] at hends hslot
  -- that the second run matches, and where, is taken from the first
  obtain ⟨stop, _, v, hfirst, hsecond⟩ | ⟨_, _, hfailed, _⟩ := hends
  · obtain rfl : stop = 3 := (Outcome.matched.inj hfirst).1.symm
    rw [hsecond] at hslot
    exact ⟨p, m, m', u, v, hread, hprogram, hgrouped, hindex, hmore hindex, rfl, rfl, hnumbers,
      hreferences, hdeep, hdeep', hmatched, hsecond, rfl, hslot.symm⟩
  · cases hfailed

end ByteRegex
