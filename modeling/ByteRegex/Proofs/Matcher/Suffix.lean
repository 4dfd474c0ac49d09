import ByteRegex.Proofs.Matcher.SideBySide

/-!
# A text behind other bytes

If other bytes are put before a text, a walk that begins behind them takes the same steps as a
walk through the text alone. All that it looks at and all that it writes down lies behind them,
so its positions are greater by their number and nothing else is different: no path is given up
in only one of the two walks.

There is one thing that does not move along. An attempt begins with the start of each group
at 0, from whatever position it begins, so at first these entries are the same in both walks. But a
start is read at the tail of its group only, and by then the head has written it. What is carried
through the tree is therefore the list of the slots whose groups are under way: their starts have
moved, and nothing is said of the others.
-/

namespace ByteRegex

/-- The span behind `cut` more bytes. -/
def Span.moved (cut : Nat) (span : Span) : Span :=
  ⟨cut + span.start, cut + span.stop⟩

/-- The same captures behind `cut` more bytes. -/
def Captures.moved (cut : Nat) (c : Captures) : Captures :=
  ⟨c.slots.map (Option.map (Span.moved cut))⟩

/-- The matcher over its text with other bytes before it. -/
def Matcher.behind (m : Matcher) (before : Array UInt8) : Matcher :=
  { m with text := before ++ m.text }

@[simp] theorem Matcher.behind_program (m : Matcher) (before : Array UInt8) :
    (m.behind before).program = m.program := rfl

@[simp] theorem Matcher.behind_text (m : Matcher) (before : Array UInt8) :
    (m.behind before).text = before ++ m.text := rfl

/-- The state `s` is what `t` is behind `cut` more bytes, as far as the starts of the slots `known`
are concerned. -/
structure State.Behind (s : State) (cut : Nat) (known : List Nat) (t : State) : Prop where
  captures : s.captures = t.captures.moved cut
  starts_size : s.starts.size = t.starts.size
  starts : ∀ slot ∈ known, s.starts[slot]? = t.starts[slot]?.map (cut + ·)
  deep : s.deep = t.deep

/-- The first evaluation ends as the second does, with all positions behind `cut` more bytes. -/
inductive Outcome.Behind (cut : Nat) : Outcome → Outcome → Prop
  | matched (stop : Nat) {s t : State} (captures : s.captures = t.captures.moved cut)
      (deep : s.deep = t.deep) : Behind cut (.matched (cut + stop) s) (.matched stop t)
  | failed {s t : State} (deep : s.deep = t.deep) : Behind cut (.failed s) (.failed t)
  | faulted (fault fault' : Fault) (s t : State) :
      Behind cut (.faulted fault s) (.faulted fault' t)

/-- From `id` on, a walk behind other bytes ends as the walk through the text alone does, if inside
of the groups with the slots `known`. -/
def Matcher.Moves (m : Matcher) (before : Array UInt8) (room : Nat) (known : List Nat)
    (id : Option NodeId) : Prop :=
  ∀ r ≤ room, ∀ pos s t, s.Behind before.size known t →
    ((m.behind before).visit r id (before.size + pos) s).Behind before.size (m.visit r id pos t)

/-! ## Texts -/

section

variable (before text : Array UInt8)

theorem getElem?_behind (pos : Nat) : (before ++ text)[before.size + pos]? = text[pos]? := by
  rw [Array.getElem?_append_right (Nat.le_add_right _ _), Nat.add_sub_cancel_left]

theorem le_size_behind {pos : Nat} :
    before.size + pos ≤ (before ++ text).size ↔ pos ≤ text.size := by
  rw [Array.size_append, Nat.add_le_add_iff_left]

theorem runEnd_behind (accepted : ByteClass) (remaining pos : Nat) :
    runEnd accepted (before ++ text) remaining (before.size + pos) =
      before.size + runEnd accepted text remaining pos := by
  induction remaining generalizing pos with
  | zero => rfl
  | succ remaining ih =>
      rw [runEnd, runEnd, getElem?_behind, Nat.add_assoc, ih]
      split
      · split <;> rfl
      · rfl

theorem sameBytes_behind (count i j : Nat) :
    sameBytes (before ++ text) count (before.size + i) (before.size + j) =
      sameBytes text count i j := by
  induction count generalizing i j with
  | zero => rfl
  | succ count ih =>
      rw [sameBytes, sameBytes, getElem?_behind, getElem?_behind, Nat.add_assoc, Nat.add_assoc, ih]

/-- The bytes of a span move along with it. -/
theorem Span.of_moved (span : Span) :
    (span.moved before.size).of (before ++ text) = span.of text := by
  rw [Span.of_eq_take_drop, Span.of_eq_take_drop, Array.toList_append]
  simp only [moved, length, Nat.add_sub_add_left, ← Array.length_toList, List.drop_append,
    List.drop_eq_nil_of_le (Nat.le_add_right before.toList.length _), List.nil_append,
    Nat.add_sub_cancel_left]

end

/-! ## States -/

theorem Span.start_moved (cut : Nat) (span : Span) : (span.moved cut).start = cut + span.start :=
  rfl

theorem Span.length_moved (cut : Nat) (span : Span) : (span.moved cut).length = span.length :=
  Nat.add_sub_add_left ..

namespace Captures

theorem getElem?_moved (cut : Nat) (c : Captures) (slot : Nat) :
    (c.moved cut).slots[slot]? = c.slots[slot]?.map (Option.map (Span.moved cut)) :=
  Array.getElem?_map

theorem get?_moved (cut : Nat) (c : Captures) (slot : Nat) :
    (c.moved cut).get? slot = (c.get? slot).map (Span.moved cut) := by
  rw [get?, get?, getElem?_moved]
  cases c.slots[slot]? <;> rfl

theorem moved_set (cut : Nat) (c : Captures) (slot : Nat) (value : Option Span) :
    (c.set slot value).moved cut = (c.moved cut).set slot (value.map (Span.moved cut)) :=
  congrArg mk Array.map_setIfInBounds

theorem moved_unset (cut size : Nat) : (unset size).moved cut = unset size :=
  congrArg mk (Array.map_replicate ..)

end Captures

namespace State.Behind

variable {s t u v : State} {cut slot : Nat} {known : List Nat}

theorem of_sameTables (h : s.Behind cut known t) (hs : s.SameTables u) (ht : t.SameTables v)
    (hdeep : u.deep = v.deep) : u.Behind cut known v := by
  obtain ⟨hscaptures, hsstarts⟩ := hs
  obtain ⟨htcaptures, htstarts⟩ := ht
  obtain ⟨hcaptures, hsize, hstarts, _⟩ := h
  rw [← hscaptures, ← htcaptures] at hcaptures
  rw [← hsstarts, ← htstarts] at hsize hstarts
  exact ⟨hcaptures, hsize, hstarts, hdeep⟩

/-- The events differ in their positions. -/
theorem note (h : s.Behind cut known t) (limit limit' : Level) (e e' : Event) :
    (s.note limit e).Behind cut known (t.note limit' e') :=
  h.of_sameTables (s.sameTables_note limit e) (t.sameTables_note limit' e') (by simp [h.deep])

theorem setCapture (h : s.Behind cut known t) (slot : Nat) (value : Option Span) :
    (s.setCapture slot (value.map (Span.moved cut))).Behind cut known
      (t.setCapture slot value) := by
  refine ⟨?_, h.starts_size, h.starts, h.deep⟩
  rw [State.setCapture_captures, State.setCapture_captures, Captures.moved_set, h.captures]

/-- An iteration that begins makes the start of its group known. -/
theorem enter (h : s.Behind cut known t) (slot pos : Nat) :
    (s.setStart slot (cut + pos)).Behind cut (slot :: known) (t.setStart slot pos) := by
  refine ⟨h.captures, ?_, fun other hother => ?_, h.deep⟩
  · rw [State.setStart, State.setStart, Array.size_setIfInBounds, Array.size_setIfInBounds]
    exact h.starts_size
  · rw [State.setStart, State.setStart, Array.getElem?_setIfInBounds, Array.getElem?_setIfInBounds,
      h.starts_size]
    by_cases hslot : slot = other
    · simp only [hslot, if_true]
      split <;> rfl
    · rw [if_neg hslot, if_neg hslot]
      exact h.starts other ((List.mem_cons.mp hother).resolve_left (Ne.symm hslot))

/-- Behind a group its start is of no use. -/
theorem leave (h : s.Behind cut (slot :: known) t) : s.Behind cut known t :=
  ⟨h.captures, h.starts_size, fun other hother => h.starts other (List.mem_cons_of_mem _ hother),
    h.deep⟩

end State.Behind

/-- An attempt begins with nothing captured, and in no group. -/
theorem State.reset_behind {s t : State} {n : Nat} (hs : s.HasSlots n) (ht : t.HasSlots n)
    (cut : Nat) : s.reset.Behind cut [] t.reset := by
  refine ⟨?_, ?_, fun _ hslot => (nomatch hslot), rfl⟩
  · rw [State.reset_captures hs, State.reset_captures ht, Captures.moved_unset]
  · rw [State.reset_starts hs, State.reset_starts ht]

/-! ## Outcomes -/

namespace Outcome.Behind

variable {o o' : Outcome} {s t : State} {cut : Nat} {known : List Nat}

/-- Trying another evaluation after a failure, which has left the tables as they were. -/
theorem orElse {f g : State → Outcome} (h : o.Behind cut o') (hst : s.Behind cut known t)
    (ho : o.Restores s) (ho' : o'.Restores t)
    (hnext : ∀ u v : State, u.Behind cut known v → (f u).Behind cut (g v)) :
    (o.orElse f).Behind cut (o'.orElse g) := by
  cases h with
  | matched stop captures deep => exact .matched stop captures deep
  | failed deep =>
      exact hnext _ _ (hst.of_sameTables (ho.tables _ rfl) (ho'.tables _ rfl) deep)
  | faulted fault fault' u v => exact .faulted fault fault' u v

/-- What a failure puts back makes no difference, as it leaves the mark alone. -/
theorem onFailure {undo undo' : State → State} (h : o.Behind cut o')
    (hundo : ∀ u v : State, u.deep = v.deep → (undo u).deep = (undo' v).deep) :
    (o.onFailure undo).Behind cut (o'.onFailure undo') := by
  cases h with
  | matched stop captures deep => exact .matched stop captures deep
  | failed deep => exact .failed (hundo _ _ deep)
  | faulted fault fault' u v => exact .faulted fault fault' u v

end Outcome.Behind

/-! ## Nodes -/

namespace Matcher.Moves

variable {m : Matcher} {before : Array UInt8} {room : Nat} {known : List Nat} {id : Option NodeId}

theorem mono (h : m.Moves before room known id) {less : Nat} (hroom : less ≤ room) :
    m.Moves before less known id :=
  fun r hr => h r (Nat.le_trans hr hroom)

/-- A node moves if its step does, with less room for what follows. -/
theorem of_step {here : NodeId}
    (h : ∀ r < room, ∀ pos s t, s.Behind before.size known t →
      ((m.behind before).step ((m.behind before).visit r) here (before.size + pos) s).Behind
        before.size (m.step (m.visit r) here pos t)) :
    m.Moves before room known (some here) := by
  intro r hr pos s t hst
  cases r with
  | zero => exact .failed (by simp)
  | succ r => exact h r hr pos s t hst

theorem endOfChain (m : Matcher) (before : Array UInt8) (room : Nat) (known : List Nat) :
    m.Moves before room known none := by
  intro r _ pos s t hst
  rw [visit_none, visit_none]
  exact .matched pos hst.captures hst.deep

end Matcher.Moves

section

variable {m : Matcher} {before : Array UInt8} {room r pos : Nat} {known : List Nat}
  {next : Option NodeId} {s t : State}

theorem descend_behind (hnext : m.Moves before r known next) (low extra : Nat)
    (hst : s.Behind before.size known t) :
    (descend ((m.behind before).visit r) next (before.size + low) extra s).Behind before.size
      (descend (m.visit r) next low extra t) := by
  induction extra generalizing s t with
  | zero => exact hnext r (Nat.le_refl r) low s t hst
  | succ extra ih =>
      rw [descend, descend, Nat.add_assoc]
      exact (hnext r (Nat.le_refl r) (low + (extra + 1)) s t hst).orElse hst
        (visit_restores _ r next _ s) (visit_restores m r next _ t) fun u v huv => ih huv

theorem matchBytes_behind (hnext : m.Moves before r known next) (accepted : ByteClass)
    (times : Repeat) (pos : Nat) (hst : s.Behind before.size known t) :
    ((m.behind before).matchBytes ((m.behind before).visit r) accepted times next
      (before.size + pos) s).Behind before.size
        (m.matchBytes (m.visit r) accepted times next pos t) := by
  have hgo : ∀ pos s t, s.Behind before.size known t →
      ((m.behind before).visit r next (before.size + pos) s).Behind before.size
        (m.visit r next pos t) := hnext r (Nat.le_refl r)
  cases times with
  | once =>
      simp only [Matcher.matchBytes, Matcher.behind_text, getElem?_behind]
      split
      · split
        · exact hgo (pos + 1) s t hst
        · exact .failed hst.deep
      · exact .failed hst.deep
  | optional =>
      simp only [Matcher.matchBytes, Matcher.behind_text, getElem?_behind]
      split
      · split
        · exact (hgo (pos + 1) s t hst).orElse hst (visit_restores _ r next _ s)
            (visit_restores m r next _ t) (hgo pos)
        · exact hgo pos s t hst
      · exact hgo pos s t hst
  | star | plus =>
      simp only [Matcher.matchBytes, Matcher.behind_text, Array.size_append, Nat.add_sub_add_left,
        runEnd_behind, Nat.add_assoc, Nat.add_le_add_iff_left]
      split
      · split
        · exact descend_behind hnext _ _ (hst.note _ _ _ _)
        · exact .failed (by simp [hst.deep])
      · exact .faulted _ _ s t

theorem matchReference_behind (hnext : m.Moves before r known next) (slot pos : Nat)
    (hst : s.Behind before.size known t) :
    ((m.behind before).matchReference ((m.behind before).visit r) slot next (before.size + pos)
      s).Behind before.size (m.matchReference (m.visit r) slot next pos t) := by
  simp only [Matcher.matchReference, hst.captures, Captures.get?_moved]
  cases t.captures.get? slot with
  | none => exact .failed (by simp [hst.deep])
  | some captured =>
      simp only [Option.map_some, Matcher.behind_text, le_size_behind, Span.start_moved,
        Span.length_moved, sameBytes_behind, Nat.add_assoc]
      split
      · split
        · exact hnext r (Nat.le_refl r) _ s t hst
        · exact .failed hst.deep
      · exact .faulted _ _ s t

theorem tryAlternatives_behind {entries : List NodeId}
    (hentries : ∀ entry ∈ entries, m.Moves before r known (some entry)) (slot pos i : Nat)
    (hst : s.Behind before.size known t) :
    ((m.behind before).tryAlternatives ((m.behind before).visit r) slot (before.size + pos) i
      entries s).Behind before.size (m.tryAlternatives (m.visit r) slot pos i entries t) := by
  induction entries generalizing i s t with
  | nil => exact .failed hst.deep
  | cons entry others ih =>
      rw [List.forall_mem_cons] at hentries
      have hnote := hst.note (m.behind before).verbosity m.verbosity
        (.alternative slot i (before.size + pos)) (.alternative slot i pos)
      exact (hentries.1 r (Nat.le_refl r) pos _ _ hnote).orElse hnote
        (visit_restores _ r (some entry) _ _) (visit_restores m r (some entry) _ _)
        fun u v huv => ih hentries.2 (i + 1) huv

/-- Beginning an iteration makes the start of the group known to its alternatives. What is put
back after a failure need not be. -/
theorem enterGroup_behind {slot : Nat} {entries : List NodeId}
    (hentries : ∀ entry ∈ entries, m.Moves before r (slot :: known) (some entry)) (pos : Nat)
    (hst : s.Behind before.size known t) :
    ((m.behind before).enterGroup ((m.behind before).visit r) slot entries (before.size + pos)
      s).Behind before.size (m.enterGroup (m.visit r) slot entries pos t) := by
  unfold Matcher.enterGroup
  have hsize : s.starts.size ≤ slot ↔ t.starts.size ≤ slot := by rw [hst.starts_size]
  rw [← Array.getElem?_eq_none_iff, ← Array.getElem?_eq_none_iff] at hsize
  cases hs : s.starts[slot]? with
  | none =>
      rw [hsize.mp hs]
      exact .faulted _ _ s t
  | some saved =>
      cases ht : t.starts[slot]? with
      | none =>
          rw [hsize.mpr ht] at hs
          cases hs
      | some saved' =>
          have htried := tryAlternatives_behind hentries slot pos 0 (hst.enter slot pos)
          exact htried.onFailure fun u v huv => huv

end

/-! ## Groups -/

/-- The entries of a group move inside of it if the tail does, which is what its alternatives come
to in the end. -/
def Matcher.EntriesMove (m : Matcher) (before : Array UInt8) (known : List Nat) (tail : NodeId)
    (entries : List NodeId) : Prop :=
  ∀ entry ∈ entries, ∀ room, m.Moves before room known (some tail) →
    m.Moves before room known (some entry)

section

variable {m : Matcher} {before : Array UInt8} {known : List Nat} {slot : Nat} {times : Repeat}
  {entries : List NodeId} {head tail : NodeId} {next : Option NodeId}
  (hhead : m.program.nodes[head]? = some (.groupHead slot times entries tail))
include hhead

/-- What a tail does moves if the alternatives of its group do and what follows: the start that it
reads is that of a group under way. -/
theorem matchTail_behind {r : Nat} {s t : State}
    (hagain : ∀ entry ∈ entries, m.Moves before r (slot :: known) (some entry))
    (hnext : m.Moves before r known next) (pos : Nat)
    (hst : s.Behind before.size (slot :: known) t) :
    ((m.behind before).matchTail ((m.behind before).visit r) slot head next (before.size + pos)
      s).Behind before.size (m.matchTail (m.visit r) slot head next pos t) := by
  simp only [Matcher.matchTail, Matcher.behind_program, hhead, Matcher.againAt,
    hst.starts slot List.mem_cons_self, hst.captures, Captures.getElem?_moved]
  cases t.starts[slot]? with
  | none => exact .faulted _ _ s t
  | some start =>
      simp only [Option.map_some, Nat.add_le_add_iff_left, Nat.add_lt_add_iff_left,
        Matcher.behind_text, le_size_behind]
      split
      · cases t.captures.slots[slot]? with
        | none => exact .faulted _ _ s t
        | some previous =>
            have hset := hst.leave.setCapture slot (some ⟨start, pos⟩)
            have hafter : ∀ u v : State, u.Behind before.size known v →
                ((m.behind before).visit r next (before.size + pos) u).Behind before.size
                  (m.visit r next pos v) := hnext r (Nat.le_refl r) pos
            refine Outcome.Behind.onFailure ?_ fun u v huv => huv
            by_cases hmore : times.isUnbounded = true ∧ start < pos
            · simp only [if_pos hmore]
              exact (enterGroup_behind hagain pos hset).orElse hset
                (enterGroup_restores (visit_restores _ r) slot entries _ _)
                (enterGroup_restores (visit_restores m r) slot entries _ _) hafter
            · simp only [if_neg hmore]
              exact hafter _ _ hset
      · exact .faulted _ _ s t

variable (hentries : m.EntriesMove before (slot :: known) tail entries)
  (htail : m.program.nodes[tail]? = some (.groupTail slot head next))
include hentries htail

theorem groupTail_moves {room : Nat} (hnext : m.Moves before room known next) :
    m.Moves before room (slot :: known) (some tail) := by
  induction room with
  | zero => exact .of_step fun r hr => absurd hr (Nat.not_lt_zero r)
  | succ room ih =>
      apply Matcher.Moves.of_step
      intro r hr pos s t hst
      -- going back to the alternatives leaves less room for the tail to come
      have hless := (ih (hnext.mono (Nat.le_succ room))).mono (Nat.le_of_lt_succ hr)
      simp only [Matcher.step, Matcher.behind_program, htail]
      exact matchTail_behind hhead (fun entry hentry => hentries entry hentry r hless)
        (hnext.mono (Nat.le_of_lt hr)) pos hst

theorem groupHead_moves {room : Nat} (hnext : m.Moves before room known next) :
    m.Moves before room known (some head) := by
  apply Matcher.Moves.of_step
  intro r hr pos s t hst
  have hrest := hnext.mono (Nat.le_of_lt hr)
  have htails := groupTail_moves hhead hentries htail hrest
  have htail' : (m.behind before).program.nodes[tail]? = some (.groupTail slot head next) := htail
  simp only [Matcher.step, Matcher.behind_program, hhead, Matcher.matchHead_eq htail,
    Matcher.matchHead_eq htail']
  refine (enterGroup_behind (fun entry hentry => hentries entry hentry r htails) pos hst).orElse hst
    (enterGroup_restores (visit_restores _ r) slot entries _ s)
    (enterGroup_restores (visit_restores m r) slot entries _ t) fun u v huv => ?_
  split
  · exact hrest r (Nat.le_refl r) pos _ _ (huv.note _ _ _ _)
  · exact .failed huv.deep

end

/-! ## Trees -/

section

variable {m : Matcher} {before : Array UInt8} {room : Nat} {known : List Nat} {here : NodeId}
  {next : Option NodeId}

theorem bytes_moves {accepted : ByteClass} {times : Repeat}
    (hnode : m.program.nodes[here]? = some (.bytes accepted times next))
    (hnext : m.Moves before room known next) : m.Moves before room known (some here) := by
  apply Matcher.Moves.of_step
  intro r hr pos s t hst
  simp only [Matcher.step, Matcher.behind_program, hnode]
  exact matchBytes_behind (hnext.mono (Nat.le_of_lt hr)) accepted times pos hst

theorem backreference_moves {slot : Nat}
    (hnode : m.program.nodes[here]? = some (.backreference slot next))
    (hnext : m.Moves before room known next) : m.Moves before room known (some here) := by
  apply Matcher.Moves.of_step
  intro r hr pos s t hst
  simp only [Matcher.step, Matcher.behind_program, hnode]
  exact matchReference_behind (hnext.mono (Nat.le_of_lt hr)) slot pos hst

theorem endAnchor_moves (hnode : m.program.nodes[here]? = some .endAnchor) :
    m.Moves before room known (some here) := by
  apply Matcher.Moves.of_step
  intro r _ pos s t hst
  simp only [Matcher.step, Matcher.behind_program, hnode, Matcher.behind_text, Array.size_append,
    Nat.add_left_cancel_iff]
  split
  · exact .matched pos hst.captures hst.deep
  · exact .failed hst.deep

end

mutual

/-- The nodes of an item move if what they continue with does. -/
theorem Item.nodes_move {m : Matcher} {before : Array UInt8} {room : Nat} : ∀ (item : Item)
    (times : Repeat) (here : NodeId) (next : Option NodeId) (known : List Nat),
    m.program.Places here (item.nodes times here next) → m.Moves before room known next →
      m.Moves before room known (some here)
  | .byte _, times, here, next, known, hplaces, hnext
  | .any, times, here, next, known, hplaces, hnext
  | .oneOf _ _, times, here, next, known, hplaces, hnext => by
      rw [Item.nodes] at hplaces
      exact bytes_moves hplaces.head hnext
  | .backreference _, times, here, next, known, hplaces, hnext => by
      rw [Item.nodes] at hplaces
      exact backreference_moves hplaces.head hnext
  | .endAnchor, times, here, next, known, hplaces, _ => by
      rw [Item.nodes] at hplaces
      exact endAnchor_moves hplaces.head
  | .quantified q inner, times, here, next, known, hplaces, hnext => by
      rw [Item.nodes] at hplaces
      exact Item.nodes_move inner q.times here next known hplaces hnext
  | .group number alternatives, times, here, next, known, hplaces, hnext => by
      have hentries : m.EntriesMove before (slotOf number :: known) (here + 1) _ :=
        branchesNodes_move alternatives (here + 1) (here + 2) _ hplaces.group_branches
      exact groupHead_moves hplaces.group_head hentries hplaces.group_tail hnext

theorem itemsNodes_move {m : Matcher} {before : Array UInt8} {room : Nat} : ∀ (items : List Item)
    (here : NodeId) (exit : Option NodeId) (known : List Nat),
    m.program.Places here (itemsNodes here exit items) → m.Moves before room known exit →
      m.Moves before room known (entryOf items here exit)
  | [], _, _, _, _, hexit => hexit
  | item :: rest, here, exit, known, hplaces, hexit => by
      have hrest := itemsNodes_move rest (here + item.nodeCount) exit known hplaces.later_items
        hexit
      exact Item.nodes_move item .once here _ known hplaces.first_item hrest

theorem branchesNodes_move {m : Matcher} {before : Array UInt8} : ∀ (branches : List (List Item))
    (tail here : NodeId) (known : List Nat),
    m.program.Places here (branchesNodes tail here branches) →
      m.EntriesMove before known tail (branchEntries tail here branches)
  | [], _, _, _, _ => fun _ hentry => (nomatch hentry)
  | items :: rest, tail, here, known, hplaces => by
      rw [branchEntries]
      refine List.forall_mem_cons.mpr ⟨fun room htail => ?_, branchesNodes_move rest tail _ known
        hplaces.later_branches⟩
      have hitems := itemsNodes_move items here (some tail) known hplaces.first_branch htail
      rwa [entryOf_tail] at hitems

end

/-! ## Attempts -/

/-- Behind other bytes, an attempt over the graph of a pattern ends as one from the start of the
text alone does. -/
theorem Pattern.attempt_behind {p : Pattern} {m : Matcher} (hprogram : p.toProgram = .ok m.program)
    (before : Array UInt8) (limit : Nat) {s t : State} (hs : s.HasSlots p.groups)
    (ht : t.HasSlots p.groups) :
    ((m.behind before).attempt limit before.size s).Behind before.size (m.attempt limit 0 t) := by
  have hmoves := itemsNodes_move p.items 0 none [] (toProgram_places hprogram)
    (.endOfChain m before limit [])
  rw [← (toProgram_eq_ok_iff.mp hprogram).2.2.1] at hmoves
  exact hmoves limit (Nat.le_refl limit) 0 s.reset t.reset (State.reset_behind hs ht before.size)

end ByteRegex
