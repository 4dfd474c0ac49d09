import ByteRegex.Proofs.Graph.Closed
import ByteRegex.Proofs.Matcher.FirstWay

/-!
# Matching on a closed graph

On a closed graph no attempt from within the text breaks off, however its nodes hang together:
tails may be reached without their heads or name the head of another group, groups may share a
slot, chains may run in a circle. One invariant carries this. On the way to a node all starts
lie at or before the position, and all captures within the text.

The position only grows along a path, so the starts that are set on it stay behind it. When a
path fails and another is tried from an earlier position, the starts are those from before the
path: this is `Outcome.Restores`, and the reason why the invariant says nothing of a failure.
-/

namespace ByteRegex

/-- What holds on the way to a node at the position `pos`. -/
structure State.FitsAt (s : State) (m : Matcher) (pos : Nat) : Prop where
  fits : s.Fits m
  starts_le : ∀ slot start : Nat, s.starts[slot]? = some start → start ≤ pos
  le_size : pos ≤ m.text.size

/-- The outcome of an evaluation at `pos` is no fault, and a match ends within the text. -/
def Outcome.SafeFrom (o : Outcome) (m : Matcher) (pos : Nat) : Prop :=
  match o with
  | .matched stop t => pos ≤ stop ∧ stop ≤ m.text.size ∧ t.Fits m
  | .failed _ => True
  | .faulted _ _ => False

/-- Wherever it goes on in the graph, the outcome is safe. -/
def Continue.Safe (go : Continue) (m : Matcher) : Prop :=
  ∀ id pos s, (∀ i ∈ id, i < m.program.nodes.size) → s.FitsAt m pos → (go id pos s).SafeFrom m pos

section

variable {m : Matcher} {pos : Nat} {s t : State} {o : Outcome}

namespace State.FitsAt

theorem of_sameTables (h : s.FitsAt m pos) (hst : s.SameTables t) : t.FitsAt m pos := by
  refine ⟨h.fits.of_sameTables hst, ?_, h.le_size⟩
  rw [hst.2]
  exact h.starts_le

theorem note (h : s.FitsAt m pos) (limit : Level) (e : Event) : (s.note limit e).FitsAt m pos :=
  h.of_sameTables (s.sameTables_note limit e)

/-- A later position within the text. -/
theorem later {stop : Nat} (h : s.FitsAt m pos) (hpos : pos ≤ stop) (hsize : stop ≤ m.text.size) :
    s.FitsAt m stop :=
  ⟨h.fits, fun slot start hstart => Nat.le_trans (h.starts_le slot start hstart) hpos, hsize⟩

/-- An iteration begins at the position. -/
theorem setStart (h : s.FitsAt m pos) (slot : Nat) : (s.setStart slot pos).FitsAt m pos := by
  refine ⟨h.fits.setStart slot pos, fun other start hstart => ?_, h.le_size⟩
  rw [State.setStart, Array.getElem?_setIfInBounds] at hstart
  split at hstart
  · split at hstart
    · exact Nat.le_of_eq (Option.some.inj hstart).symm
    · cases hstart
  · exact h.starts_le other start hstart

/-- An iteration ends at the position. -/
theorem setCapture (h : s.FitsAt m pos) (slot : Nat) {start : Nat} (horder : start ≤ pos) :
    (s.setCapture slot (some ⟨start, pos⟩)).FitsAt m pos :=
  ⟨h.fits.setCapture slot ⟨start, pos⟩ horder h.le_size, h.starts_le, h.le_size⟩

end State.FitsAt

namespace Outcome.SafeFrom

/-- What is safe from a later position is safe from here. -/
theorem earlier {stop : Nat} (h : o.SafeFrom m stop) (hpos : pos ≤ stop) : o.SafeFrom m pos := by
  cases o with
  | matched end_ t => exact ⟨Nat.le_trans hpos h.1, h.2⟩
  | failed t => trivial
  | faulted fault t => exact h

/-- What is tried after a failure finds the tables of before. -/
theorem orElse {next : State → Outcome} (h : o.SafeFrom m pos) (hrestores : o.Restores s)
    (hs : s.FitsAt m pos) (hnext : ∀ t, t.FitsAt m pos → (next t).SafeFrom m pos) :
    (o.orElse next).SafeFrom m pos := by
  cases o with
  | matched stop t => exact h
  | failed t => exact hnext t (hs.of_sameTables (hrestores.tables t rfl))
  | faulted fault t => exact h

/-- Nothing is asked of what a failure leaves. -/
theorem onFailure (h : o.SafeFrom m pos) (undo : State → State) :
    (o.onFailure undo).SafeFrom m pos := by
  cases o with
  | matched stop t => exact h
  | failed t => trivial
  | faulted fault t => exact h

end Outcome.SafeFrom

end

/-- Bytes that are the same as others are within the text. -/
theorem le_size_of_sameBytes {text : Array UInt8} {count i j : Nat}
    (h : sameBytes text count i j = true) (hj : j ≤ text.size) : j + count ≤ text.size := by
  induction count generalizing i j with
  | zero => exact hj
  | succ count ih =>
      rw [sameBytes] at h
      cases hi : text[i]? with
      | none => simp [hi] at h
      | some x =>
          cases hb : text[j]? with
          | none => simp [hi, hb] at h
          | some y =>
              have hlt := (Array.getElem?_eq_some_iff.mp hb).1
              simp only [hi, hb, Bool.and_eq_true] at h
              have hrest := ih h.2 hlt
              omega

/-- The alternatives that are tried again are those of the head. -/
theorem Matcher.againAt_subset {node : Node} {start pos : Nat} {entries : List NodeId}
    (h : againAt node start pos = some entries) {entry : NodeId} (hentry : entry ∈ entries) :
    entry ∈ node.ids := by
  cases node with
  | groupHead slot times alternatives tail =>
      simp only [againAt, Option.ite_none_right_eq_some, Option.some.injEq] at h
      exact List.mem_cons_of_mem _ (h.2 ▸ hentry)
  | bytes _ _ _ => cases h
  | backreference _ _ => cases h
  | groupTail _ _ _ => cases h
  | endAnchor => cases h

/-! ## Nodes -/

section

variable {m : Matcher} {go : Continue} (hgo : go.Safe m) (hrestores : go.Restores)
  {next : Option NodeId} (hnext : ∀ i ∈ next, i < m.program.nodes.size) {pos : Nat} {s : State}
include hgo

include hnext in
/-- Going on at a later position. -/
theorem Continue.Safe.later {stop : Nat} (hs : s.FitsAt m pos) (hpos : pos ≤ stop)
    (hsize : stop ≤ m.text.size) : (go next stop s).SafeFrom m pos :=
  (hgo next stop s hnext (hs.later hpos hsize)).earlier hpos

include hrestores

include hnext in
theorem descend_safe {low extra : Nat} (hs : s.FitsAt m pos) (hlow : pos ≤ low)
    (hsize : low + extra ≤ m.text.size) : (descend go next low extra s).SafeFrom m pos := by
  induction extra generalizing s with
  | zero => exact hgo.later hnext hs hlow hsize
  | succ extra ih =>
      have hlongest : (go next (low + (extra + 1)) s).SafeFrom m pos :=
        hgo.later hnext hs (by omega) hsize
      exact hlongest.orElse (hrestores next _ s) hs fun t ht => ih ht (by omega)

include hnext in
theorem matchBytes_safe (accepted : ByteClass) (times : Repeat) (hs : s.FitsAt m pos) :
    (m.matchBytes go accepted times next pos s).SafeFrom m pos := by
  have hhere : ∀ t : State, t.FitsAt m pos → (go next pos t).SafeFrom m pos :=
    fun t ht => hgo next pos t hnext ht
  have hone : ∀ b, m.text[pos]? = some b → (go next (pos + 1) s).SafeFrom m pos := fun b hb =>
    hgo.later hnext hs (Nat.le_succ pos) (Array.getElem?_eq_some_iff.mp hb).1
  cases times with
  | once =>
      unfold Matcher.matchBytes
      dsimp only
      cases hb : m.text[pos]? with
      | none => trivial
      | some b =>
          dsimp only
          split
          · exact hone b hb
          · trivial
  | optional =>
      unfold Matcher.matchBytes
      dsimp only
      cases hb : m.text[pos]? with
      | none => exact hhere s hs
      | some b =>
          dsimp only
          split
          · exact (hone b hb).orElse (hrestores next _ s) hs hhere
          · exact hhere s hs
  | star | plus =>
      have hstop := runEnd_eq accepted m.text (m.text.size - pos) pos (by have := hs.le_size; omega)
      have hrun := runLength_le m.text accepted pos
      have hsize := hs.le_size
      unfold Matcher.matchBytes
      dsimp only
      rw [if_pos hsize]
      split
      · exact descend_safe hgo hrestores hnext (hs.note _ _) (by omega) (by omega)
      · trivial

omit hrestores in
include hnext in
theorem matchReference_safe (slot : Nat) (hs : s.FitsAt m pos) :
    (m.matchReference go slot next pos s).SafeFrom m pos := by
  unfold Matcher.matchReference
  cases s.captures.get? slot with
  | none => trivial
  | some captured =>
      dsimp only
      rw [if_pos hs.le_size]
      split
      · next hsame =>
        exact hgo.later hnext hs (Nat.le_add_right _ _) (le_size_of_sameBytes hsame hs.le_size)
      · trivial

theorem tryAlternatives_safe (slot i : Nat) {entries : List NodeId}
    (hentries : ∀ entry ∈ entries, entry < m.program.nodes.size) (hs : s.FitsAt m pos) :
    (m.tryAlternatives go slot pos i entries s).SafeFrom m pos := by
  induction entries generalizing i s with
  | nil => trivial
  | cons entry others ih =>
      rw [List.forall_mem_cons] at hentries
      have hnote := hs.note m.verbosity (.alternative slot i pos)
      have hfirst := hgo (some entry) pos _ (fun id hid => Option.some.inj hid ▸ hentries.1) hnote
      exact hfirst.orElse (hrestores _ _ _) hnote fun t ht => ih (i + 1) hentries.2 ht

theorem enterGroup_safe {slot : Nat} (hslot : slot < m.program.slots) {entries : List NodeId}
    (hentries : ∀ entry ∈ entries, entry < m.program.nodes.size) (hs : s.FitsAt m pos) :
    (m.enterGroup go slot entries pos s).SafeFrom m pos := by
  have hin : slot < s.starts.size := by rwa [hs.fits.starts_size]
  unfold Matcher.enterGroup
  rw [Array.getElem?_eq_getElem hin]
  exact (tryAlternatives_safe hgo hrestores slot 0 hentries (hs.setStart slot)).onFailure _

theorem matchHead_safe (hclosed : m.program.Closed) {slot tail : Nat}
    (hslot : slot < m.program.slots) (times : Repeat) {entries : List NodeId}
    (htail : tail < m.program.nodes.size)
    (hentries : ∀ entry ∈ entries, entry < m.program.nodes.size) (hs : s.FitsAt m pos) :
    (m.matchHead go slot times entries tail pos s).SafeFrom m pos := by
  refine (enterGroup_safe hgo hrestores hslot hentries hs).orElse
    (enterGroup_restores hrestores slot entries pos s) hs fun t ht => ?_
  split
  · trivial
  · cases hnode : m.program.nodes[tail]? with
    | none => exact absurd htail (Nat.not_lt.mpr (Array.getElem?_eq_none_iff.mp hnode))
    | some node =>
        cases node with
        | groupTail other head following =>
            have hids := hclosed.ids _ (Array.mem_of_getElem? hnode)
            refine hgo following pos _ (fun id hid => hids id ?_) (ht.note _ _)
            exact List.mem_cons_of_mem _ (Option.mem_toList.mpr hid)
        | _ => trivial

include hnext in
theorem matchTail_safe (hclosed : m.program.Closed) {slot head : Nat}
    (hslot : slot < m.program.slots) (hhead : head < m.program.nodes.size)
    (hs : s.FitsAt m pos) : (m.matchTail go slot head next pos s).SafeFrom m pos := by
  have hstarts : slot < s.starts.size := by rwa [hs.fits.starts_size]
  have hslots : slot < s.captures.slots.size := by rwa [hs.fits.captures_size]
  have horder := hs.starts_le slot _ (Array.getElem?_eq_getElem hstarts)
  have hset := hs.setCapture slot horder
  unfold Matcher.matchTail
  rw [Array.getElem?_eq_getElem hstarts, Array.getElem?_eq_getElem hslots]
  dsimp only
  rw [if_pos ⟨horder, hs.le_size⟩]
  cases hnode : m.program.nodes[head]? with
  | none => exact absurd hhead (Nat.not_lt.mpr (Array.getElem?_eq_none_iff.mp hnode))
  | some node =>
      dsimp only
      apply Outcome.SafeFrom.onFailure
      cases hagain : Matcher.againAt node s.starts[slot] pos with
      | none => exact hgo next pos _ hnext hset
      | some entries =>
          have hids := hclosed.ids _ (Array.mem_of_getElem? hnode)
          have hentries : ∀ entry ∈ entries, entry < m.program.nodes.size :=
            fun entry hentry => hids entry (Matcher.againAt_subset hagain hentry)
          exact (enterGroup_safe hgo hrestores hslot hentries hset).orElse
            (enterGroup_restores hrestores slot entries pos _) hset
            fun t ht => hgo next pos t hnext ht

theorem step_safe (hclosed : m.program.Closed) {id : Nat} (hid : id < m.program.nodes.size)
    (hs : s.FitsAt m pos) : (m.step go id pos s).SafeFrom m pos := by
  unfold Matcher.step
  cases hnode : m.program.nodes[id]? with
  | none => exact absurd hid (Nat.not_lt.mpr (Array.getElem?_eq_none_iff.mp hnode))
  | some node =>
      have hids := hclosed.ids _ (Array.mem_of_getElem? hnode)
      have hslots := hclosed.slots _ (Array.mem_of_getElem? hnode)
      cases node with
      | bytes accepted times next =>
          exact matchBytes_safe hgo hrestores (fun i hi => hids i (Option.mem_toList.mpr hi))
            accepted times hs
      | backreference slot next =>
          exact matchReference_safe hgo (fun i hi => hids i (Option.mem_toList.mpr hi)) slot hs
      | groupHead slot times entries tail =>
          exact matchHead_safe hgo hrestores hclosed (hslots slot rfl) times
            (hids tail List.mem_cons_self)
            (fun entry hentry => hids entry (List.mem_cons_of_mem _ hentry)) hs
      | groupTail slot head next =>
          exact matchTail_safe hgo hrestores
            (fun i hi => hids i (List.mem_cons_of_mem _ (Option.mem_toList.mpr hi))) hclosed
            (hslots slot rfl) (hids head List.mem_cons_self) hs
      | endAnchor =>
          dsimp only
          split
          · exact ⟨Nat.le_refl pos, hs.le_size, hs.fits⟩
          · trivial

end

/-! ## Walks -/

/-- The induction is on the room: a node has less of it left for what follows. -/
theorem visit_safe {m : Matcher} (hclosed : m.program.Closed) (room : Nat) :
    Continue.Safe (m.visit room) m := by
  induction room with
  | zero =>
      intro id pos s _ hs
      cases id with
      | none => exact ⟨Nat.le_refl pos, hs.le_size, hs.fits⟩
      | some id => trivial
  | succ room ih =>
      intro id pos s hid hs
      cases id with
      | none => exact ⟨Nat.le_refl pos, hs.le_size, hs.fits⟩
      | some id =>
          rw [Matcher.visit_succ]
          exact step_safe ih (visit_restores m room) hclosed (hid id rfl) hs

/-- At the start of an attempt all starts are 0 and nothing is captured. -/
theorem State.reset_fitsAt {s : State} {m : Matcher} {pos : Nat}
    (hs : s.HasSlots m.program.slots) (hpos : pos ≤ m.text.size) : s.reset.FitsAt m pos := by
  refine ⟨State.reset_fits hs, fun slot start hstart => ?_, hpos⟩
  rw [State.reset, Array.getElem?_map] at hstart
  obtain ⟨_, _, rfl⟩ := Option.map_eq_some_iff.mp hstart
  exact Nat.zero_le pos

/-- So an attempt is safe. -/
theorem attempt_safe {m : Matcher} (hclosed : m.program.Closed) (limit : Nat) {pos : Nat}
    (hpos : pos ≤ m.text.size) {s : State} (hs : s.HasSlots m.program.slots) :
    (m.attempt limit pos s).SafeFrom m pos :=
  visit_safe hclosed limit m.program.root pos s.reset hclosed.root (State.reset_fitsAt hs hpos)

/-- On a closed program no attempt breaks off that begins within the text. A match ends within
the text and not before its beginning, and what is captured afterwards are pieces of the text.
The tables are then fit for another attempt, so this holds of each of several in a row.

A backreference may have any slot. One at the top of a machine's numbers is left out, for there the
group number in the event that tells of it cannot be formed (`Event.message`); what the attempt
itself does with such a slot is what it does with any other that the tables do not have.

`Matcher.matchAt` is the attempt with the limit `maxDepth`. -/
theorem closed_attempt_is_safe (m : Matcher) (limit pos : Nat) (s : State)
    (hclosed : m.program.Closed) (hpos : pos ≤ m.text.size) (hs : s.HasSlots m.program.slots) :
    (∀ fault t, m.attempt limit pos s ≠ .faulted fault t) ∧
      (∀ stop t, m.attempt limit pos s = .matched stop t → pos ≤ stop ∧ stop ≤ m.text.size) ∧
      (∀ slot span, (m.attempt limit pos s).state.captures.get? slot = some span →
        span.start ≤ span.stop ∧ span.stop ≤ m.text.size) ∧
      (m.attempt limit pos s).state.HasSlots m.program.slots := by
  have hsafe := attempt_safe hclosed limit hpos hs
  refine ⟨?_, ?_, ?_, hs.attempt m limit pos⟩
  · intro fault t hfault
    rw [hfault] at hsafe
    exact hsafe
  · intro stop t hmatched
    rw [hmatched] at hsafe
    exact ⟨hsafe.1, hsafe.2.1⟩
  · intro slot span hspan
    cases hattempt : m.attempt limit pos s with
    | matched stop t =>
        rw [hattempt] at hsafe hspan
        exact hsafe.2.2.captured slot span hspan
    | failed t =>
        rw [hattempt] at hspan
        rw [Outcome.state, attempt_captures hattempt, Captures.get?_reset] at hspan
        cases hspan
    | faulted fault t =>
        rw [hattempt] at hsafe
        exact hsafe.elim

/-- A circle through a tail that no head leads to and that names the head of another group,
whose own tail is an end anchor. -/
def ring : Program where
  nodes := #[.groupTail 0 1 (some 1), .groupHead 1 .optional [2, 3] 3,
    .bytes .any .once (some 0), .endAnchor]
  root := some 0
  slots := 2

/-- The attempt at the position 1 goes once around. The tail captures from the position 0 on,
where no iteration has begun; this is still a piece of the text. -/
theorem closed_attempt_is_safe_ring :
    let m : Matcher := { program := ring, text := #[97, 98] }
    let t : State := { captures := ⟨#[some ⟨0, 2⟩, none]⟩, starts := #[0, 2] }
    ring.Closed ∧ 1 ≤ m.text.size ∧ (State.fresh 2).HasSlots ring.slots ∧
      m.attempt 6 1 (.fresh 2) = .matched 2 t ∧ 1 ≤ 2 ∧ 2 ≤ m.text.size ∧
      (∀ slot span, t.captures.get? slot = some span →
        span.start ≤ span.stop ∧ span.stop ≤ m.text.size) := by
  intro m t
  have hclosed : ring.Closed := by
    refine ⟨?_, ?_, ?_⟩
    · rintro id ⟨⟩
      decide
    · simp [ring, Node.ids]
    · simp [ring, Node.groupSlot?]
  have hslots : (State.fresh 2).HasSlots ring.slots := State.hasSlots_fresh 2
  have hpos : 1 ≤ m.text.size := by decide
  have hround : m.attempt 6 1 (.fresh 2) = .matched 2 t := by decide +kernel
  obtain ⟨-, hstop, hcaptured, -⟩ := closed_attempt_is_safe m 6 1 (.fresh 2) hclosed hpos hslots
  rw [hround] at hcaptured
  exact ⟨hclosed, hpos, hslots, hround, (hstop 2 t hround).1, (hstop 2 t hround).2, hcaptured⟩

end ByteRegex
