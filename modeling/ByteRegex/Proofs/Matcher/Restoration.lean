import ByteRegex.Proofs.Matcher.Answers

/-!
# What a failure leaves

An evaluation that fails leaves the captures and the starts as it found them, on any
graph and from any state: what a node writes it takes back when nothing that follows
it succeeds. Only the mark of a path given up may be set, and it is never taken back.
However an evaluation ends, the tables have as many entries as before.

Nothing is asked of the graph here, so nothing is said about where an evaluation
ends or what it captures; that is what `Outcome.Answers` is for.
-/

namespace ByteRegex

/-- The tables of both states have the same sizes. -/
def State.SameSizes (s t : State) : Prop :=
  t.captures.slots.size = s.captures.slots.size ∧ t.starts.size = s.starts.size

namespace State

variable {s t u : State}

theorem SameSizes.refl (s : State) : s.SameSizes s := ⟨rfl, rfl⟩

theorem SameSizes.trans (h : s.SameSizes t) (g : t.SameSizes u) : s.SameSizes u :=
  ⟨g.1.trans h.1, g.2.trans h.2⟩

theorem SameTables.sameSizes (h : s.SameTables t) : s.SameSizes t :=
  ⟨by rw [h.1], by rw [h.2]⟩

theorem sameSizes_setStart (s : State) (slot pos : Nat) : s.SameSizes (s.setStart slot pos) :=
  ⟨rfl, Array.size_setIfInBounds⟩

theorem sameSizes_setCapture (s : State) (slot : Nat) (value : Option Span) :
    s.SameSizes (s.setCapture slot value) :=
  ⟨Array.size_setIfInBounds, rfl⟩

theorem sameSizes_reset (s : State) : s.SameSizes s.reset :=
  ⟨Array.size_map .., Array.size_map ..⟩

end State

/-- The outcome of an evaluation that began in the state `s`: a failure leaves the
tables of `s`, and in any case their sizes stay and a path that was given up stays
given up. -/
structure Outcome.Restores (o : Outcome) (s : State) : Prop where
  tables : ∀ t, o = .failed t → s.SameTables t
  sizes : s.SameSizes o.state
  deep : s.KeepsDeep o.state

/-- Whatever it goes on with, a failure leaves the tables. -/
def Continue.Restores (go : Continue) : Prop :=
  ∀ id pos s, (go id pos s).Restores s

namespace Outcome

variable {o : Outcome} {s t : State}

theorem failed_restores (s : State) : (failed s).Restores s :=
  ⟨fun _ h => Outcome.failed.inj h ▸ State.SameTables.refl s, State.SameSizes.refl s, id⟩

theorem matched_restores (stop : Nat) (s : State) : (matched stop s).Restores s :=
  ⟨fun _ h => (nomatch h), State.SameSizes.refl s, id⟩

theorem faulted_restores (fault : Fault) (s : State) : (faulted fault s).Restores s :=
  ⟨fun _ h => (nomatch h), State.SameSizes.refl s, id⟩

namespace Restores

theorem of_sameTables (h : o.Restores t) (htables : s.SameTables t) (hdeep : s.KeepsDeep t) :
    o.Restores s :=
  ⟨fun u hu => htables.trans (h.tables u hu), htables.sameSizes.trans h.sizes,
    hdeep.trans h.deep⟩

/-- Recording an event first makes no difference. -/
theorem of_note {limit : Level} {e : Event} (h : o.Restores (s.note limit e)) : o.Restores s :=
  h.of_sameTables (s.sameTables_note limit e) (s.keepsDeep_note limit e)

/-- What is tried after a failure finds the tables of `s`. -/
theorem orElse {next : State → Outcome} (h : o.Restores s) (hnext : ∀ t, (next t).Restores t) :
    (o.orElse next).Restores s := by
  cases o with
  | matched stop t => exact h
  | faulted fault t => exact h
  | failed t => exact (hnext t).of_sameTables (h.tables t rfl) h.deep

/-- An evaluation that begins after a change of the tables, which is undone when it
fails. -/
theorem onFailure {undo : State → State} (h : o.Restores t) (hsizes : s.SameSizes t)
    (hdeep : s.KeepsDeep t)
    (hundo : ∀ u, t.SameTables u → s.SameTables (undo u) ∧ (undo u).deep = u.deep) :
    (o.onFailure undo).Restores s := by
  cases o with
  | matched stop u => exact ⟨fun _ hu => (nomatch hu), hsizes.trans h.sizes, hdeep.trans h.deep⟩
  | faulted fault u => exact ⟨fun _ hu => (nomatch hu), hsizes.trans h.sizes, hdeep.trans h.deep⟩
  | failed u =>
      obtain ⟨hsame, hmark⟩ := hundo u (h.tables u rfl)
      refine ⟨fun v hv => Outcome.failed.inj hv ▸ hsame, hsame.sameSizes, fun hs => ?_⟩
      exact hmark.trans (h.deep (hdeep hs))

end Restores

theorem abandoned_restores (s : State) (limit : Level) (pos : Nat) :
    (failed (s.abandon limit pos)).Restores s :=
  (failed_restores _).of_sameTables (s.sameTables_abandon limit pos)
    fun _ => s.abandon_deep limit pos

end Outcome

/-! ## Nodes -/

section

variable {m : Matcher} {go : Continue} (hgo : go.Restores)
include hgo

theorem descend_restores (next : Option NodeId) (low extra : Nat) (s : State) :
    (descend go next low extra s).Restores s := by
  induction extra generalizing s with
  | zero => exact hgo next low s
  | succ extra ih => exact (hgo next (low + (extra + 1)) s).orElse ih

theorem matchBytes_restores (accepted : ByteClass) (times : Repeat) (next : Option NodeId)
    (pos : Nat) (s : State) : (m.matchBytes go accepted times next pos s).Restores s := by
  cases times with
  | once =>
      unfold Matcher.matchBytes
      dsimp only
      split
      · split
        · exact hgo next (pos + 1) s
        · exact Outcome.failed_restores s
      · exact Outcome.failed_restores s
  | optional =>
      unfold Matcher.matchBytes
      dsimp only
      split
      · split
        · exact (hgo next (pos + 1) s).orElse fun t => hgo next pos t
        · exact hgo next pos s
      · exact hgo next pos s
  | star | plus =>
      unfold Matcher.matchBytes
      dsimp only
      split
      · apply Outcome.Restores.of_note
        split
        · exact descend_restores hgo _ _ _ _
        · exact Outcome.failed_restores _
      · exact Outcome.faulted_restores _ s

theorem matchReference_restores (slot : Nat) (next : Option NodeId) (pos : Nat) (s : State) :
    (m.matchReference go slot next pos s).Restores s := by
  unfold Matcher.matchReference
  split
  · exact Outcome.Restores.of_note (Outcome.failed_restores _)
  · split
    · split
      · exact hgo next _ s
      · exact Outcome.failed_restores s
    · exact Outcome.faulted_restores _ s

theorem tryAlternatives_restores (slot pos i : Nat) (entries : List NodeId) (s : State) :
    (m.tryAlternatives go slot pos i entries s).Restores s := by
  induction entries generalizing i s with
  | nil => exact Outcome.failed_restores s
  | cons entry others ih =>
      exact (Outcome.Restores.of_note (hgo (some entry) pos _)).orElse fun t => ih (i + 1) t

/-- The start of the group is put back. -/
theorem enterGroup_restores (slot : Nat) (entries : List NodeId) (pos : Nat) (s : State) :
    (m.enterGroup go slot entries pos s).Restores s := by
  unfold Matcher.enterGroup
  split
  · exact Outcome.faulted_restores _ s
  · next saved hsaved =>
      have htried := tryAlternatives_restores (m := m) hgo slot pos 0 entries (s.setStart slot pos)
      have hdeep : s.KeepsDeep (s.setStart slot pos) := id
      refine htried.onFailure (s.sameSizes_setStart slot pos) hdeep fun u hu => ?_
      exact ⟨⟨hu.1, State.setStart_setStart_self hsaved pos hu.2⟩, rfl⟩

/-- What the head of a group does where no iteration succeeds. -/
theorem skipGroup_restores (slot : Nat) (times : Repeat) (tail : NodeId) (pos : Nat) (s : State) :
    (if times.min > 0 then Outcome.failed s
      else
        let s := s.note m.verbosity (.skipped slot pos)
        match m.program.nodes[tail]? with
        | none => .faulted (.noNode tail) s
        | some (.groupTail _ _ next) => go next pos s
        | some _ => .failed s).Restores s := by
  split
  · exact Outcome.failed_restores s
  · apply Outcome.Restores.of_note
    split
    · exact Outcome.faulted_restores _ _
    · exact hgo _ pos _
    · exact Outcome.failed_restores _

theorem matchHead_restores (slot : Nat) (times : Repeat) (entries : List NodeId) (tail : NodeId)
    (pos : Nat) (s : State) : (m.matchHead go slot times entries tail pos s).Restores s :=
  (enterGroup_restores hgo slot entries pos s).orElse
    fun t => skipGroup_restores hgo slot times tail pos t

/-- The capture of the group is put back. -/
theorem matchTail_restores (slot : Nat) (head : NodeId) (next : Option NodeId) (pos : Nat)
    (s : State) : (m.matchTail go slot head next pos s).Restores s := by
  unfold Matcher.matchTail
  split
  · exact Outcome.faulted_restores _ s
  next start hstart =>
  split
  · split
    · exact Outcome.faulted_restores _ s
    next previous hprevious =>
    split
    · exact ⟨fun _ h => (nomatch h), s.sameSizes_setCapture slot _, id⟩
    next node hnode =>
    have hsizes := s.sameSizes_setCapture slot (some ⟨start, pos⟩)
    have hdeep : s.KeepsDeep (s.setCapture slot (some ⟨start, pos⟩)) := id
    refine .onFailure (.orElse ?_ fun t => hgo next pos t) hsizes hdeep fun u hu => ?_
    · cases Matcher.againAt node start pos with
      | none => exact Outcome.failed_restores _
      | some alternatives => exact enterGroup_restores hgo slot alternatives pos _
    · refine ⟨⟨?_, hu.2⟩, rfl⟩
      rw [State.setCapture_captures, hu.1]
      exact Captures.set_set_self hprevious _
  · exact Outcome.faulted_restores _ s

theorem step_restores (id : NodeId) (pos : Nat) (s : State) :
    (m.step go id pos s).Restores s := by
  unfold Matcher.step
  split
  · exact Outcome.faulted_restores _ s
  · exact matchBytes_restores hgo _ _ _ pos s
  · exact matchReference_restores hgo _ _ pos s
  · exact matchHead_restores hgo _ _ _ _ pos s
  · exact matchTail_restores hgo _ _ _ pos s
  · split
    · exact Outcome.matched_restores pos s
    · exact Outcome.failed_restores s

end

/-! ## Walks -/

/-- The induction is on the room: a node has less of it left for what follows. -/
theorem visit_restores (m : Matcher) (room : Nat) : Continue.Restores (m.visit room) := by
  induction room with
  | zero =>
      intro id pos s
      cases id with
      | none => exact Outcome.matched_restores pos s
      | some id => exact Outcome.abandoned_restores s m.verbosity pos
  | succ room ih =>
      intro id pos s
      cases id with
      | none => exact Outcome.matched_restores pos s
      | some id =>
          rw [Matcher.visit_succ]
          exact step_restores ih id pos s

/-- A walk remembers that a path was given up. -/
theorem Matcher.visit_keepsDeep (m : Matcher) (room : Nat) (id : Option NodeId) (pos : Nat)
    (s : State) : s.KeepsDeep (m.visit room id pos s).state :=
  (visit_restores m room id pos s).deep

@[simp] theorem Captures.get?_reset (c : Captures) (slot : Nat) : c.reset.get? slot = none := by
  unfold get? reset
  cases h : c.slots[slot]? <;> simp [h]

/-- However an attempt ends, it leaves tables for another one. -/
theorem attempt_sameSizes (m : Matcher) (limit pos : Nat) (s : State) :
    s.SameSizes (m.attempt limit pos s).state :=
  s.sameSizes_reset.trans (visit_restores m limit m.program.root pos s.reset).sizes

/-- A failed attempt leaves nothing captured, whatever was captured before it. -/
theorem attempt_captures {m : Matcher} {limit pos : Nat} {s t : State}
    (h : m.attempt limit pos s = .failed t) : t.captures = s.captures.reset :=
  ((visit_restores m limit m.program.root pos s.reset).tables t h).1

end ByteRegex
