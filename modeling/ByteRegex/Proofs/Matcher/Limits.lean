import ByteRegex.Proofs.Matcher.SideBySide

/-!
# Attempts under different limits

A path that is given up for depth looks like any other failure to what comes after it, so it
may change what is tried next. But it is marked. An evaluation whose state bears no mark at the
end has met its limit nowhere, and with more room it takes the same steps: it ends in the same
way, at the same position, with the same tables and events.

Nothing is asked of the graph. A graph with a circle may use up any room, and then the mark is
there.
-/

namespace ByteRegex

/-- Unless the first evaluation has given up a path, the second ends exactly as it does. -/
def Outcome.Settles (o o' : Outcome) : Prop :=
  o.state.deep = false → o' = o

/-- Wherever they go on, the first way to do so settles the second. -/
def Continue.Settles (go go' : Continue) : Prop :=
  ∀ id pos s, (go id pos s).Settles (go' id pos s)

namespace Outcome

variable {o o' : Outcome}

theorem Settles.refl (o : Outcome) : o.Settles o :=
  fun _ => rfl

/-- Giving up a path settles nothing. -/
theorem abandoned_settles (s : State) (limit : Level) (pos : Nat) (o' : Outcome) :
    (failed (s.abandon limit pos)).Settles o' :=
  fun h => absurd ((s.abandon_deep limit pos).symm.trans h) nofun

/-- What is tried after a failure keeps the mark, so there is none after the first part if there
is none in the end. -/
theorem Settles.orElse {f g : State → Outcome} (h : o.Settles o')
    (hnext : ∀ s, (f s).Settles (g s)) (hkeep : ∀ s : State, s.KeepsDeep (f s).state) :
    (o.orElse f).Settles (o'.orElse g) := by
  intro hdeep
  rw [h (deep_of_orElse hkeep hdeep)]
  cases o with
  | matched stop s => rfl
  | failed s => exact hnext s hdeep
  | faulted fault s => rfl

theorem Settles.onFailure (h : o.Settles o') {undo : State → State}
    (hkeep : ∀ s : State, s.KeepsDeep (undo s)) :
    (o.onFailure undo).Settles (o'.onFailure undo) :=
  h.orElse (fun s => .refl (failed (undo s))) hkeep

end Outcome

/-! ## Nodes -/

section

variable {m : Matcher} {go go' : Continue} (hgo : go.Settles go') (hrestores : go.Restores)
include hgo hrestores

theorem descend_settles (next : Option NodeId) (low extra : Nat) (s : State) :
    (descend go next low extra s).Settles (descend go' next low extra s) := by
  induction extra generalizing s with
  | zero => exact hgo next low s
  | succ extra ih =>
      exact (hgo next (low + (extra + 1)) s).orElse ih
        fun t => (descend_restores hrestores next low extra t).deep

theorem matchBytes_settles (accepted : ByteClass) (times : Repeat) (next : Option NodeId)
    (pos : Nat) (s : State) :
    (m.matchBytes go accepted times next pos s).Settles
      (m.matchBytes go' accepted times next pos s) := by
  cases times with
  | once =>
      unfold Matcher.matchBytes
      dsimp only
      split
      · split
        · exact hgo next (pos + 1) s
        · exact .refl _
      · exact .refl _
  | optional =>
      unfold Matcher.matchBytes
      dsimp only
      split
      · split
        · exact (hgo next (pos + 1) s).orElse (hgo next pos) fun t => (hrestores next pos t).deep
        · exact hgo next pos s
      · exact hgo next pos s
  | star | plus =>
      unfold Matcher.matchBytes
      dsimp only
      split
      · split
        · exact descend_settles hgo hrestores _ _ _ _
        · exact .refl _
      · exact .refl _

omit hrestores in
theorem matchReference_settles (slot : Nat) (next : Option NodeId) (pos : Nat) (s : State) :
    (m.matchReference go slot next pos s).Settles (m.matchReference go' slot next pos s) := by
  unfold Matcher.matchReference
  split
  · exact .refl _
  · split
    · split
      · exact hgo next _ s
      · exact .refl _
    · exact .refl _

theorem tryAlternatives_settles (slot pos i : Nat) (entries : List NodeId) (s : State) :
    (m.tryAlternatives go slot pos i entries s).Settles
      (m.tryAlternatives go' slot pos i entries s) := by
  induction entries generalizing i s with
  | nil => exact .refl _
  | cons entry others ih =>
      exact (hgo (some entry) pos _).orElse (ih (i + 1))
        fun t => (tryAlternatives_restores hrestores slot pos (i + 1) others t).deep

theorem enterGroup_settles (slot : Nat) (entries : List NodeId) (pos : Nat) (s : State) :
    (m.enterGroup go slot entries pos s).Settles (m.enterGroup go' slot entries pos s) := by
  unfold Matcher.enterGroup
  split
  · exact .refl _
  · exact (tryAlternatives_settles hgo hrestores slot pos 0 entries _).onFailure fun _ => id

theorem matchHead_settles (slot : Nat) (times : Repeat) (entries : List NodeId) (tail : NodeId)
    (pos : Nat) (s : State) :
    (m.matchHead go slot times entries tail pos s).Settles
      (m.matchHead go' slot times entries tail pos s) := by
  refine (enterGroup_settles hgo hrestores slot entries pos s).orElse (fun t => ?_) fun t => ?_
  · split
    · exact .refl _
    · cases m.program.nodes[tail]? with
      | none => exact .refl _
      | some node =>
          cases node with
          | groupTail _ _ next => exact hgo next pos _
          | _ => exact .refl _
  · exact (skipGroup_restores hrestores slot times tail pos t).deep

theorem matchTail_settles (slot : Nat) (head : NodeId) (next : Option NodeId) (pos : Nat)
    (s : State) :
    (m.matchTail go slot head next pos s).Settles (m.matchTail go' slot head next pos s) := by
  unfold Matcher.matchTail
  split
  · exact .refl _
  next start hstart =>
  split
  · split
    · exact .refl _
    next previous hprevious =>
    split
    · exact .refl _
    next node hnode =>
    refine .onFailure (.orElse ?_ (hgo next pos) fun t => (hrestores next pos t).deep) fun _ => id
    cases Matcher.againAt node start pos with
    | none => exact .refl _
    | some entries => exact enterGroup_settles hgo hrestores slot entries pos _
  · exact .refl _

theorem step_settles (id : NodeId) (pos : Nat) (s : State) :
    (m.step go id pos s).Settles (m.step go' id pos s) := by
  unfold Matcher.step
  split
  · exact .refl _
  · exact matchBytes_settles hgo hrestores _ _ _ pos s
  · exact matchReference_settles hgo _ _ pos s
  · exact matchHead_settles hgo hrestores _ _ _ _ pos s
  · exact matchTail_settles hgo hrestores _ _ _ pos s
  · exact .refl _

end

/-! ## Walks -/

/-- The induction is on the lesser room. Where it is used up, a path is given up. -/
theorem visit_settles (m : Matcher) {room more : Nat} (hroom : room ≤ more) :
    Continue.Settles (m.visit room) (m.visit more) := by
  induction room generalizing more with
  | zero =>
      intro id pos s
      cases id with
      | none => rw [Matcher.visit_none, Matcher.visit_none]; exact .refl _
      | some id => exact Outcome.abandoned_settles s m.verbosity pos _
  | succ room ih =>
      intro id pos s
      cases id with
      | none => rw [Matcher.visit_none, Matcher.visit_none]; exact .refl _
      | some id =>
          obtain ⟨more, rfl⟩ := Nat.exists_eq_succ_of_ne_zero (Nat.ne_zero_of_lt hroom)
          exact step_settles (ih (Nat.le_of_succ_le_succ hroom)) (visit_restores m room) id pos s

/-- An attempt that has given up no path is the same under any higher limit: on any program, well
formed or not, on any text and from any position and state, it ends in the same way, at the same
position or with the same fault, and leaves the same captures, starts and events. Nor does the
attempt under the higher limit give up a path.

`Matcher.matchAt` is the attempt with the limit `maxDepth`. -/
theorem higher_limit_changes_nothing (m : Matcher) (limit limit' pos : Nat) (s : State)
    (hlimit : limit ≤ limit') (hdeep : (m.attempt limit pos s).state.deep = false) :
    m.attempt limit' pos s = m.attempt limit pos s ∧
      (m.attempt limit' pos s).state.deep = false := by
  have hsame : m.attempt limit' pos s = m.attempt limit pos s :=
    visit_settles m hlimit m.program.root pos s.reset hdeep
  exact ⟨hsame, hsame ▸ hdeep⟩

/-- Once around the circle of `ring` takes a limit of six. With five the attempt gives up a path
and fails; with `maxDepth` it does what it does with six. -/
theorem higher_limit_changes_nothing_ring :
    let m : Matcher := { program := ring, text := #[97, 98] }
    let t : State := { captures := ⟨#[some ⟨0, 2⟩, none]⟩, starts := #[0, 2] }
    6 ≤ maxDepth ∧ (m.attempt 6 1 (.fresh 2)).state.deep = false ∧
      m.matchAt 1 (.fresh 2) = .matched 2 t ∧
      (m.attempt 5 1 (.fresh 2)).state.deep = true ∧
      m.attempt 5 1 (.fresh 2) ≠ m.matchAt 1 (.fresh 2) := by
  intro m t
  have hround : m.attempt 6 1 (.fresh 2) = .matched 2 t := by decide +kernel
  have hlimit : 6 ≤ maxDepth := by decide
  have hdeep : (m.attempt 6 1 (.fresh 2)).state.deep = false := by rw [hround]; rfl
  have hcut : (m.attempt 5 1 (.fresh 2)).state.deep = true := by decide +kernel
  obtain ⟨hsame, hnot⟩ := higher_limit_changes_nothing m 6 maxDepth 1 (.fresh 2) hlimit hdeep
  refine ⟨hlimit, hdeep, hsame.trans hround, hcut, fun heq => ?_⟩
  rw [heq] at hcut
  exact Bool.false_ne_true (hnot.symm.trans hcut)

end ByteRegex
