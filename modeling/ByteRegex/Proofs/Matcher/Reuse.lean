import ByteRegex.Proofs.Matcher.Counter
import ByteRegex.Proofs.Matcher.SideBySide

/-!
# A matcher in use

A matcher is used for one attempt after another. An attempt that matches leaves captures and starts
behind, and one that breaks off leaves them half written and the counter of nodes under way raised.
None of this reaches the next attempt, which empties the tables and sets the counter to 0 before it
begins. What is left is the events, which are only ever added to: `State.after` puts earlier events
below those of a state, and every evaluation commutes with it.

The sizes of the tables are never changed, not even by an attempt that breaks off. So each attempt
begins as the first one did, but for the events of the others.
-/

namespace ByteRegex

/-- The state with earlier events below its own. -/
def State.after (s : State) (earlier : List Event) : State :=
  { s with events := s.events ++ earlier }

/-- The same outcome after earlier events. -/
def Outcome.after (o : Outcome) (earlier : List Event) : Outcome :=
  match o with
  | .matched stop s => .matched stop (s.after earlier)
  | .failed s => .failed (s.after earlier)
  | .faulted fault s => .faulted fault (s.after earlier)

/-- Wherever it goes on, earlier events make no difference. -/
def Continue.AddsEvents (go : Continue) : Prop :=
  ∀ id pos s earlier, go id pos (s.after earlier) = (go id pos s).after earlier

/-! ## States -/

namespace State

variable (s : State) (earlier : List Event)

@[simp] theorem after_captures : (s.after earlier).captures = s.captures := rfl

@[simp] theorem after_starts : (s.after earlier).starts = s.starts := rfl

theorem after_note (limit : Level) (e : Event) :
    (s.after earlier).note limit e = (s.note limit e).after earlier := by
  unfold note
  split <;> rfl

theorem after_abandon (limit : Level) (pos : Nat) :
    (s.after earlier).abandon limit pos = (s.abandon limit pos).after earlier := by
  unfold abandon
  rw [after_note, show (s.after earlier).deep = s.deep from rfl]
  split <;> rfl

theorem after_setStart (slot pos : Nat) :
    (s.after earlier).setStart slot pos = (s.setStart slot pos).after earlier := rfl

theorem after_setCapture (slot : Nat) (value : Option Span) :
    (s.after earlier).setCapture slot value = (s.setCapture slot value).after earlier := rfl

/-- At the start of an attempt there is nothing in the tables, whatever was in them. -/
theorem reset_eq_fresh {s : State} {n : Nat} (h : s.HasSlots n) :
    s.reset = (fresh n).reset.after s.events := by
  have hfresh := hasSlots_fresh n
  have hcaptures := (reset_captures h).trans (reset_captures hfresh).symm
  have hstarts := (reset_starts h).trans (reset_starts hfresh).symm
  exact congrArg₂ (fun captures starts => State.mk captures starts false s.events) hcaptures hstarts

end State

/-! ## Outcomes -/

namespace Outcome

variable (o : Outcome) (earlier : List Event)

theorem after_orElse {next : State → Outcome}
    (hnext : ∀ s, next (s.after earlier) = (next s).after earlier) :
    (o.after earlier).orElse next = (o.orElse next).after earlier := by
  cases o with
  | matched stop s => rfl
  | failed s => exact hnext s
  | faulted fault s => rfl

theorem after_onFailure {undo : State → State}
    (hundo : ∀ s, undo (s.after earlier) = (undo s).after earlier) :
    (o.after earlier).onFailure undo = (o.onFailure undo).after earlier :=
  o.after_orElse earlier fun s => congrArg failed (hundo s)

end Outcome

/-! ## Nodes -/

section

variable {m : Matcher} {go : Continue} (hgo : go.AddsEvents) (earlier : List Event)
include hgo

theorem descend_after (next : Option NodeId) (low extra : Nat) (s : State) :
    descend go next low extra (s.after earlier) = (descend go next low extra s).after earlier := by
  induction extra generalizing s with
  | zero => exact hgo next low s earlier
  | succ extra ih =>
      rw [descend, descend, hgo]
      exact Outcome.after_orElse _ earlier ih

theorem matchBytes_after (accepted : ByteClass) (times : Repeat) (next : Option NodeId) (pos : Nat)
    (s : State) :
    m.matchBytes go accepted times next pos (s.after earlier) =
      (m.matchBytes go accepted times next pos s).after earlier := by
  cases times with
  | once =>
      unfold Matcher.matchBytes
      dsimp only
      split
      · split
        · exact hgo next (pos + 1) s earlier
        · rfl
      · rfl
  | optional =>
      unfold Matcher.matchBytes
      dsimp only
      split
      · split
        · rw [hgo]
          exact Outcome.after_orElse _ earlier fun t => hgo next pos t earlier
        · exact hgo next pos s earlier
      · exact hgo next pos s earlier
  | star | plus =>
      unfold Matcher.matchBytes
      dsimp only
      rw [State.after_note]
      split
      · split
        · exact descend_after hgo earlier _ _ _ _
        · rfl
      · rfl

theorem matchReference_after (slot : Nat) (next : Option NodeId) (pos : Nat) (s : State) :
    m.matchReference go slot next pos (s.after earlier) =
      (m.matchReference go slot next pos s).after earlier := by
  unfold Matcher.matchReference
  rw [State.after_captures, State.after_note]
  cases s.captures.get? slot with
  | none => rfl
  | some captured =>
      dsimp only
      split
      · split
        · exact hgo next _ s earlier
        · rfl
      · rfl

theorem tryAlternatives_after (slot pos i : Nat) (entries : List NodeId) (s : State) :
    m.tryAlternatives go slot pos i entries (s.after earlier) =
      (m.tryAlternatives go slot pos i entries s).after earlier := by
  induction entries generalizing i s with
  | nil => rfl
  | cons entry others ih =>
      rw [Matcher.tryAlternatives, Matcher.tryAlternatives, State.after_note, hgo]
      exact Outcome.after_orElse _ earlier fun t => ih (i + 1) t

theorem enterGroup_after (slot : Nat) (entries : List NodeId) (pos : Nat) (s : State) :
    m.enterGroup go slot entries pos (s.after earlier) =
      (m.enterGroup go slot entries pos s).after earlier := by
  unfold Matcher.enterGroup
  rw [State.after_starts]
  cases s.starts[slot]? with
  | none => rfl
  | some saved =>
      dsimp only
      rw [State.after_setStart, tryAlternatives_after hgo]
      exact Outcome.after_onFailure _ earlier fun t => t.after_setStart earlier slot saved

theorem matchHead_after (slot : Nat) (times : Repeat) (entries : List NodeId) (tail : NodeId)
    (pos : Nat) (s : State) :
    m.matchHead go slot times entries tail pos (s.after earlier) =
      (m.matchHead go slot times entries tail pos s).after earlier := by
  unfold Matcher.matchHead
  rw [enterGroup_after hgo]
  refine Outcome.after_orElse _ earlier fun t => ?_
  rw [State.after_note]
  split
  · rfl
  · cases m.program.nodes[tail]? with
    | none => rfl
    | some node =>
        cases node with
        | groupTail _ _ next => exact hgo next pos _ earlier
        | _ => rfl

theorem matchTail_after (slot : Nat) (head : NodeId) (next : Option NodeId) (pos : Nat)
    (s : State) :
    m.matchTail go slot head next pos (s.after earlier) =
      (m.matchTail go slot head next pos s).after earlier := by
  unfold Matcher.matchTail
  rw [State.after_starts, State.after_captures]
  cases s.starts[slot]? with
  | none => rfl
  | some start =>
      dsimp only
      split
      · cases s.captures.slots[slot]? with
        | none => rfl
        | some previous =>
            dsimp only
            rw [State.after_setCapture]
            cases m.program.nodes[head]? with
            | none => rfl
            | some node =>
                dsimp only
                have hnext : ∀ t : State, go next pos (t.after earlier) =
                    (go next pos t).after earlier := fun t => hgo next pos t earlier
                have hundo : ∀ t : State, (t.after earlier).setCapture slot previous =
                    (t.setCapture slot previous).after earlier :=
                  fun t => t.after_setCapture earlier slot previous
                cases Matcher.againAt node start pos with
                | none =>
                    rw [Outcome.orElse_failed, Outcome.orElse_failed, hnext,
                      Outcome.after_onFailure _ earlier hundo]
                | some entries =>
                    dsimp only
                    rw [enterGroup_after hgo, Outcome.after_orElse _ earlier hnext,
                      Outcome.after_onFailure _ earlier hundo]
      · rfl

theorem step_after (id : NodeId) (pos : Nat) (s : State) :
    m.step go id pos (s.after earlier) = (m.step go id pos s).after earlier := by
  unfold Matcher.step
  split
  · rfl
  · exact matchBytes_after hgo earlier _ _ _ pos s
  · exact matchReference_after hgo earlier _ _ pos s
  · exact matchHead_after hgo earlier _ _ _ _ pos s
  · exact matchTail_after hgo earlier _ _ _ pos s
  · split <;> rfl

end

/-! ## Walks -/

/-- The induction is on the room: a node has less of it left for what follows. -/
theorem visit_addsEvents (m : Matcher) (room : Nat) : Continue.AddsEvents (m.visit room) := by
  induction room with
  | zero =>
      intro id pos s earlier
      cases id with
      | none => rfl
      | some id => exact congrArg Outcome.failed (s.after_abandon earlier m.verbosity pos)
  | succ room ih =>
      intro id pos s earlier
      cases id with
      | none => rfl
      | some id => exact step_after ih earlier id pos s

namespace Matcher

/-- An attempt ends as the first one does, whatever was done before it. -/
theorem attempt_eq_fresh (m : Matcher) (limit pos : Nat) {s : State}
    (hs : s.HasSlots m.program.slots) :
    m.attempt limit pos s = (m.attempt limit pos m.fresh).after s.events := by
  rw [attempt, State.reset_eq_fresh hs]
  exact visit_addsEvents m limit m.program.root pos m.fresh.reset s.events

theorem matchEach_forall₂ (m : Matcher) (positions : List Nat) {s : State}
    (hs : s.HasSlots m.program.slots) :
    List.Forall₂ (fun pos o => ∃ earlier, o = (m.matchAt pos m.fresh).after earlier) positions
      (m.matchEach positions s) := by
  induction positions generalizing s with
  | nil => exact .nil
  | cons pos rest ih =>
      have hrest := ih (hs.attempt m maxDepth pos)
      exact .cons ⟨s.events, m.attempt_eq_fresh maxDepth pos hs⟩ hrest

end Matcher

namespace Counted

/-- An attempt sets the counter to 0, wherever it was left. -/
def attempt (m : Matcher) (limit fuel pos : Nat) (s : State) : Counted := fun _ =>
  visit m limit fuel m.program.root pos s.reset 0

/-- One attempt for each position, each with the state and the counter that the one before it left.
There are no outcomes if one of the attempts runs out of fuel. -/
def attemptEach (m : Matcher) (limit fuel : Nat) : List Nat → State → Nat → Option (List Outcome)
  | [], _, _ => some []
  | pos :: rest, s, depth =>
    match attempt m limit fuel pos s depth with
    | some (o, after) => (attemptEach m limit fuel rest o.state after).map (o :: ·)
    | none => none

theorem exists_attempt_eq (m : Matcher) {limit fuel : Nat} (hfuel : limit < fuel) (pos : Nat)
    (s : State) (depth : Nat) :
    ∃ after, attempt m limit fuel pos s depth = some (m.attempt limit pos s, after) :=
  (visit_follows m limit fuel (.inl (Nat.zero_add limit)) m.program.root pos s.reset).exists_eq_some
    hfuel

theorem attemptEach_eq (m : Matcher) {fuel : Nat} (hfuel : maxDepth < fuel) (positions : List Nat)
    (s : State) (depth : Nat) :
    attemptEach m maxDepth fuel positions s depth = some (m.matchEach positions s) := by
  induction positions generalizing s depth with
  | nil => rfl
  | cons pos rest ih =>
      obtain ⟨after, hattempt⟩ := exists_attempt_eq m hfuel pos s depth
      rw [attemptEach, hattempt]
      dsimp only
      rw [ih]
      rfl

end Counted

/-- Attempts in a row, on any program, well formed or not, and from any positions, also beyond the
text, end as each of them would with a matcher that has never been used: at the same position, in a
failure or with the same fault, and with the same captures, starts, mark and events of its own. That
some of them break off makes no difference: each begins with the tables that the one before it left,
half written or not, and with the counter of nodes under way where it was left, if there is one. -/
theorem reused_matcher_is_as_new (m : Matcher) (s : State) (h : m.fresh? = .ok s)
    (positions : List Nat) :
    List.Forall₂ (fun pos o => ∃ earlier, o = (m.matchAt pos s).after earlier) positions
      (m.matchEach positions s) ∧
    ∀ fuel depth, maxDepth < fuel →
      Counted.attemptEach m maxDepth fuel positions s depth = some (m.matchEach positions s) := by
  have hfresh : m.fresh = s := by
    unfold Matcher.fresh? at h
    split at h
    · exact Except.ok.inj h
    · cases h
  subst hfresh
  exact ⟨m.matchEach_forall₂ positions (State.hasSlots_fresh _),
    fun fuel depth hfuel => Counted.attemptEach_eq m hfuel positions m.fresh depth⟩

/-- A graph that begins with the tail of its group, and leads to a node that there is not. -/
def frayed : Program where
  nodes := #[.groupTail 0 1 (some 1), .groupHead 0 .once [2] 0, .bytes (.literal 97) .once (some 5)]
  root := some 0
  slots := 1

/-- Where there is an `a` the attempt breaks off, with a capture and a start left behind. The start
that is left at 2 is behind the position 0, from which the next attempt captures all the same. -/
theorem reused_matcher_is_as_new_frayed :
    let m : Matcher := { program := frayed, text := #[97, 98, 97] }
    let broken (pos : Nat) : Outcome :=
      .faulted (.noNode 5) { captures := ⟨#[some ⟨0, pos⟩]⟩, starts := #[pos] }
    m.fresh? = .ok (.fresh 1) ∧
      m.matchEach [2, 0, 4, 1, 2] (.fresh 1) =
        [broken 2, broken 0, .faulted (.noPiece 0 4) (.fresh 1), .failed (.fresh 1), broken 2] ∧
      List.Forall₂ (fun pos o => ∃ earlier, o = (m.matchAt pos (.fresh 1)).after earlier)
        [2, 0, 4, 1, 2] (m.matchEach [2, 0, 4, 1, 2] (.fresh 1)) ∧
      Counted.attemptEach m maxDepth 4097 [2, 0, 4, 1, 2] (.fresh 1) 7 =
        some (m.matchEach [2, 0, 4, 1, 2] (.fresh 1)) := by
  intro m broken
  have hfresh : m.fresh? = .ok (.fresh 1) := by decide +kernel
  obtain ⟨heach, hcounted⟩ := reused_matcher_is_as_new m (.fresh 1) hfresh [2, 0, 4, 1, 2]
  exact ⟨hfresh, by decide +kernel, heach, hcounted 4097 7 (by decide)⟩

end ByteRegex
