import ByteRegex.Proofs.Matcher.Restoration

/-!
# Positions beyond the text

An attempt may be asked for at a position behind the end of the text. No byte is there, so a single
byte fails and an optional one is passed over; a run of bytes and the tail of a group ask for a
piece of the text that does not exist and break off; a reference finds its slot unset. What is left
are the heads of groups and the ends of chains, and they stay where they are.

So the position never moves and nothing is ever captured, on any graph. The two go together: a
reference that found something captured could move the position, and a position within the text is
what a tail needs to capture something.
-/

namespace ByteRegex

/-- Unless it broke off, the evaluation ended at `pos`, with the captures `c`. -/
inductive Outcome.Stays (pos : Nat) (c : Captures) : Outcome → Prop
  | matched {s : State} (captures : s.captures = c) : Stays pos c (.matched pos s)
  | failed {s : State} (captures : s.captures = c) : Stays pos c (.failed s)
  | faulted (fault : Fault) (s : State) : Stays pos c (.faulted fault s)

/-- Wherever it goes on from `pos`, the position and the captures stay. -/
def Continue.Stays (go : Continue) (pos : Nat) (c : Captures) : Prop :=
  ∀ id s, s.captures = c → (go id pos s).Stays pos c

namespace Outcome.Stays

variable {o : Outcome} {pos : Nat} {c : Captures}

theorem orElse {next : State → Outcome} (h : o.Stays pos c)
    (hnext : ∀ s : State, s.captures = c → (next s).Stays pos c) : (o.orElse next).Stays pos c := by
  cases h with
  | matched captures => exact .matched captures
  | failed captures => exact hnext _ captures
  | faulted fault s => exact .faulted fault s

theorem onFailure {undo : State → State} (h : o.Stays pos c)
    (hundo : ∀ s : State, (undo s).captures = s.captures) : (o.onFailure undo).Stays pos c :=
  h.orElse fun s hs => .failed ((hundo s).trans hs)

end Outcome.Stays

/-! ## Nodes -/

section

variable {m : Matcher} {go : Continue} {pos : Nat} {c : Captures} {s : State}
  (hgo : go.Stays pos c) (hpos : m.text.size < pos) (hs : s.captures = c)

include hgo hpos hs in
theorem matchBytes_stays (accepted : ByteClass) (times : Repeat) (next : Option NodeId) :
    (m.matchBytes go accepted times next pos s).Stays pos c := by
  have hnone : m.text[pos]? = none := Array.getElem?_eq_none (Nat.le_of_lt hpos)
  cases times with
  | once =>
      simp only [Matcher.matchBytes, hnone]
      exact .failed hs
  | optional =>
      simp only [Matcher.matchBytes, hnone]
      exact hgo next s hs
  | star | plus =>
      simp only [Matcher.matchBytes, if_neg (Nat.not_le.mpr hpos)]
      exact .faulted _ s

include hs in
theorem matchReference_stays (hunset : ∀ slot, c.get? slot = none) (slot : Nat)
    (next : Option NodeId) : (m.matchReference go slot next pos s).Stays pos c := by
  simp only [Matcher.matchReference, hs, hunset slot]
  exact .failed ((s.note_captures _ _).trans hs)

include hgo in
theorem tryAlternatives_stays (slot i : Nat) (entries : List NodeId) (hs : s.captures = c) :
    (m.tryAlternatives go slot pos i entries s).Stays pos c := by
  induction entries generalizing i s with
  | nil => exact .failed hs
  | cons entry others ih =>
      have hnote : (s.note m.verbosity (.alternative slot i pos)).captures = c :=
        (s.note_captures _ _).trans hs
      exact (hgo (some entry) _ hnote).orElse fun t ht => ih (i + 1) ht

include hgo hs in
theorem enterGroup_stays (slot : Nat) (entries : List NodeId) :
    (m.enterGroup go slot entries pos s).Stays pos c := by
  unfold Matcher.enterGroup
  split
  · exact .faulted _ s
  · have hentered : (s.setStart slot pos).captures = c := hs
    exact (tryAlternatives_stays hgo slot 0 entries hentered).onFailure fun _ => rfl

include hgo hs in
theorem matchHead_stays (slot : Nat) (times : Repeat) (entries : List NodeId) (tail : NodeId) :
    (m.matchHead go slot times entries tail pos s).Stays pos c := by
  refine (enterGroup_stays hgo hs slot entries).orElse fun t ht => ?_
  have hnote : (t.note m.verbosity (.skipped slot pos)).captures = c :=
    (t.note_captures _ _).trans ht
  split
  · exact .failed ht
  · dsimp only
    split
    · exact .faulted _ _
    · exact hgo _ _ hnote
    · exact .failed hnote

include hpos in
/-- There is no piece that ends behind the text. -/
theorem matchTail_stays (slot : Nat) (head : NodeId) (next : Option NodeId) :
    (m.matchTail go slot head next pos s).Stays pos c := by
  unfold Matcher.matchTail
  split
  · exact .faulted _ s
  next start _ =>
  have houtside : ¬ (start ≤ pos ∧ pos ≤ m.text.size) := fun h => Nat.not_le.mpr hpos h.2
  rw [if_neg houtside]
  exact .faulted _ s

include hgo hpos hs in
theorem step_stays (hunset : ∀ slot, c.get? slot = none) (id : NodeId) :
    (m.step go id pos s).Stays pos c := by
  unfold Matcher.step
  split
  · exact .faulted _ s
  · exact matchBytes_stays hgo hpos hs _ _ _
  · exact matchReference_stays hs hunset _ _
  · exact matchHead_stays hgo hs _ _ _ _
  · exact matchTail_stays hpos _ _ _
  · rw [if_neg (Nat.ne_of_gt hpos)]
    exact .failed hs

end

/-! ## Walks -/

/-- The induction is on the room: a node has less of it left for what follows. -/
theorem visit_stays {m : Matcher} {pos : Nat} (hpos : m.text.size < pos) {c : Captures}
    (hunset : ∀ slot, c.get? slot = none) (room : Nat) : Continue.Stays (m.visit room) pos c := by
  induction room with
  | zero =>
      intro id s hs
      cases id with
      | none => exact .matched hs
      | some id => exact .failed ((s.sameTables_abandon m.verbosity pos).1.trans hs)
  | succ room ih =>
      intro id s hs
      cases id with
      | none => exact .matched hs
      | some id => exact step_stays ih hpos hs hunset id

/-- An attempt from a position beyond the text, on any program, well formed or not, under any limit
and from whatever state, breaks off, fails or matches at that very position. If it does not break
off, every slot is unset.

`Matcher.matchAt` is the attempt with the limit `maxDepth`. -/
theorem attempt_beyond_text_stays (m : Matcher) (limit pos : Nat) (s : State)
    (hpos : m.text.size < pos) :
    (∃ fault t, m.attempt limit pos s = .faulted fault t) ∨
      ∃ t, (m.attempt limit pos s = .failed t ∨ m.attempt limit pos s = .matched pos t) ∧
        t.captures = s.captures.reset ∧ ∀ slot, t.captures.get? slot = none := by
  have hunset : ∀ slot, s.captures.reset.get? slot = none := s.captures.get?_reset
  have hstays : (m.attempt limit pos s).Stays pos s.captures.reset :=
    visit_stays hpos hunset limit m.program.root s.reset rfl
  generalize m.attempt limit pos s = o at hstays ⊢
  cases hstays with
  | matched captures => exact .inr ⟨_, .inr rfl, captures, captures ▸ hunset⟩
  | failed captures => exact .inr ⟨_, .inl rfl, captures, captures ▸ hunset⟩
  | faulted fault t => exact .inl ⟨fault, t, rfl⟩

/-- An optional byte before a group, a run before the same byte, and a reference: the attempt at the
position 3 over a text of one byte passes the first over and matches, breaks off at the second and
fails at the third. The slot that was set before is unset after it. -/
theorem attempt_beyond_text_stays_three :
    let m (root : NodeId) : Matcher := {
      program := {
        nodes := #[.bytes .any .optional (some 1), .groupHead 0 .star [2] 3,
          .bytes (.literal 97) .once (some 3), .groupTail 0 1 none, .bytes .any .star (some 0),
          .backreference 0 (some 0)]
        root := some root
        slots := 1 }
      text := #[97] }
    let s : State := { captures := ⟨#[some ⟨0, 1⟩]⟩, starts := #[1] }
    (m 0).text.size < 3 ∧
      (∃ t, (m 0).attempt 9 3 s = .matched 3 t ∧ t.captures.get? 0 = none) ∧
      (∃ fault t, (m 4).attempt 9 3 s = .faulted fault t) ∧
      ∃ t, (m 5).attempt 9 3 s = .failed t ∧ t.captures.get? 0 = none := by
  intro m s
  have hpos : (m 0).text.size < 3 := by decide
  have hmatched : (m 0).attempt 9 3 s = .matched 3 (.fresh 1) := by decide +kernel
  have hbroken : (m 4).attempt 9 3 s = .faulted (.noPiece 3 1) (.fresh 1) := by decide +kernel
  have hfailed : (m 5).attempt 9 3 s = .failed (.fresh 1) := by decide +kernel
  refine ⟨hpos, ?_, ⟨_, _, hbroken⟩, ?_⟩
  · obtain ⟨_, _, h⟩ | ⟨t, h, -, hunset⟩ := attempt_beyond_text_stays (m 0) 9 3 s hpos
    · cases hmatched.symm.trans h
    · exact ⟨t, h.resolve_left fun h => (nomatch hmatched.symm.trans h), hunset 0⟩
  · obtain ⟨_, _, h⟩ | ⟨t, h, -, hunset⟩ := attempt_beyond_text_stays (m 5) 9 3 s hpos
    · cases hfailed.symm.trans h
    · exact ⟨t, h.resolve_right fun h => (nomatch hfailed.symm.trans h), hunset 0⟩

end ByteRegex
