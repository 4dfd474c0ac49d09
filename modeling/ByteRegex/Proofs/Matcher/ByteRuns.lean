import ByteRegex.Proofs.Matcher.Runs

/-!
# Runs byte by byte

A node for bytes finds the end of a run first and then goes on from the longest run to the
shortest. The same outcome comes from looking at one byte at a time: what follows the first byte
is tried after everything that follows more bytes. `afterBytes` is this recursion, and the form
in which a run can be compared with iterations of a group.
-/

namespace ByteRegex

/-- Failing after a failure. -/
theorem Outcome.orElse_fail (o : Outcome) : (o.orElse fun s => .failed s) = o := by
  cases o <;> rfl

/-- What follows some of the next `count` bytes, but at least one: it is tried after all of
them first, and after the first byte last. -/
def afterBytes (go : Continue) (next : Option NodeId) : (count pos : Nat) → State → Outcome
  | 0, _, s => .failed s
  | count + 1, pos, s =>
    (afterBytes go next count (pos + 1) s).orElse fun s => go next (pos + 1) s

/-- How many bytes of a run an occurrence may take. -/
def Repeat.reach (times : Repeat) (run : Nat) : Nat :=
  if times.isUnbounded then run else Nat.min run 1

theorem Repeat.reach_succ (times : Repeat) (run : Nat) :
    times.reach (run + 1) = (if times.isUnbounded then times.reach run else 0) + 1 := by
  unfold reach
  split
  · rfl
  · exact Nat.min_eq_right (Nat.le_add_left 1 run)

theorem Repeat.reach_le (times : Repeat) (run : Nat) : times.reach run ≤ run := by
  unfold reach
  split
  · exact Nat.le_refl run
  · exact Nat.min_le_left run 1

/-- The shortest run of a descent may be split off at the end instead of the longest at the
beginning. -/
theorem descend_succ (go : Continue) (next : Option NodeId) (low extra : Nat) (s : State) :
    descend go next low (extra + 1) s =
      (descend go next (low + 1) extra s).orElse fun s => go next low s := by
  induction extra generalizing s with
  | zero => rfl
  | succ extra ih =>
      have hlow : low + (extra + 1 + 1) = low + 1 + (extra + 1) := by omega
      rw [descend, hlow, descend]
      cases go next (low + 1 + (extra + 1)) s with
      | matched stop t => rfl
      | failed t => exact ih t
      | faulted fault t => rfl

theorem descend_eq_afterBytes (go : Continue) (next : Option NodeId) (low extra : Nat) (s : State) :
    descend go next low extra s =
      (afterBytes go next extra low s).orElse fun s => go next low s := by
  induction extra generalizing low with
  | zero => rfl
  | succ extra ih => rw [descend_succ, ih, afterBytes]

/-- A run is as long as the run behind its first byte and this byte. -/
theorem runLength_eq (text : Array UInt8) (accepted : ByteClass) (pos : Nat) :
    runLength text accepted pos =
      if text[pos]?.any accepted.accepts then runLength text accepted (pos + 1) + 1 else 0 := by
  unfold runLength
  cases hb : text[pos]? with
  | none => simp [drop_eq_nil_of_getElem? hb]
  | some b =>
      rw [drop_eq_cons_of_getElem? hb, List.takeWhile_cons, Option.any_some]
      split <;> rfl

theorem Matcher.matchBytes_once (m : Matcher) (go : Continue) (accepted : ByteClass)
    (next : Option NodeId) (pos : Nat) (s : State) :
    m.matchBytes go accepted .once next pos s =
      if m.text[pos]?.any accepted.accepts then go next (pos + 1) s else .failed s := by
  unfold matchBytes
  cases m.text[pos]? <;> rfl

theorem Matcher.matchBytes_optional (m : Matcher) (go : Continue) (accepted : ByteClass)
    (next : Option NodeId) (pos : Nat) (s : State) :
    m.matchBytes go accepted .optional next pos s =
      (m.matchBytes go accepted .once next pos s).orElse fun s => go next pos s := by
  rw [matchBytes_once]
  unfold matchBytes
  cases m.text[pos]? with
  | none => rfl
  | some b =>
      dsimp only [Option.any_some]
      split <;> rfl

/-- A node for bytes goes on after the bytes that it may take and, if it needs none, where it
is. Before that it may record an event. -/
theorem Matcher.matchBytes_eq_afterBytes (m : Matcher) (go : Continue) (accepted : ByteClass)
    (times : Repeat) (next : Option NodeId) {pos : Nat} (hpos : pos ≤ m.text.size) (s : State) :
    ∃ u, s.SameTables u ∧ m.matchBytes go accepted times next pos s =
      (afterBytes go next (times.reach (runLength m.text accepted pos)) pos u).orElse fun u =>
        if times.min = 0 then go next pos u else .failed u := by
  have hone : m.matchBytes go accepted .once next pos s =
      afterBytes go next (Repeat.once.reach (runLength m.text accepted pos)) pos s := by
    rw [matchBytes_once, runLength_eq]
    split
    · exact congrArg (afterBytes go next · pos s)
        (Nat.min_eq_right (Nat.le_add_left 1 _)).symm
    · rfl
  have hstop := runEnd_eq accepted m.text (m.text.size - pos) pos (by omega)
  generalize runLength m.text accepted pos = run at hone hstop ⊢
  cases times with
  | once =>
      refine ⟨s, State.SameTables.refl s, ?_⟩
      rw [hone]
      exact (Outcome.orElse_fail _).symm
  | optional =>
      refine ⟨s, State.SameTables.refl s, ?_⟩
      rw [matchBytes_optional, hone]
      rfl
  | star =>
      refine ⟨_, s.sameTables_note m.verbosity (.run (pos + run - pos) pos), ?_⟩
      simp only [matchBytes, Repeat.min, hpos, if_true, hstop, Nat.add_zero, Nat.le_add_right,
        Nat.add_sub_cancel_left]
      exact descend_eq_afterBytes go next pos run _
  | plus =>
      refine ⟨_, s.sameTables_note m.verbosity (.run (pos + run - pos) pos), ?_⟩
      simp only [matchBytes, Repeat.min, hpos, if_true, hstop]
      refine Eq.trans ?_ (Outcome.orElse_fail _).symm
      cases run with
      | zero => rw [if_neg (by omega)]; rfl
      | succ run =>
          have hextra : pos + (run + 1) - (pos + 1) = run := by omega
          rw [if_pos (by omega), hextra, descend_eq_afterBytes]
          rfl

end ByteRegex
