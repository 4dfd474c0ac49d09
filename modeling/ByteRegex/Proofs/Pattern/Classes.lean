import ByteRegex.Proofs.Pattern.Phrases

/-!
# Where a class ends

A class ends with the first `]` behind its bracket, or behind the `^` that negates
it. From there on a text is read as if the class were one item. Where no `]` comes,
the rest of the text is in the class and the text is no pattern.
-/

namespace ByteRegex

/-- What is left of a text behind a `^`, if it begins with one. -/
def skipCaret : List UInt8 → List UInt8
  | b :: rest => if b = '^'.toUInt8 then rest else b :: rest
  | [] => []

/-- What is left behind the first `]` of a class whose members begin here,
perhaps with a `^` that negates it. -/
def behindClass? (bytes : List UInt8) : Option (List UInt8) :=
  match (skipCaret bytes).dropWhile (· ≠ ']'.toUInt8) with
  | _ :: rest => some rest
  | [] => none

theorem length_skipCaret_le (bytes : List UInt8) : (skipCaret bytes).length ≤ bytes.length := by
  cases bytes with
  | nil => exact Nat.le_refl 0
  | cons b rest => by_cases hb : b = '^'.toUInt8 <;> simp [skipCaret, hb]

/-- What is left behind a class is less. -/
theorem length_behindClass? {bytes rest : List UInt8} (h : behindClass? bytes = some rest) :
    rest.length < bytes.length := by
  have hcaret := length_skipCaret_le bytes
  have hdrop := (List.dropWhile_suffix (l := skipCaret bytes) (· ≠ ']'.toUInt8)).length_le
  unfold behindClass? at h
  split at h
  next b others hbracket =>
    cases h
    rw [hbracket, List.length_cons] at hdrop
    omega
  next => cases h

/-- Up to the first `]` and behind it, if there is one. -/
theorem bracket_cases (bytes : List UInt8) :
    (∃ written behind, ']'.toUInt8 ∉ written ∧ bytes = written ++ ']'.toUInt8 :: behind) ∨
      ']'.toUInt8 ∉ bytes := by
  by_cases hmem : ']'.toUInt8 ∈ bytes
  · obtain ⟨written, behind, hbytes, hfirst⟩ := List.eq_append_cons_of_mem hmem
    exact .inl ⟨written, behind, hfirst, hbytes⟩
  · exact .inr hmem

/-- What is not a `]` is passed over. -/
theorem passed_of_no_bracket {bytes : List UInt8} (h : ']'.toUInt8 ∉ bytes) :
    ∀ b ∈ bytes, decide (b ≠ ']'.toUInt8) = true := by
  intro b hb
  exact decide_eq_true fun heq => h (heq ▸ hb)

theorem takeWhile_bracket {written : List UInt8} (h : ']'.toUInt8 ∉ written)
    (behind : List UInt8) :
    (written ++ ']'.toUInt8 :: behind).takeWhile (· ≠ ']'.toUInt8) = written := by
  rw [List.takeWhile_append_of_pos (passed_of_no_bracket h)]
  simp

theorem dropWhile_bracket {written : List UInt8} (h : ']'.toUInt8 ∉ written)
    (behind : List UInt8) :
    (written ++ ']'.toUInt8 :: behind).dropWhile (· ≠ ']'.toUInt8) = ']'.toUInt8 :: behind := by
  rw [List.dropWhile_append_of_pos (passed_of_no_bracket h)]
  simp

theorem dropWhile_of_no_bracket {bytes : List UInt8} (h : ']'.toUInt8 ∉ bytes) :
    bytes.dropWhile (· ≠ ']'.toUInt8) = [] := by
  rw [← List.append_nil bytes, List.dropWhile_append_of_pos (passed_of_no_bracket h)]
  rfl

/-- A `^` right behind the bracket negates the class, which else does not begin
with one. -/
theorem skipCaret_cases (bytes : List UInt8) :
    bytes = '^'.toUInt8 :: skipCaret bytes ∨
      skipCaret bytes = bytes ∧ bytes.head? ≠ some '^'.toUInt8 := by
  cases bytes with
  | nil => exact .inr ⟨rfl, by simp⟩
  | cons b rest =>
      by_cases hb : b = '^'.toUInt8
      · left
        rw [skipCaret, if_pos hb, hb]
      · right
        exact ⟨by rw [skipCaret, if_neg hb], by simpa using hb⟩

/-- A bracket begins a class, which reads as one item, or is never closed. -/
theorem class_cases (bytes : List UInt8) :
    (∃ written negated behind, ClassBytes written negated ∧
      (negated = true ↔ bytes.head? = some '^'.toUInt8) ∧
      bytes = (if negated then ['^'.toUInt8] else []) ++ written ++ ']'.toUInt8 :: behind ∧
      skipCaret bytes = written ++ ']'.toUInt8 :: behind ∧ behindClass? bytes = some behind) ∨
    (']'.toUInt8 ∉ skipCaret bytes ∧ behindClass? bytes = none) := by
  rcases bracket_cases (skipCaret bytes) with ⟨written, behind, hmem, hskip⟩ | hmem
  · have hbehind : behindClass? bytes = some behind := by
      rw [behindClass?, hskip, dropWhile_bracket hmem]
    left
    rcases skipCaret_cases bytes with hcaret | ⟨hnone, hhead⟩
    · rw [hskip] at hcaret
      refine ⟨written, true, behind, ⟨hmem, by simp⟩, ?_, hcaret, hskip, hbehind⟩
      rw [hcaret]
      simp
    · rw [hnone] at hskip
      refine ⟨written, false, behind, ⟨hmem, fun _ hfirst => ?_⟩, by simpa using hhead, hskip,
        hnone.trans hskip, hbehind⟩
      rw [hskip] at hhead
      cases written with
      | nil => cases hfirst
      | cons b others => exact hhead hfirst
  · exact .inr ⟨hmem, by rw [behindClass?, dropWhile_of_no_bracket hmem]⟩

theorem exists_class_of_behindClass? {bytes behind : List UInt8}
    (h : behindClass? bytes = some behind) :
    ∃ written negated, ClassBytes written negated ∧
      bytes = (if negated then ['^'.toUInt8] else []) ++ written ++ ']'.toUInt8 :: behind := by
  rcases class_cases bytes with
    ⟨written, negated, behind', hclass, _, hbytes, _, hbehind⟩ | ⟨_, hnone⟩
  · obtain rfl : behind' = behind := Option.some.inj (hbehind.symm.trans h)
    exact ⟨written, negated, hclass, hbytes⟩
  · rw [hnone] at h
    cases h

theorem no_bracket_of_behindClass? {bytes : List UInt8} (h : behindClass? bytes = none) :
    ']'.toUInt8 ∉ skipCaret bytes := by
  rcases class_cases bytes with ⟨_, _, behind, _, _, _, _, hbehind⟩ | ⟨hmem, _⟩
  · rw [hbehind] at h
    cases h
  · exact hmem

/-- Inside a class that is never closed the text ends. -/
theorem Draft.feed_unterminated {d : Draft} (hplain : d.phase = .plain) {bytes : List UInt8}
    (hopen : ']'.toUInt8 ∉ skipCaret bytes) (offset : Nat) :
    ∃ d', d.feed offset ('['.toUInt8 :: bytes) = .ok d' ∧
      d'.finish = .error (.unterminatedClass offset) := by
  rw [feed_openClass hplain]
  rcases skipCaret_cases bytes with hcaret | ⟨hnone, hhead⟩
  · rw [hcaret, feed_of_step fun _ => by rw [step_classStart rfl, if_pos rfl],
      ← List.append_nil (skipCaret bytes), feed_members rfl hopen]
    exact ⟨_, rfl, rfl⟩
  · rw [hnone] at hopen
    cases bytes with
    | nil => exact ⟨_, rfl, rfl⟩
    | cons b others =>
        rw [List.mem_cons, not_or] at hopen
        have hb : b ≠ '^'.toUInt8 := fun heq => hhead (by rw [heq]; rfl)
        rw [feed_of_step fun _ => by
          rw [step_classStart rfl, if_neg hb, if_neg (Ne.symm hopen.1)],
          ← List.append_nil others, feed_members rfl hopen.2]
        exact ⟨_, rfl, rfl⟩

end ByteRegex
