import ByteRegex.Proofs.Matcher.Attempts
import ByteRegex.Proofs.Matcher.Suffix
import ByteRegex.Proofs.Pattern.Caret
import ByteRegex.Proofs.Pattern.Ends

/-!
# Matching at an offset and matching a suffix

An attempt at an offset sees only what the text holds from there on: it ends as an attempt at the
start of that suffix does, with the same bytes captured and with or without a path given up for
depth. Since a search makes one attempt after another, a line matches if and only if some suffix of
it matches from its start on, and that is what a `^` before the text of the pattern asks for.
-/

namespace ByteRegex

/-- The matcher over what its text holds from `pos` on. -/
def Matcher.suffix (m : Matcher) (pos : Nat) : Matcher :=
  { m with text := m.text.extract pos m.text.size }

section

variable {m : Matcher} {pos : Nat}

theorem extract_append_suffix {text : Array UInt8} (hpos : pos ≤ text.size) :
    text.extract 0 pos ++ text.extract pos text.size = text := by
  rw [Array.extract_append_extract, Nat.zero_min, Nat.max_eq_right hpos, Array.extract_size]

theorem size_extract_before {text : Array UInt8} (hpos : pos ≤ text.size) :
    (text.extract 0 pos).size = pos := by
  rw [Array.size_extract, Nat.sub_zero, Nat.min_eq_left hpos]

/-- The whole text is the suffix behind what stands before it. -/
theorem Matcher.suffix_behind (hpos : pos ≤ m.text.size) :
    (m.suffix pos).behind (m.text.extract 0 pos) = m := by
  unfold suffix behind
  rw [extract_append_suffix hpos]

theorem Span.of_moved_suffix (hpos : pos ≤ m.text.size) (span : Span) :
    (span.moved pos).of m.text = span.of (m.suffix pos).text := by
  have hmoved := span.of_moved (m.text.extract 0 pos) (m.suffix pos).text
  rw [size_extract_before hpos] at hmoved
  rw [← hmoved, Matcher.suffix, extract_append_suffix hpos]

end

/-- An attempt at an offset and an attempt at the start of the suffix match together, as far apart
as the offset, or fail together. -/
theorem Pattern.Readable.attempt_suffix {p : Pattern} (hread : p.Readable) {m : Matcher}
    (hprogram : p.toProgram = .ok m.program) (limit : Nat) {pos : Nat} (hpos : pos ≤ m.text.size)
    {s t : State} (hs : s.HasSlots p.groups) (ht : t.HasSlots p.groups) :
    ((∃ stop u v, m.attempt limit pos s = .matched (pos + stop) u ∧
        (m.suffix pos).attempt limit 0 t = .matched stop v) ∨
      ∃ u v, m.attempt limit pos s = .failed u ∧ (m.suffix pos).attempt limit 0 t = .failed v) ∧
    (∀ slot, ((m.attempt limit pos s).state.captures.get? slot).map (·.of m.text) =
      (((m.suffix pos).attempt limit 0 t).state.captures.get? slot).map
        (·.of (m.suffix pos).text)) ∧
    (m.attempt limit pos s).state.deep = ((m.suffix pos).attempt limit 0 t).state.deep := by
  have hsame := attempt_behind (m := m.suffix pos) hprogram (m.text.extract 0 pos) limit hs ht
  rw [Matcher.suffix_behind hpos, size_extract_before hpos] at hsame
  have hanswers := attempt_answers hread hprogram limit hpos hs
  generalize hfirst : m.attempt limit pos s = o at hsame hanswers ⊢
  generalize hsecond : (m.suffix pos).attempt limit 0 t = o' at hsame ⊢
  cases hsame with
  | @matched stop u v captures deep =>
      refine ⟨.inl ⟨stop, u, v, rfl, rfl⟩, fun slot => ?_, deep⟩
      change (u.captures.get? slot).map _ = (v.captures.get? slot).map _
      rw [captures, Captures.get?_moved, Option.map_map]
      exact congrArg (Option.map · _) (funext (Span.of_moved_suffix hpos))
  | @failed u v deep =>
      refine ⟨.inr ⟨u, v, rfl, rfl⟩, fun slot => ?_, deep⟩
      change (u.captures.get? slot).map _ = (v.captures.get? slot).map _
      rw [attempt_captures hfirst, attempt_captures hsecond, Captures.get?_reset,
        Captures.get?_reset]
      rfl
  | faulted fault fault' u v => exact hanswers.elim

/-! ## Searches -/

/-- If each attempt at an offset matches or fails whatever state it begins in, a search finds
something if and only if one of its offsets matches. -/
theorem Matcher.searchFrom_finds_iff {m : Matcher} {n : Nat} (matching : Nat → Prop)
    (hattempt : ∀ pos s, pos ≤ m.text.size → s.HasSlots n →
      (∃ stop t, m.matchAt pos s = .matched stop t ∧ matching pos) ∨
        ∃ t, m.matchAt pos s = .failed t ∧ t.HasSlots n ∧ ¬ matching pos)
    (others : Nat) {offset : Nat} (hsize : offset + others ≤ m.text.size) {s : State}
    (hs : s.HasSlots n) :
    (∃ span, (m.searchFrom others offset s).found = .ok (some span)) ↔
      ∃ pos, offset ≤ pos ∧ pos ≤ offset + others ∧ matching pos := by
  induction others generalizing offset s with
  | zero =>
      unfold searchFrom
      rcases hattempt offset s hsize hs with ⟨stop, t, hmatched, hyes⟩ | ⟨t, hfailed, _, hno⟩
      · simp only [hmatched]
        exact ⟨fun _ => ⟨offset, Nat.le_refl _, Nat.le_refl _, hyes⟩, fun _ => ⟨_, rfl⟩⟩
      · simp only [hfailed]
        constructor
        · rintro ⟨_, hfound⟩
          cases hfound
        · rintro ⟨pos, hlow, hhigh, hyes⟩
          obtain rfl : pos = offset := Nat.le_antisymm hhigh hlow
          exact absurd hyes hno
  | succ others ih =>
      unfold searchFrom
      rcases hattempt offset s (Nat.le_of_add_right_le hsize) hs with
        ⟨stop, t, hmatched, hyes⟩ | ⟨t, hfailed, ht, hno⟩
      · simp only [hmatched]
        exact ⟨fun _ => ⟨offset, Nat.le_refl _, Nat.le_add_right _ _, hyes⟩, fun _ => ⟨_, rfl⟩⟩
      · simp only [hfailed]
        rw [ih (by omega : offset + 1 + others ≤ m.text.size) ht]
        constructor
        · rintro ⟨pos, hlow, hhigh, hyes⟩
          exact ⟨pos, by omega, by omega, hyes⟩
        · rintro ⟨pos, hlow, hhigh, hyes⟩
          rcases Nat.eq_or_lt_of_le hlow with rfl | hlow
          · exact absurd hyes hno
          · exact ⟨pos, hlow, by omega, hyes⟩

/-- An attempt at an offset matches if one at the start of the suffix does, and else it fails. -/
theorem Pattern.Readable.matchAt_suffix_cases {p : Pattern} (hread : p.Readable) {m : Matcher}
    (hprogram : p.toProgram = .ok m.program) {pos : Nat} (hpos : pos ≤ m.text.size) {s t : State}
    (hs : s.HasSlots p.groups) (ht : t.HasSlots p.groups) :
    (∃ stop u, m.matchAt pos s = .matched stop u ∧
      ∃ stop v, (m.suffix pos).matchAt 0 t = .matched stop v) ∨
    ∃ u, m.matchAt pos s = .failed u ∧ u.HasSlots p.groups ∧
      ¬ ∃ stop v, (m.suffix pos).matchAt 0 t = .matched stop v := by
  unfold Matcher.matchAt
  have hleft := hs.attempt m maxDepth pos
  obtain ⟨⟨stop, u, v, hfirst, hsecond⟩ | ⟨u, v, hfirst, hsecond⟩, -, -⟩ :=
    hread.attempt_suffix hprogram maxDepth hpos hs ht
  · exact .inl ⟨_, u, hfirst, stop, v, hsecond⟩
  · rw [hfirst] at hleft
    refine .inr ⟨u, hfirst, hleft, fun ⟨stop, w, hmatched⟩ => ?_⟩
    rw [hsecond] at hmatched
    cases hmatched

namespace Regex

/-- The same pattern tied to the start of the line. -/
def anchored (r : Regex) : Regex :=
  { r with matchStart := true }

/-- Tied to the start, a pattern matches a suffix if its attempt does there that a search makes
through the line. -/
theorem anchored_matchLine_iff {r : Regex} (hslots : r.groupCount ≤ Captures.maxSize)
    (line : Array UInt8) (pos : Nat) :
    r.anchored.matchLine (line.extract pos line.size) = .ok true ↔
      ∃ stop t, ((r.matcher line).suffix pos).matchAt 0 (r.matcher line).fresh =
        .matched stop t :=
  matchLine_eq_true_of_matchStart rfl hslots

/-- A pattern matches a line if and only if, tied to the start, it matches a suffix of the line. -/
theorem matchLine_iff_suffix {r : Regex} {p : Pattern} (hread : p.Readable)
    (hprogram : p.toProgram = .ok r.program) (hstart : r.matchStart = false)
    (line : Array UInt8) :
    r.matchLine line = .ok true ↔
      ∃ before suffix, line = before ++ suffix ∧ r.anchored.matchLine suffix = .ok true := by
  by_cases hslots : r.groupCount ≤ Captures.maxSize
  swap
  · exact ⟨fun h => absurd (groupCount_le_of_matchLine h) hslots,
      fun ⟨_, _, _, h⟩ => absurd (groupCount_le_of_matchLine h) hslots⟩
  have htables : (r.matcher line).fresh.HasSlots p.groups := fresh_hasSlots hprogram line
  have hsearch := Matcher.searchFrom_finds_iff
    (fun pos => ∃ stop t, ((r.matcher line).suffix pos).matchAt 0 (r.matcher line).fresh =
      .matched stop t)
    (fun pos s hpos hs => hread.matchAt_suffix_cases hprogram hpos hs htables)
    line.size (Nat.le_of_eq (Nat.zero_add _)) htables
  rw [matchLine_eq_true, search_eq hslots, hstart, if_neg Bool.false_ne_true, hsearch, Nat.zero_add]
  constructor
  · rintro ⟨pos, _, hpos, hmatching⟩
    exact ⟨_, _, (extract_append_suffix hpos).symm,
      (anchored_matchLine_iff hslots line pos).mpr hmatching⟩
  · rintro ⟨before, suffix, rfl, hmatch⟩
    refine ⟨before.size, Nat.zero_le _, by simp, ?_⟩
    rw [← anchored_matchLine_iff hslots]
    simpa using hmatch

end Regex

/-- Every text that is a pattern compiles to a graph on which an attempt sees nothing of what stands
before its offset. An attempt at `pos` and one at the start of the suffix from `pos` on, each from
whatever state, match together, with ends that differ by `pos`, or fail together. Each slot holds
the same bytes after both or is unset after both, and both have given up a path for depth or neither
has, whatever the limit.

So a line matches a pattern that does not begin with `^` if and only if some suffix of the line,
perhaps the empty one, matches the pattern with a `^` before it.

`Matcher.matchAt` is the attempt with the limit `maxDepth`. -/
theorem matching_sees_only_suffix (text : String) (p : Pattern)
    (h : Pattern.ofString text = .ok p) :
    (∃ program, p.toProgram = .ok program ∧
      ∀ (m : Matcher) (limit pos : Nat) (s t : State), m.program = program →
        pos ≤ m.text.size → s.HasSlots p.groups → t.HasSlots p.groups →
        ((∃ stop u v, m.attempt limit pos s = .matched (pos + stop) u ∧
            (m.suffix pos).attempt limit 0 t = .matched stop v) ∨
          ∃ u v, m.attempt limit pos s = .failed u ∧
            (m.suffix pos).attempt limit 0 t = .failed v) ∧
        (∀ slot, ((m.attempt limit pos s).state.captures.get? slot).map (·.of m.text) =
          (((m.suffix pos).attempt limit 0 t).state.captures.get? slot).map
            (·.of (m.suffix pos).text)) ∧
        (m.attempt limit pos s).state.deep = ((m.suffix pos).attempt limit 0 t).state.deep) ∧
    (text.toUTF8.toList.head? ≠ some '^'.toUInt8 →
      ∃ r r', Regex.compile text = .ok r ∧ Regex.compile ("^" ++ text) = .ok r' ∧
        ∀ line : Array UInt8, r.matchLine line = .ok true ↔
          ∃ before suffix, line = before ++ suffix ∧ r'.matchLine suffix = .ok true) := by
  have hread := Pattern.readable_of_ofBytes h
  obtain ⟨program, hprogram⟩ := Pattern.exists_toProgram_of_ofBytes h
  constructor
  · refine ⟨program, hprogram, fun m limit pos s t hm hpos hs ht => ?_⟩
    exact hread.attempt_suffix (hm ▸ hprogram) limit hpos hs ht
  · intro hcaret
    have hstart : p.matchStart = false := by
      rw [← Bool.not_eq_true, Pattern.matchStart_iff h]
      exact hcaret
    have hanchored : ({ p with matchStart := true } : Pattern).toProgram = .ok program := hprogram
    let r : Regex := ⟨program, p.matchStart, p.matchEnd⟩
    exact ⟨r, r.anchored, Regex.compile_of_ofString h hprogram,
      Regex.compile_of_ofString (Pattern.ofString_caret h hcaret) hanchored,
      r.matchLine_iff_suffix hread hprogram hstart⟩

/-- With room for five nodes the path is given up on which the group goes around a second time, so
the match ends behind the second `bc` and not behind the third, in the whole text and in the
suffix. -/
theorem matching_sees_only_suffix_cut :
    ∃ (p : Pattern) (m : Matcher) (v : State), Pattern.ofString "(a|bc)+\\1" = .ok p ∧
      p.toProgram = .ok m.program ∧ m.text = #[97, 98, 99, 98, 99, 98, 99] ∧
      m.attempt 5 1 (.fresh 1) = .matched (1 + 4) ⟨⟨#[some ⟨1, 3⟩]⟩, #[1], true, []⟩ ∧
      (m.suffix 1).attempt 5 0 (.fresh 1) = .matched 4 v ∧ v.deep = true ∧
      (v.captures.get? 0).map (·.of (m.suffix 1).text) = some [98, 99] ∧
      ∃ r', Regex.compile ("^" ++ "(a|bc)+\\1") = .ok r' ∧ ∃ before suffix,
        #[99, 98, 99, 98, 99] = before ++ suffix ∧ r'.matchLine suffix = .ok true := by
  let p : Pattern := ⟨false, [.quantified .plus (.group 1 [[.byte 97], [.byte 98, .byte 99]]),
    .backreference 1], 1⟩
  let program : Program := {
    nodes := #[.groupHead 0 .plus [2, 3] 1, .groupTail 0 0 (some 5),
      .bytes (.literal 97) .once (some 1), .bytes (.literal 98) .once (some 4),
      .bytes (.literal 99) .once (some 1), .backreference 0 none]
    root := some 0
    slots := 1 }
  let m : Matcher := { program, text := #[97, 98, 99, 98, 99, 98, 99] }
  let u : State := ⟨⟨#[some ⟨1, 3⟩]⟩, #[1], true, []⟩
  have hread : Pattern.ofString "(a|bc)+\\1" = .ok p := (Pattern.ofString_eq _).trans rfl
  have hprogram : p.toProgram = .ok program := rfl
  have hcut : m.attempt 5 1 (.fresh 1) = .matched (1 + 4) u := by decide +kernel
  obtain ⟨⟨program', hprogram', hoffset⟩, hlines⟩ := matching_sees_only_suffix _ p hread
  obtain ⟨hends, hbytes, hdeep⟩ := hoffset m 5 1 (.fresh 1) (.fresh 1)
    (Except.ok.inj (hprogram.symm.trans hprogram')) (by decide) (State.hasSlots_fresh 1)
    (State.hasSlots_fresh 1)
  obtain ⟨r, r', hcompile, hcompile', hsuffixes⟩ := hlines (by decide +kernel)
  simp only [Regex.compile, hread] at hcompile
  cases hcompile
  have hline := (hsuffixes #[99, 98, 99, 98, 99]).mp (by decide +kernel)
  rw [hcut] at hends hbytes hdeep
  obtain ⟨stop, _, v, hmatched, hsuffix⟩ | ⟨_, _, hfailed, _⟩ := hends
  · obtain rfl : stop = 4 := Nat.add_left_cancel (Outcome.matched.inj hmatched).1.symm
    rw [hsuffix] at hbytes hdeep
    exact ⟨p, m, v, hread, hprogram, rfl, hcut, hsuffix, hdeep.symm, (hbytes 0).symm, r', hcompile',
      hline⟩
  · cases hfailed

end ByteRegex
