import ByteRegex.Proofs.Matcher.Frame

/-!
# Nodes that look at the text

A node for bytes of one class and a backreference do all their work on the text
before they go on. What they answer is the `flatMap` of what follows over
`classWays` and `referenceWays`, whatever follows.
-/

namespace ByteRegex

/-- What the text holds from a position on. -/
theorem drop_eq_cons_of_getElem? {text : Array UInt8} {pos : Nat} {b : UInt8}
    (h : text[pos]? = some b) :
    text.toList.drop pos = b :: text.toList.drop (pos + 1) := by
  obtain ⟨hpos, rfl⟩ := Array.getElem?_eq_some_iff.mp h
  rw [List.drop_eq_getElem_cons (by simpa using hpos)]
  rfl

theorem drop_eq_nil_of_getElem? {text : Array UInt8} {pos : Nat} (h : text[pos]? = none) :
    text.toList.drop pos = [] := by
  rw [Array.getElem?_eq_none_iff] at h
  exact List.drop_eq_nil_iff.mpr (by simpa using h)

/-- The bytes of a span within the text. -/
theorem Span.of_eq_take_drop (span : Span) (text : Array UInt8) :
    span.of text = (text.toList.drop span.start).take span.length := by
  simp [Span.of, Span.length, Array.toList_extract, List.extract_eq_take_drop]

theorem Span.length_of (span : Span) (text : Array UInt8) (h : span.stop ≤ text.size) :
    (span.of text).length = span.length := by
  rw [Span.of_eq_take_drop, List.length_take, List.length_drop, Array.length_toList]
  unfold Span.length
  omega

/-- The end of a run is found by looking at one byte after the other. -/
theorem runEnd_eq (accepted : ByteClass) (text : Array UInt8) (remaining pos : Nat)
    (h : pos + remaining = text.size) :
    runEnd accepted text remaining pos = pos + runLength text accepted pos := by
  induction remaining generalizing pos with
  | zero =>
      have hnil : text.toList.drop pos = [] := List.drop_eq_nil_iff.mpr (by simp; omega)
      simp [runEnd, runLength, hnil]
  | succ remaining ih =>
      rw [runEnd]
      cases hb : text[pos]? with
      | none =>
          rw [Array.getElem?_eq_none_iff] at hb
          omega
      | some b =>
          unfold runLength at ih ⊢
          rw [drop_eq_cons_of_getElem? hb, List.takeWhile_cons]
          by_cases haccepts : accepted.accepts b = true
          · have hrest := ih (pos + 1) (by omega)
            simp only [haccepts, if_true, List.length_cons]
            omega
          · simp [haccepts]

/-- A run ends within the text. -/
theorem runLength_le (text : Array UInt8) (accepted : ByteClass) (pos : Nat) :
    runLength text accepted pos ≤ text.size - pos := by
  have h := (List.takeWhile_prefix accepted.accepts (l := text.toList.drop pos)).length_le
  rwa [List.length_drop, Array.length_toList] at h

/-- Comparing byte for byte is asking for a prefix. -/
theorem sameBytes_iff (text : Array UInt8) (count i j : Nat) (h : i + count ≤ text.size) :
    sameBytes text count i j = true ↔
      (text.toList.drop i).take count <+: text.toList.drop j := by
  induction count generalizing i j with
  | zero => simp [sameBytes]
  | succ count ih =>
      have hi : i < text.size := by omega
      have hsome : text[i]? = some text[i] := Array.getElem?_eq_getElem hi
      rw [sameBytes, drop_eq_cons_of_getElem? hsome, List.take_succ_cons, hsome]
      cases hj : text[j]? with
      | none => simp [drop_eq_nil_of_getElem? hj]
      | some y =>
          rw [drop_eq_cons_of_getElem? hj, List.cons_prefix_cons, ← ih (i + 1) (j + 1) (by omega)]
          simp

section

variable {m : Matcher} {go : Continue} {next : Option NodeId} {pos : Nat} {s : State}
  {ways : Nat → Captures → List Way}

/-- Going on from the longest of some runs to the shortest answers what follows
each of them, in this order. -/
theorem descend_answers {low : Nat} (extra : Nat)
    (hgo : ∀ stop t, low ≤ stop → stop ≤ low + extra → s.SameTables t →
      (go next stop t).Answers t (ways stop s.captures)) :
    ∀ t, s.SameTables t → (descend go next low extra t).Answers t
      ((List.range' low (extra + 1)).reverse.flatMap fun stop => ways stop s.captures) := by
  induction extra with
  | zero =>
      intro t ht
      simpa [descend] using hgo low t (Nat.le_refl low) (Nat.le_refl low) ht
  | succ extra ih =>
      intro t ht
      have hlist : (List.range' low (extra + 1 + 1)).reverse =
          (low + (extra + 1)) :: (List.range' low (extra + 1)).reverse := by
        rw [List.range'_1_concat, List.reverse_append]
        rfl
      rw [descend, hlist, List.flatMap_cons]
      apply (hgo (low + (extra + 1)) t (by omega) (Nat.le_refl _) ht).orElse
      intro u htu _
      exact ih (fun stop v hlow hstop hv => hgo stop v hlow (by omega) hv) u (ht.trans htu)

/-- What a node for a run of any length answers: longer runs come first. -/
theorem matchRun_answers (accepted : ByteClass) (times : Repeat)
    (hrun : times.isUnbounded = true) (hpos : pos ≤ m.text.size)
    (hgo : ∀ stop t, pos ≤ stop → stop ≤ m.text.size → s.SameTables t →
      (go next stop t).Answers t (ways stop s.captures)) :
    (m.matchBytes go accepted times next pos s).Answers s
      ((classWays m.text accepted times pos s.captures).flatMap fun w =>
        ways w.stop w.captures) := by
  have hstop := runEnd_eq accepted m.text (m.text.size - pos) pos (by omega)
  have hsize := runLength_le m.text accepted pos
  have hways : classWays m.text accepted times pos s.captures =
      (List.range' times.min
        (runLength m.text accepted pos + 1 - times.min)).reverse.map
          fun n => ⟨pos + n, s.captures⟩ := by
    cases times with
    | once => cases hrun
    | optional => cases hrun
    | star => rfl
    | plus => rfl
  have hmatch : m.matchBytes go accepted times next pos s =
      if pos + times.min ≤ pos + runLength m.text accepted pos then
        descend go next (pos + times.min)
          (pos + runLength m.text accepted pos - (pos + times.min))
          (s.note m.verbosity (.run (pos + runLength m.text accepted pos - pos) pos))
      else .failed (s.note m.verbosity (.run (pos + runLength m.text accepted pos - pos) pos)) := by
    cases times with
    | once => cases hrun
    | optional => cases hrun
    | star => simp only [Matcher.matchBytes, hpos, if_true, hstop]
    | plus => simp only [Matcher.matchBytes, hpos, if_true, hstop]
  rw [hmatch, hways]
  apply Outcome.Answers.of_note
  by_cases hlow : pos + times.min ≤ pos + runLength m.text accepted pos
  · rw [if_pos hlow]
    have hlist : (List.range' times.min
        (runLength m.text accepted pos + 1 - times.min)).reverse.flatMap
          (fun n => ways (pos + n) s.captures) =
        (List.range' (pos + times.min) (pos + runLength m.text accepted pos -
          (pos + times.min) + 1)).reverse.flatMap fun stop => ways stop s.captures := by
      rw [← List.map_add_range' times.min _ 1, ← List.map_reverse, List.flatMap_map]
      congr 3
      omega
    rw [List.flatMap_map, hlist]
    exact descend_answers _ (fun stop t hlo hhi ht => hgo stop t (by omega) (by omega) ht) _
      ⟨State.note_captures s _ _, State.note_starts s _ _⟩
  · rw [if_neg hlow]
    have hnone : runLength m.text accepted pos + 1 - times.min = 0 := by omega
    simpa [hnone] using Outcome.failed_answers _

/-- What a node for bytes of one class answers. -/
theorem matchBytes_answers (accepted : ByteClass) (times : Repeat)
    (hpos : pos ≤ m.text.size)
    (hgo : ∀ stop t, pos ≤ stop → stop ≤ m.text.size → s.SameTables t →
      (go next stop t).Answers t (ways stop s.captures)) :
    (m.matchBytes go accepted times next pos s).Answers s
      ((classWays m.text accepted times pos s.captures).flatMap fun w =>
        ways w.stop w.captures) := by
  have hsame := State.SameTables.refl s
  have hhere := hgo pos s (Nat.le_refl pos) hpos hsame
  cases times with
  | once =>
      simp only [Matcher.matchBytes, classWays, byteWays]
      cases hb : m.text[pos]? with
      | none => exact Outcome.failed_answers s
      | some b =>
          have hlt : pos < m.text.size := (Array.getElem?_eq_some_iff.mp hb).1
          by_cases haccepts : accepted.accepts b = true
          · simpa [haccepts] using hgo (pos + 1) s (by omega) hlt hsame
          · simpa [haccepts] using Outcome.failed_answers s
  | optional =>
      simp only [Matcher.matchBytes, classWays, byteWays]
      cases hb : m.text[pos]? with
      | none => simpa using hhere
      | some b =>
          have hlt : pos < m.text.size := (Array.getElem?_eq_some_iff.mp hb).1
          by_cases haccepts : accepted.accepts b = true
          · have hone := hgo (pos + 1) s (by omega) hlt hsame
            simp only [haccepts, if_true, List.cons_append, List.nil_append,
              List.flatMap_cons, List.flatMap_nil, List.append_nil]
            exact hone.orElse fun t ht _ => hgo pos t (Nat.le_refl pos) hpos ht
          · simpa [haccepts] using hhere
  | star => exact matchRun_answers accepted .star rfl hpos hgo
  | plus => exact matchRun_answers accepted .plus rfl hpos hgo

/-- What a backreference answers, if all captures lie within the text. -/
theorem matchReference_answers (slot : Nat) (hfits : s.Fits m) (hpos : pos ≤ m.text.size)
    (hgo : ∀ stop t, pos ≤ stop → stop ≤ m.text.size → s.SameTables t →
      (go next stop t).Answers t (ways stop s.captures)) :
    (m.matchReference go slot next pos s).Answers s
      ((referenceWays m.text slot pos s.captures).flatMap fun w =>
        ways w.stop w.captures) := by
  simp only [Matcher.matchReference, referenceWays]
  cases hspan : s.captures.get? slot with
  | none => exact Outcome.Answers.of_note (Outcome.failed_answers _)
  | some span =>
      obtain ⟨horder, hstop⟩ := hfits.captured slot span hspan
      have hlength : span.start + span.length = span.stop := by
        unfold Span.length
        omega
      have hsame := sameBytes_iff m.text span.length span.start pos (by omega)
      rw [← Span.of_eq_take_drop] at hsame
      have hcopy := span.length_of m.text hstop
      simp only [hpos, if_true, hsame]
      by_cases hbegins : span.of m.text <+: m.text.toList.drop pos
      · have hfit := hbegins.length_le
        rw [hcopy, List.length_drop, Array.length_toList] at hfit
        simpa [hbegins, hcopy] using
          hgo (pos + span.length) s (by omega) (by omega) (State.SameTables.refl s)
      · simpa [hbegins] using Outcome.failed_answers s

end

end ByteRegex
