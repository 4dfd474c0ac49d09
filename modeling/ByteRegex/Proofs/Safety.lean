import ByteRegex.Proofs.Language.Basic
import ByteRegex.Proofs.Matcher.Attempts
import ByteRegex.Proofs.Spelling.Display
import ByteRegex.Proofs.Tokens.Scan

/-!
# Nothing breaks off

Three things keep a text and a line from breaking anything. The tree of a text has no
fault, and its numbers are those of groups that there are or of digits other than zero. The
graph of such a tree leads nowhere in vain, so that its spelling comes to an end. And on
every path of an attempt the start that a group keeps lies between the start of the attempt
and the position, which does not leave the line, so that every piece that is captured is
there. The last two are in what an attempt answers, which is never a fault.

What is left is the table of captures, which must not be longer than a table can be. A
group takes two bytes, so only a text of 2 to the 60th bytes has too many.
-/

namespace ByteRegex

/-! ## Numbers -/

mutual

/-- A reference is written with one digit, which is not zero. -/
theorem Item.Readable.references_bounds : ∀ (item : Item), item.Readable →
    ∀ n ∈ item.references, 1 ≤ n ∧ n ≤ 9
  | .byte _, _, n, hn | .any, _, n, hn | .oneOf _ _, _, n, hn | .endAnchor, _, n, hn => by
      simp [Item.references] at hn
  | .quantified q inner, h, n, hn => by
      rw [Item.Readable] at h
      rw [Item.references] at hn
      exact Item.Readable.references_bounds inner h.2 n hn
  | .group number alternatives, h, n, hn => by
      rw [Item.Readable] at h
      rw [Item.references] at hn
      exact branchesReferences_bounds alternatives h.2 n hn
  | .backreference number, h, n, hn => by
      rw [Item.Readable] at h
      rw [Item.references, List.mem_singleton] at hn
      exact hn ▸ h

theorem itemsReferences_bounds : ∀ (items : List Item), itemsReadable items →
    ∀ n ∈ itemsReferences items, 1 ≤ n ∧ n ≤ 9
  | [], _, n, hn => by cases hn
  | item :: rest, h, n, hn => by
      rw [itemsReadable_cons] at h
      rw [itemsReferences_cons, List.mem_append] at hn
      rcases hn with hn | hn
      · exact Item.Readable.references_bounds item h.1 n hn
      · exact itemsReferences_bounds rest h.2 n hn

theorem branchesReferences_bounds : ∀ (branches : List (List Item)), branchesReadable branches →
    ∀ n ∈ branchesReferences branches, 1 ≤ n ∧ n ≤ 9
  | [], _, n, hn => by simp [branchesReferences] at hn
  | items :: rest, h, n, hn => by
      rw [branchesReadable_cons] at h
      rw [branchesReferences_cons, List.mem_append] at hn
      rcases hn with hn | hn
      · exact itemsReferences_bounds items h.1 n hn
      · exact branchesReferences_bounds rest h.2 n hn

end

namespace Pattern.Readable

variable {p : Pattern}

theorem references_bounds (h : p.Readable) : ∀ n ∈ itemsReferences p.items, 1 ≤ n ∧ n ≤ 9 := by
  obtain ⟨items, hitems, heq | heq⟩ := h.items
  · rw [heq]
    exact itemsReferences_bounds items hitems
  · rw [heq, itemsReferences_append]
    simpa [Item.references] using itemsReferences_bounds items hitems

/-- Group numbers and references count from one, so a slot is one less. -/
theorem numbers_ne_zero (h : p.Readable) :
    ∀ n ∈ itemsNumbers p.items ++ itemsReferences p.items, n ≠ 0 := by
  intro n hn
  rcases List.mem_append.mp hn with hn | hn
  · exact h.groupNumbers_ne_zero n hn
  · have hbounds := h.references_bounds n hn
    omega

end Pattern.Readable

/-! ## Faults -/

/-- What answers is no fault. -/
theorem Outcome.Answers.ne_faulted {o : Outcome} {s : State} {ways : List Way}
    (h : o.Answers s ways) (fault : Fault) (t : State) : o ≠ .faulted fault t := by
  rintro rfl
  exact h

/-- The one fault of a search is a table of captures that is too long to exist. -/
theorem Regex.matchLine_eq_error {r : Regex} {p : Pattern} (hread : p.Readable)
    (hprogram : p.toProgram = .ok r.program) (hstart : r.matchStart = p.matchStart)
    {line : Array UInt8} {fault : Fault} (h : r.matchLine line = .error fault) :
    fault = .tooManySlots r.groupCount ∧ Captures.maxSize < r.groupCount := by
  have hslots : ¬ r.groupCount ≤ Captures.maxSize := by
    intro hslots
    obtain ⟨matched, hmatched⟩ := (exists_matchLine_iff hread hprogram hstart).mpr hslots
    rw [hmatched] at h
    cases h
  unfold matchLine search at h
  simp only [fresh?_eq_error hslots, Except.error.injEq] at h
  exact ⟨h.symm, Nat.lt_of_not_le hslots⟩

/-- A text is no pattern, and this is said, or it compiles and nothing that can be done with
what it compiles to breaks off. Its tree has no fault and no number zero, its graph has a
spelling, and no attempt on any line, from any position in it and under any limit, asks for a
node, a slot or a piece of the line that is not there. So a search ends with an answer. The
one exception is a table of captures that would be too long to exist, which takes a text of
2 to the 60th bytes. -/
theorem compile_and_match_never_fault (text : String) :
    (∃ cause, Pattern.ofString text = .error cause ∧
      Regex.compile text = .error (.malformed cause)) ∨
    ∃ p r, Pattern.ofString text = .ok p ∧ p.shapeFault? = none ∧ Regex.compile text = .ok r ∧
      (∀ n ∈ itemsNumbers p.items ++ itemsReferences p.items, n ≠ 0) ∧
      (∃ bytes, r.spell? = some bytes) ∧
      ∀ line : Array UInt8,
        (∀ (m : Matcher) (limit pos : Nat) (s : State), m.program = r.program → m.text = line →
          pos ≤ line.size → s.HasSlots r.groupCount →
            ∀ fault t, m.attempt limit pos s ≠ .faulted fault t) ∧
        ∀ fault, r.matchLine line = .error fault →
          fault = .tooManySlots r.groupCount ∧ 2 ^ 60 ≤ text.toUTF8.toList.length := by
  cases hpattern : Pattern.ofString text with
  | error cause => exact .inl ⟨cause, rfl, by simp [Regex.compile, hpattern]⟩
  | ok p =>
      have hread := Pattern.readable_of_ofBytes hpattern
      obtain ⟨program, hprogram⟩ := Pattern.exists_toProgram_of_ofBytes hpattern
      have hcompile := Regex.compile_of_ofString hpattern hprogram
      refine .inr ⟨p, _, rfl, hread.shapeFault?_eq_none, hcompile, hread.numbers_ne_zero,
        ⟨_, Regex.spell?_eq hread hprogram rfl⟩, fun line => ⟨?_, ?_⟩⟩
      · rintro m limit pos s hm rfl hpos hs
        have htables : s.HasSlots p.groups := by
          rw [← (Pattern.toProgram_eq_ok_iff.mp hprogram).2.2.2]
          exact hs
        exact (Pattern.attempt_answers hread (hm ▸ hprogram) limit hpos htables).ne_faulted
      · intro fault hfault
        obtain ⟨hfault, hlong⟩ := Regex.matchLine_eq_error hread hprogram rfl hfault
        have hgroups := Pattern.two_mul_groups_le hpattern
        have hslots := (Pattern.toProgram_eq_ok_iff.mp hprogram).2.2.2
        have hmany : 2 ^ 59 ≤ p.groups := hslots ▸ Nat.le_of_pred_lt hlong
        exact ⟨hfault, by omega⟩

end ByteRegex
