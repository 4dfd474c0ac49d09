import Mathlib.Data.List.TakeWhile
import ByteRegex.Proofs.Bytes.Membership
import ByteRegex.Proofs.Matcher.Attempts
import ByteRegex.Proofs.Pattern.Caret
import ByteRegex.Proofs.Pattern.Descent
import ByteRegex.Proofs.Pattern.Ends

/-!
# A `.*` before a pattern

A pattern that is not tied to the start of the line is looked for from one offset after another.
Behind `^.*` it is looked for by a single attempt, in which the star takes the whole line first and
then gives back one byte after another. The offsets are the same, only their order is turned around,
so a line that has a match for one of them has a match for the other.

That the text behind `^.*` is read as before rests on the rules of the grammar: they do not look
back, but for a quantifier, which would apply to the item right before it. The star is no such item.
-/

namespace ByteRegex

/-! ## Texts -/

theorem toUTF8_toList_dotStar (text : String) :
    ("^.*" ++ text).toUTF8.toList =
      '^'.toUInt8 :: '.'.toUInt8 :: '*'.toUInt8 :: text.toUTF8.toList := by
  rw [toUTF8_toList, toUTF8_toList, String.toList_append, List.flatMap_append]
  rfl

/-- What the rules read does not depend on the items before, if there is nothing among them that a
quantifier could apply to. -/
theorem Draft.result_of_readFrom {start : Bool} {body : List UInt8} {p : Pattern}
    (h : Pattern.readFrom start 0 body = .ok p) {d : Draft} (hplain : d.phase = .plain)
    (hsettled : d.Settled) (houter : d.enclosing = []) (hgroups : d.groups = 0) {size : Nat}
    (hsize : body.length ≤ size) :
    d.result size body = .ok (d.items.reverse ++ p.items, p.groups) := by
  have hfrom := Grammar.patternFrom_eq start (Nat.le_refl body.length)
  rw [Nat.sub_self, h, Grammar.patternFrom] at hfrom
  have hreads := Grammar.sequence_follows size (body.length + 1) d body (Nat.lt_succ_self _) hsize
    ⟨hplain, fun _ _ _ _ => hsettled⟩
  change Grammar.ReadsAll size d body (Grammar.sequence (body.length + 1) body d.groups) at hreads
  rw [hgroups] at hreads
  generalize Grammar.sequence (body.length + 1) body 0 = answer at hfrom hreads
  cases hreads with
  | failed result => cases hfrom
  | @items items rest n stops noLonger result =>
      cases rest with
      | cons b behind => cases hfrom
      | nil =>
          cases hfrom
          rw [result, result_nil rfl]
          simp [pushAll, houter]

/-- Behind `^.*` a text is read as before: the star takes any bytes, and then come the items. -/
theorem Pattern.ofString_dotStar {text : String} {p : Pattern} (h : ofString text = .ok p)
    (hstart : text.toUTF8.toList.head? ≠ some '^'.toUInt8) :
    ofString ("^.*" ++ text) =
      .ok { matchStart := true, items := .quantified .star .any :: p.items, groups := p.groups } := by
  unfold ofString at h ⊢
  rw [toUTF8_toList_dotStar, ofBytes_cons, if_pos rfl]
  generalize text.toUTF8.toList = bytes at h hstart ⊢
  have hbody : readFrom false 0 bytes = .ok p := by
    cases bytes with
    | nil => cases h
    | cons b rest =>
        rwa [ofBytes_cons, if_neg fun hb => hstart (congrArg some hb)] at h
  have hsign : Sign.ofByte '*'.toUInt8 = .quantifier .star := by decide
  let d : Draft := { items := [.quantified .star .any] }
  have hstar : ({} : Draft).result (bytes.length + 3) ('.'.toUInt8 :: '*'.toUInt8 :: bytes) =
      d.result (bytes.length + 3) bytes := by
    refine Draft.result_of_feed ?_ (show 1 + 1 + 1 + bytes.length = bytes.length + 3 by omega)
    rw [Draft.feed_dot rfl, Draft.feed_quantifier rfl hsign rfl rfl]
    refine Draft.feed_congr rfl ?_ bytes
    simp only [List.length_cons]
    omega
  have hsettled : d.Settled := by
    rintro item ⟨⟩
    rfl
  have hread := Draft.result_of_readFrom hbody (d := d) rfl hsettled rfl rfl
    (Nat.le_add_right bytes.length 3)
  have hoffset : bytes.length + 3 - ('.'.toUInt8 :: '*'.toUInt8 :: bytes).length = 1 := by
    simp only [List.length_cons]
    omega
  rw [← hoffset, readFrom_eq_result, hstar, hread]
  rfl

/-! ## Ways -/

/-- Every byte belongs to the run of any bytes. -/
theorem runLength_any (text : Array UInt8) (pos : Nat) :
    runLength text .any pos = text.size - pos := by
  have hall : ∀ b ∈ text.toList.drop pos, ByteClass.any.accepts b = true := by
    intro b _
    have hnone : (ByteSet.ofList []).contains b = false := ByteSet.contains_empty b
    simp [ByteClass.accepts, ByteClass.any, hnone]
  rw [runLength, List.takeWhile_eq_self_iff.mpr hall, List.length_drop, Array.length_toList]

/-- There is a way behind a star of any bytes if there is one from some position on. -/
theorem itemsWays_dotStar_ne_nil_iff (text : Array UInt8) (items : List Item) (c : Captures) :
    itemsWays text (.quantified .star .any :: items) 0 c ≠ [] ↔
      ∃ pos ≤ text.size, itemsWays text items pos c ≠ [] := by
  simp only [itemsWays_cons, Item.ways, Quantifier.times, classWays, runLength_any, Repeat.min,
    ne_eq, List.flatMap_eq_nil_iff, List.forall_mem_map, List.mem_reverse, List.mem_range'_1]
  simp only [Nat.zero_le, true_and, Nat.zero_add, Nat.sub_zero, Nat.lt_add_one_iff, not_forall,
    exists_prop]

/-! ## Searches -/

/-- A search that cannot have its tables ends with this fault. -/
theorem Regex.matchLine_tooManySlots {r : Regex} (hslots : ¬ r.groupCount ≤ Captures.maxSize)
    (line : Array UInt8) : r.matchLine line = .error (.tooManySlots r.groupCount) := by
  unfold matchLine search
  simp only [fresh?_eq_error hslots]

/-- Two searches that do answer answer alike if they find a match in the same lines. -/
theorem Regex.matchLine_eq_of_iff {r r' : Regex} {line : Array UInt8}
    (hr : ∃ matched, r.matchLine line = .ok matched)
    (hr' : ∃ matched, r'.matchLine line = .ok matched)
    (h : r.matchLine line = .ok true ↔ r'.matchLine line = .ok true) :
    r.matchLine line = r'.matchLine line := by
  obtain ⟨matched, hmatched⟩ := hr
  obtain ⟨matched', hmatched'⟩ := hr'
  rw [hmatched, hmatched'] at h ⊢
  rw [Except.ok.injEq, Except.ok.injEq, ← Bool.eq_iff_iff] at h
  rw [h]

/-- Trying one offset after another finds a match in the same lines as a star of any bytes that
stands before the items and is tied to the start. -/
theorem Regex.matchLine_dotStar {r r' : Regex} {p : Pattern} (hread : p.Readable)
    (hfree : p.matchStart = false) (hprogram : p.toProgram = .ok r.program)
    (hstart : r.matchStart = p.matchStart)
    (hread' : Pattern.Readable ⟨true, .quantified .star .any :: p.items, p.groups⟩)
    (hprogram' :
      Pattern.toProgram ⟨true, .quantified .star .any :: p.items, p.groups⟩ = .ok r'.program)
    (hstart' : r'.matchStart = true) {line : Array UInt8}
    (hdeep : ∀ o ∈ r.attempts line, o.state.deep = false)
    (hdeep' : ∀ o ∈ r'.attempts line, o.state.deep = false) :
    r.matchLine line = r'.matchLine line := by
  have hgroups : r.groupCount = p.groups := (Pattern.toProgram_eq_ok_iff.mp hprogram).2.2.2
  have hgroups' : r'.groupCount = p.groups := (Pattern.toProgram_eq_ok_iff.mp hprogram').2.2.2
  by_cases hslots : p.groups ≤ Captures.maxSize
  · rw [← hgroups] at hslots
    have hslots' : r'.groupCount ≤ Captures.maxSize := by rwa [hgroups', ← hgroups]
    refine matchLine_eq_of_iff ((exists_matchLine_iff hread hprogram hstart).mpr hslots)
      ((exists_matchLine_iff hread' hprogram' hstart').mpr hslots') ?_
    rw [matchLine_iff_ways hread hprogram hstart hslots hdeep,
      matchLine_iff_ways hread' hprogram' hstart' hslots' hdeep', hfree]
    have hways := itemsWays_dotStar_ne_nil_iff line p.items (.unset p.groups)
    simpa using hways.symm
  · rw [matchLine_tooManySlots (hgroups ▸ hslots), matchLine_tooManySlots (hgroups' ▸ hslots),
      hgroups, hgroups']

/-- Behind `^.*` every text that is a pattern and does not begin with `^` itself is the text of the
same pattern behind a star of any bytes, tied to the start of the line. Both compile. They answer
alike for every line, unless an attempt gave up a path for depth, and they do answer unless a table
of captures with a slot for each group would be too long to exist. -/
theorem leading_dotStar_scans (text : String) (p : Pattern) (h : Pattern.ofString text = .ok p)
    (hstart : text.toUTF8.toList.head? ≠ some '^'.toUInt8) :
    Pattern.ofString ("^.*" ++ text) =
      .ok { matchStart := true, items := .quantified .star .any :: p.items, groups := p.groups } ∧
    ∃ r r', Regex.compile text = .ok r ∧ Regex.compile ("^.*" ++ text) = .ok r' ∧
      ∀ line : Array UInt8,
        (∀ o ∈ r.attempts line, o.state.deep = false) →
        (∀ o ∈ r'.attempts line, o.state.deep = false) →
          r.matchLine line = r'.matchLine line ∧
          ((∃ matched, r.matchLine line = .ok matched) ↔ p.groups ≤ Captures.maxSize) := by
  have hstar := Pattern.ofString_dotStar h hstart
  have hfree : p.matchStart = false := by
    rw [← Bool.not_eq_true, Pattern.matchStart_iff h]
    exact hstart
  have hread := Pattern.readable_of_ofBytes h
  obtain ⟨program, hprogram⟩ := Pattern.exists_toProgram_of_ofBytes h
  obtain ⟨program', hprogram'⟩ := Pattern.exists_toProgram_of_ofBytes hstar
  refine ⟨hstar, _, _, Regex.compile_of_ofString h hprogram,
    Regex.compile_of_ofString hstar hprogram', fun line hdeep hdeep' => ⟨?_, ?_⟩⟩
  · exact Regex.matchLine_dotStar hread hfree hprogram rfl (Pattern.readable_of_ofBytes hstar)
      hprogram' rfl hdeep hdeep'
  · rw [Regex.exists_matchLine_iff hread hprogram rfl]
    exact iff_of_eq (congrArg (· ≤ Captures.maxSize) (Pattern.toProgram_eq_ok_iff.mp hprogram).2.2.2)

/-- A pattern that begins with an asterisk, which stands for itself at the start of a text and behind
a star alike. Its attempts end on lines that have a match for it and on lines that have none. -/
theorem leading_dotStar_scans_asterisk :
    ∃ p r r', Pattern.ofString "*(b|)\\1$" = .ok p ∧
      Pattern.ofString ("^.*" ++ "*(b|)\\1$") = .ok ⟨true, .quantified .star .any :: p.items, 1⟩ ∧
      Regex.compile "*(b|)\\1$" = .ok r ∧ Regex.compile ("^.*" ++ "*(b|)\\1$") = .ok r' ∧
      r.matchLine #[97, 42, 98, 98] = r'.matchLine #[97, 42, 98, 98] ∧
      r.matchLine #[97, 42, 98, 98] = .ok true ∧
      r.matchLine #[42, 98] = r'.matchLine #[42, 98] ∧ r.matchLine #[42, 98] = .ok false := by
  let p : Pattern := ⟨false, [.byte 42, .group 1 [[.byte 98], []], .backreference 1, .endAnchor], 1⟩
  have hread : Pattern.ofString "*(b|)\\1$" = .ok p := (Pattern.ofString_eq _).trans rfl
  have hfirst : "*(b|)\\1$".toUTF8.toList.head? ≠ some '^'.toUInt8 := by decide +kernel
  obtain ⟨hstar, r, r', hcompile, hcompile', hlines⟩ := leading_dotStar_scans _ p hread hfirst
  have hr := hcompile
  have hr' := hcompile'
  simp only [Regex.compile, hread] at hr
  simp only [Regex.compile, hstar] at hr'
  cases hr
  cases hr'
  refine ⟨p, _, _, hread, hstar, hcompile, hcompile', ?_, by decide +kernel, ?_, by decide +kernel⟩
  · exact (hlines #[97, 42, 98, 98] (by decide +kernel) (by decide +kernel)).1
  · exact (hlines #[42, 98] (by decide +kernel) (by decide +kernel)).1

end ByteRegex
