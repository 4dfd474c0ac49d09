import ByteRegex.Proofs.Language.Ways
import ByteRegex.Proofs.Matcher.Attempts
import ByteRegex.Proofs.Pattern.Ends

/-!
# A search decides the language of a pattern

A line should match if it has a piece that is a word of the pattern, at the start
of the line if the pattern text begins with `^` and at its end if the text ends
with `$`. Without backreferences that is what a search finds. What it finds is
such a piece in any case; what it does not find is not there, unless an attempt
gave up a path for depth.
-/

namespace ByteRegex

/-- A word of the language is a piece of the line, at the ends of the line that
the pattern text asks for. -/
def Occurs (text : List UInt8) (l : Language UInt8) (line : List UInt8) : Prop :=
  ∃ u v w, line = u ++ v ++ w ∧ v ∈ l ∧ (text.head? = some '^'.toUInt8 → u = []) ∧
    (EndsWithDollar text → w = [])

/-- A piece with what stands before and behind it. -/
theorem Span.split (line : Array UInt8) {start stop : Nat} (hle : start ≤ stop) :
    line.toList = line.toList.take start ++ Span.of ⟨start, stop⟩ line ++
      line.toList.drop stop := by
  rw [Span.of_eq_take_drop, Span.length, List.append_assoc]
  nth_rewrite 1 [← List.take_append_drop start line.toList]
  congr 1
  nth_rewrite 1 [← List.take_append_drop (stop - start) (line.toList.drop start)]
  rw [List.drop_drop, show start + (stop - start) = stop by omega]

/-- A middle part is the piece between the other two. -/
theorem Span.of_middle {line : Array UInt8} {u v w : List UInt8}
    (h : line.toList = u ++ v ++ w) :
    Span.of ⟨u.length, u.length + v.length⟩ line = v ∧
      u.length + v.length + w.length = line.size := by
  constructor
  · rw [Span.of_eq_take_drop, h]
    simp [Span.length]
  · rw [← Array.length_toList, h]
    simp only [List.length_append]

/-- The ways of a whole pattern end where its words end and, if it is tied to the
end of the line, only there. -/
theorem Pattern.Readable.ways_iff {p : Pattern} (hread : p.Readable)
    (href : itemsReferences p.items = []) {line : Array UInt8} {pos stop : Nat}
    (hpos : pos ≤ line.size) (c : Captures) :
    (∃ w ∈ itemsWays line p.items pos c, w.stop = stop) ↔
      pos ≤ stop ∧ stop ≤ line.size ∧ Span.of ⟨pos, stop⟩ line ∈ itemsLanguage p.items ∧
        (p.matchEnd = true → stop = line.size) := by
  obtain ⟨items, hitems, heq⟩ := hread.items
  unfold matchEnd
  rcases heq with heq | heq
  · rw [heq] at href ⊢
    rw [itemsWays_recognize items hitems href pos c stop hpos, getLast?_any_isEndAnchor hitems]
    simp
  · rw [heq, itemsReferences_append] at href
    rw [heq, itemsLanguage_append_endAnchor, exists_mem_itemsWays_endAnchor_iff,
      itemsWays_recognize items hitems (List.append_eq_nil_iff.mp href).1 pos c stop hpos]
    simp [Item.isEndAnchor, and_assoc]

/-- A way that a search may end with is a word that occurs, and the other way
round. -/
theorem Pattern.occurs_iff {text : List UInt8} {p : Pattern} (h : ofBytes text = .ok p)
    (href : itemsReferences p.items = []) (line : Array UInt8) :
    Occurs text (itemsLanguage p.items) line.toList ↔
      ∃ pos ≤ if p.matchStart then 0 else line.size,
        itemsWays line p.items pos (.unset p.groups) ≠ [] := by
  have hread := readable_of_ofBytes h
  constructor
  · rintro ⟨u, v, w, hline, hword, hstart, hend⟩
    obtain ⟨hv, hsize⟩ := Span.of_middle hline
    rw [← hv] at hword
    refine ⟨u.length, ?_, ?_⟩
    · split
      next htied => simp [hstart ((matchStart_iff h).mp htied)]
      next => omega
    · have hlast : p.matchEnd = true → u.length + v.length = line.size := by
        intro htied
        rw [← hsize, hend ((matchEnd_iff h).mp htied), List.length_nil, Nat.add_zero]
      obtain ⟨way, hway, _⟩ := (hread.ways_iff href (by omega) (.unset p.groups)).mpr
        ⟨Nat.le_add_right _ _, by omega, hword, hlast⟩
      exact List.ne_nil_of_mem hway
  · rintro ⟨pos, hpos, hways⟩
    have hfirst : pos ≤ line.size := by
      refine Nat.le_trans hpos ?_
      split <;> omega
    obtain ⟨way, hway⟩ := List.exists_mem_of_ne_nil _ hways
    obtain ⟨hle, hsize, hword, hlast⟩ := (hread.ways_iff href hfirst _).mp ⟨way, hway, rfl⟩
    refine ⟨_, _, _, Span.split line hle, hword, fun hcaret => ?_, fun hdollar => ?_⟩
    · rw [if_pos ((matchStart_iff h).mpr hcaret)] at hpos
      rw [Nat.le_zero.mp hpos, List.take_zero]
    · rw [hlast ((matchEnd_iff h).mpr hdollar), ← Array.length_toList, List.drop_length]

/-- Every pattern without backreferences compiles. A line is answered unless the
table of captures would be too long to exist, and matches only if a word of the
pattern occurs in it. If one does, the line matches unless an attempt gave up a
path for depth. -/
theorem matchLine_decides_language (text : String) (p : Pattern)
    (h : Pattern.ofString text = .ok p) (href : itemsReferences p.items = []) :
    ∃ r, Regex.compile text = .ok r ∧ ∀ line : Array UInt8,
      ((∃ matched, r.matchLine line = .ok matched) ↔ r.groupCount ≤ Captures.maxSize) ∧
      (r.matchLine line = .ok true →
        Occurs text.toUTF8.toList (itemsLanguage p.items) line.toList) ∧
      (Occurs text.toUTF8.toList (itemsLanguage p.items) line.toList →
        r.groupCount ≤ Captures.maxSize → (∀ o ∈ r.attempts line, o.state.deep = false) →
          r.matchLine line = .ok true) := by
  have hread := Pattern.readable_of_ofBytes h
  obtain ⟨program, hprogram⟩ := Pattern.exists_toProgram_of_ofBytes h
  let r : Regex := ⟨program, p.matchStart, p.matchEnd⟩
  refine ⟨r, ?_, ?_⟩
  · simp [Regex.compile, h, Regex.ofPattern, hprogram, r]
  intro line
  have hoccurs := Pattern.occurs_iff h href line
  rw [hoccurs]
  have hsearch := r.search_agrees hread hprogram rfl line
  refine ⟨Regex.exists_matchLine_iff hread hprogram rfl, ?_, ?_⟩
  · intro hmatch
    obtain ⟨span, hfound⟩ := Regex.matchLine_eq_true.mp hmatch
    have hslots := Regex.groupCount_le_of_found hfound
    have hsearch := hsearch hslots
    rw [hfound] at hsearch
    obtain ⟨_, hhigh, w, hw, _⟩ := hsearch
    exact ⟨span.start, hhigh, List.ne_nil_of_mem hw⟩
  · rintro ⟨pos, hpos, hways⟩ hslots hdeep
    have hsearch := hsearch hslots
    cases hfound : (r.search line).found with
    | error fault =>
        rw [hfound] at hsearch
        exact hsearch.elim
    | ok found =>
        rw [hfound] at hsearch
        cases found with
        | some span => exact Regex.matchLine_eq_true.mpr ⟨span, hfound⟩
        | none => exact absurd (hsearch hdeep pos (Nat.zero_le pos) hpos) hways

/-- The body of the group may be empty, so its iterations end with an empty one;
that the first line is matched and the second is not tells which of them holds a
word from start to end. -/
theorem matchLine_decides_language_nullable :
    ∃ p, Pattern.ofString "^(a?|b)*$" = .ok p ∧
      Occurs "^(a?|b)*$".toUTF8.toList (itemsLanguage p.items) [97, 98, 97] ∧
      ¬ Occurs "^(a?|b)*$".toUTF8.toList (itemsLanguage p.items) [97, 99, 97] := by
  let p : Pattern := ⟨true, [.quantified .star
    (.group 1 [[.quantified .optional (.byte 97)], [.byte 98]]), .endAnchor], 1⟩
  have hread : Pattern.ofString "^(a?|b)*$" = .ok p := (Pattern.ofString_eq _).trans rfl
  obtain ⟨r, hcompile, hlines⟩ := matchLine_decides_language _ p hread rfl
  simp only [Regex.compile, hread] at hcompile
  cases hcompile
  refine ⟨p, hread, (hlines #[97, 98, 97]).2.1 (by decide +kernel), fun hoccurs => ?_⟩
  have hmatch := (hlines #[97, 99, 97]).2.2 hoccurs (by decide +kernel) (by decide +kernel)
  exact absurd hmatch (by decide +kernel)

end ByteRegex
