import ByteRegex.Proofs.Language.Captures
import ByteRegex.Proofs.Matcher.Attempts

/-!
# A group and its copy

A reference right behind a group asks for the bytes that the group has just taken, so the two
together take a word of the group twice. Which word that is cannot be told from the words of the
group alone: if the copy fails, the group is to try its other ways, and for each of them the slot
is to hold what was taken on that way. All ways of the group end where its words end
(`branchesWays_recognize`), and each leaves its own piece in the slot, so the copy is compared
with every one of them.

Tied to both ends of the line, such a pattern matches the lines that are a word of the group and
the same word again.
-/

namespace ByteRegex

/-- The words of a language, each twice in a row. -/
def doubled (l : Language UInt8) : Language UInt8 :=
  {w | ∃ x ∈ l, w = x ++ x}

section

variable {text : Array UInt8} {slot number pos stop : Nat} {c : Captures}

/-- A reference ends behind a piece with the bytes that the slot holds. -/
theorem exists_mem_referenceWays_iff {span : Span} (hspan : c.get? slot = some span)
    (hpos : pos ≤ text.size) :
    (∃ w ∈ referenceWays text slot pos c, w.stop = stop) ↔
      pos ≤ stop ∧ stop ≤ text.size ∧ Span.of ⟨pos, stop⟩ text = span.of text := by
  have hlength : text.toList.length = text.size := Array.length_toList
  simp only [referenceWays, hspan]
  constructor
  · rintro ⟨w, hw, rfl⟩
    split at hw
    next hcopy =>
      obtain rfl := List.mem_singleton.mp hw
      have hfit := hcopy.length_le
      rw [List.length_drop, hlength] at hfit
      refine ⟨Nat.le_add_right _ _, by dsimp only; omega, ?_⟩
      rw [Span.of_eq_take_drop, Span.length, Nat.add_sub_cancel_left]
      exact (List.prefix_iff_eq_take.mp hcopy).symm
    next => cases hw
  · rintro ⟨hle, hsize, hsame⟩
    have hcopy : span.of text <+: text.toList.drop pos := by
      rw [← hsame, Span.of_eq_take_drop]
      exact List.take_prefix _ _
    rw [if_pos hcopy]
    refine ⟨_, List.mem_singleton.mpr rfl, ?_⟩
    have hpiece := Span.length_of ⟨pos, stop⟩ text hsize
    rw [hsame] at hpiece
    simp only [hpiece, Span.length]
    omega

/-- A group that occurs once captures what its alternatives take. -/
theorem mem_group_ways_once_iff {alternatives : List (List Item)} {w : Way} :
    w ∈ (Item.group number alternatives).ways text .once pos c ↔
      ∃ v ∈ branchesWays text alternatives pos c,
        w = ⟨v.stop, v.captures.set (slotOf number) (some ⟨pos, v.stop⟩)⟩ := by
  simp [Item.ways, groupWays, iterationWays_eq, tailWays, Repeat.isUnbounded, Repeat.min]

/-- The group and the reference behind it end where a word of the group ends that stands there
twice. -/
theorem exists_mem_itemsWays_copy_iff {alternatives : List (List Item)}
    (hwords : HasWords (number, alternatives)) (hslot : slotOf number < c.slots.size)
    (hpos : pos ≤ text.size) :
    (∃ w ∈ itemsWays text [.group number alternatives, .backreference number] pos c,
        w.stop = stop) ↔
      pos ≤ stop ∧ stop ≤ text.size ∧
        Span.of ⟨pos, stop⟩ text ∈ doubled (branchesLanguage alternatives) := by
  have hrecognize : Recognizes text (branchesWays text alternatives)
      (branchesLanguage alternatives) := branchesWays_recognize alternatives hwords.1 hwords.2
  have hcopy : ∀ v ∈ branchesWays text alternatives pos c,
      (∃ w ∈ itemsWays text [.backreference number] v.stop
          (v.captures.set (slotOf number) (some ⟨pos, v.stop⟩)), w.stop = stop) ↔
        v.stop ≤ stop ∧ stop ≤ text.size ∧
          Span.of ⟨v.stop, stop⟩ text = Span.of ⟨pos, v.stop⟩ text := by
    intro v hv
    obtain ⟨hsize, hsame⟩ := branchesWays_sameSize alternatives pos c hpos v hv
    have hheld := Captures.get?_set_self (show slotOf number < v.captures.slots.size from
      hsame ▸ hslot) (some ⟨pos, v.stop⟩)
    rw [← exists_mem_referenceWays_iff hheld hsize]
    simp [itemsWays_cons, Item.ways]
  rw [itemsWays_cons]
  constructor
  · rintro ⟨w, hw, hstop⟩
    obtain ⟨u, hu, hw⟩ := List.mem_flatMap.mp hw
    obtain ⟨v, hv, rfl⟩ := mem_group_ways_once_iff.mp hu
    obtain ⟨hle, hsize, hword⟩ := (hrecognize pos c v.stop hpos).mp ⟨v, hv, rfl⟩
    obtain ⟨hle', hsize', hsame⟩ := (hcopy v hv).mp ⟨w, hw, hstop⟩
    refine ⟨Nat.le_trans hle hle', hsize', _, hword, ?_⟩
    rw [Span.of_append text hle hle', hsame]
  · rintro ⟨hle, hsize, x, hx, hword⟩
    obtain ⟨hfit, hfirst, hsecond⟩ := Span.of_eq_append hle hsize hword
    have hmid := Nat.le_trans hfit hsize
    rw [← hfirst] at hx
    obtain ⟨v, hv, hend⟩ :=
      (hrecognize pos c (pos + x.length) hpos).mpr ⟨Nat.le_add_right _ _, hmid, hx⟩
    have hsame : Span.of ⟨v.stop, stop⟩ text = Span.of ⟨pos, v.stop⟩ text := by
      rw [hend, hfirst, hsecond]
    obtain ⟨w, hw, hstop⟩ := (hcopy v hv).mpr ⟨hend ▸ hfit, hsize, hsame⟩
    exact ⟨w, List.mem_flatMap.mpr ⟨_, mem_group_ways_once_iff.mpr ⟨v, hv, rfl⟩, hw⟩, hstop⟩

end

/-- What stands before the end anchor has none. -/
theorem Pattern.Readable.of_append_endAnchor {p : Pattern} (hread : p.Readable)
    {items : List Item} (h : p.items = items ++ [.endAnchor]) : itemsReadable items := by
  obtain ⟨others, hothers, heq | heq⟩ := hread.items
  · rw [← heq, h, itemsReadable_append, itemsReadable_cons] at hothers
    exact hothers.2.1.elim
  · rwa [List.append_cancel_right (h.symm.trans heq)]

/-- From the start of a line there is a way through the group, its copy and the end anchor if the
line is a word of the group twice in a row. -/
theorem Pattern.Readable.ways_doubled_iff {p : Pattern} (hread : p.Readable) {number : Nat}
    {alternatives : List (List Item)} (href : branchesReferences alternatives = [])
    (hitems : p.items = [.group number alternatives, .backreference number] ++ [.endAnchor])
    (line : Array UInt8) :
    itemsWays line p.items 0 (.unset p.groups) ≠ [] ↔
      line.toList ∈ doubled (branchesLanguage alternatives) := by
  have hwords : HasWords (number, alternatives) := by
    have hreadable := hread.of_append_endAnchor hitems
    rw [itemsReadable_cons, Item.Readable] at hreadable
    exact ⟨hreadable.1.2, href⟩
  have hslot : slotOf number < (Captures.unset p.groups).slots.size := by
    have hgroup : (number, alternatives) ∈ itemsGroups p.items := by
      rw [hitems, List.cons_append, itemsGroups_cons, Item.groups]
      exact List.mem_cons_self
    simpa [Captures.unset] using hread.slotOf_lt hgroup
  have hline : Span.of ⟨0, line.size⟩ line = line.toList := by simp [Span.of]
  have hcopies : (∃ w ∈ itemsWays line [.group number alternatives, .backreference number] 0
      (.unset p.groups), w.stop = line.size) ↔ _ :=
    exists_mem_itemsWays_copy_iff hwords hslot (Nat.zero_le line.size)
  rw [hline] at hcopies
  rw [hitems]
  constructor
  · intro hways
    obtain ⟨w, hw⟩ := List.exists_mem_of_ne_nil _ hways
    obtain ⟨hway, hend⟩ := exists_mem_itemsWays_endAnchor_iff.mp ⟨w, hw, rfl⟩
    rw [hend] at hway
    exact (hcopies.mp hway).2.2
  · intro hword
    have hway := hcopies.mpr ⟨Nat.zero_le _, Nat.le_refl _, hword⟩
    obtain ⟨w, hw, _⟩ := exists_mem_itemsWays_endAnchor_iff.mpr ⟨hway, rfl⟩
    exact List.ne_nil_of_mem hw

/-- Every pattern that is tied to both ends of the line and consists of group 1, without a
reference in it, and a reference to that group compiles. It matches only lines that are a word of
the group twice in a row. Such a line is matched unless the attempt gave up a path for depth. -/
theorem matchLine_decides_doubled (text : String) (p : Pattern) (alternatives : List (List Item))
    (h : Pattern.ofString text = .ok p) (hstart : p.matchStart = true)
    (hitems : p.items = [.group 1 alternatives, .backreference 1, .endAnchor])
    (href : branchesReferences alternatives = []) :
    ∃ r, Regex.compile text = .ok r ∧ ∀ line : Array UInt8,
      (r.matchLine line = .ok true →
        ∃ x ∈ branchesLanguage alternatives, line.toList = x ++ x) ∧
      ((∃ x ∈ branchesLanguage alternatives, line.toList = x ++ x) →
        (∃ o, r.attempts line = [o] ∧ o.state.deep = false) → r.matchLine line = .ok true) := by
  have hread := Pattern.readable_of_ofBytes h
  obtain ⟨program, hprogram⟩ := Pattern.exists_toProgram_of_ofBytes h
  let r : Regex := ⟨program, p.matchStart, p.matchEnd⟩
  refine ⟨r, Regex.compile_of_ofString h hprogram, ?_⟩
  intro line
  have hways := hread.ways_doubled_iff href hitems line
  have hattempt := hread.matchAt_cases (m := r.matcher line) hprogram (Nat.zero_le _)
    (Regex.fresh_hasSlots (r := r) hprogram line)
  constructor
  · intro hmatch
    have hslots := Regex.groupCount_le_of_matchLine hmatch
    obtain ⟨stop, t, hmatched⟩ :=
      (Regex.matchLine_eq_true_of_matchStart hstart hslots).mp hmatch
    rcases hattempt with ⟨_, _, _, w, hw, _⟩ | ⟨_, hfailed, _⟩
    · exact hways.mp (List.ne_nil_of_mem hw)
    · rw [hmatched] at hfailed
      cases hfailed
  · rintro hword ⟨o, hattempts, hdeep⟩
    have hslots : r.groupCount ≤ Captures.maxSize := Regex.groupCount_le_of_attempts
      (hattempts ▸ List.cons_ne_nil _ _)
    rw [Regex.attempts_of_matchStart hstart hslots, List.singleton_inj] at hattempts
    rw [Regex.matchLine_eq_true_of_matchStart hstart hslots]
    rcases hattempt with ⟨stop, t, hmatched, _⟩ | ⟨t, hfailed, _, hnone⟩
    · exact ⟨stop, t, hmatched⟩
    · rw [← hattempts, hfailed] at hdeep
      exact absurd (hnone hdeep) (hways.mpr hword)

/-- On the first line the group takes all four bytes before it gives back two of them. The halves of
the second line are alike as well, but no word of the group. -/
theorem matchLine_decides_doubled_runs :
    ∃ p alternatives, Pattern.ofString "^((a|b)*c?)\\1$" = .ok p ∧ p.matchStart = true ∧
      p.items = [.group 1 alternatives, .backreference 1, .endAnchor] ∧
      branchesReferences alternatives = [] ∧
      (∃ x ∈ branchesLanguage alternatives, [97, 98, 97, 98] = x ++ x) ∧
      ¬ ∃ x ∈ branchesLanguage alternatives, [99, 98, 99, 98] = x ++ x := by
  let alternatives : List (List Item) := [[.quantified .star (.group 2 [[.byte 97], [.byte 98]]),
    .quantified .optional (.byte 99)]]
  let p : Pattern := ⟨true, [.group 1 alternatives, .backreference 1, .endAnchor], 2⟩
  have hread : Pattern.ofString "^((a|b)*c?)\\1$" = .ok p := (Pattern.ofString_eq _).trans rfl
  obtain ⟨r, hcompile, hlines⟩ := matchLine_decides_doubled _ p alternatives hread rfl rfl rfl
  simp only [Regex.compile, hread] at hcompile
  cases hcompile
  refine ⟨p, alternatives, hread, rfl, rfl, rfl,
    (hlines #[97, 98, 97, 98]).1 (by decide +kernel), fun hword => ?_⟩
  have hmatch := (hlines #[99, 98, 99, 98]).2 hword
    ⟨_, Regex.attempts_of_matchStart rfl (by decide), by decide +kernel⟩
  exact absurd hmatch (by decide +kernel)

end ByteRegex
