import ByteRegex.Proofs.Language.Captures
import ByteRegex.Proofs.Matcher.Attempts
import ByteRegex.Proofs.Matcher.Suffix
import ByteRegex.Proofs.Pattern.Ends

/-!
# More text hides no match

Put other bytes before a text and behind it, and every way through the text is still there, at the
same distance from its bytes. There are new ways among them, and some come before the old ones: a
run goes on into the new bytes, a negated class takes one of them, an iteration more is possible,
and then a group has captured something else when a reference to it comes. So the first way may be
another one, but a pattern that is not tied to the end of the line does not lose its last.

A way is kept with what it captures, since what comes after it may depend on that, and what is
captured has to lie within the text, as it would not mean the same bytes otherwise. Both ends of a
way do, and so does what is captured along it if it did at first.
-/

namespace ByteRegex

/-- Nothing that is captured reaches beyond this size. -/
def Captures.Within (c : Captures) (size : Nat) : Prop :=
  ∀ slot span, c.get? slot = some span → span.stop ≤ size

/-- What is captured at the second point lies within the text if it does at the first. -/
def Way.StaysWithin (text : Array UInt8) (v w : Way) : Prop :=
  v.captures.Within text.size → w.captures.Within text.size

/-- The same way behind `cut` more bytes. -/
def Way.moved (cut : Nat) (w : Way) : Way :=
  ⟨cut + w.stop, w.captures.moved cut⟩

/-- Every way through the text from a point within it is one of the wider ways, behind the bytes
`before`. -/
def Persists (before text : Array UInt8) (ways wider : Nat → Captures → List Way) : Prop :=
  ∀ pos c, pos ≤ text.size → c.Within text.size → ∀ w ∈ ways pos c,
    w.moved before.size ∈ wider (before.size + pos) (c.moved before.size)

/-! ## Captures -/

theorem Captures.within_unset (slots size : Nat) : (unset slots).Within size := by
  intro slot span hspan
  rw [get?_unset] at hspan
  cases hspan

theorem Captures.Within.set {c : Captures} {size : Nat} (h : c.Within size) (slot : Nat)
    {span : Span} (hspan : span.stop ≤ size) : (c.set slot (some span)).Within size := by
  intro other held hheld
  by_cases hslot : slot = other
  · subst hslot
    by_cases hin : slot < c.slots.size
    · rw [get?_set_self hin] at hheld
      exact Option.some.inj hheld ▸ hspan
    · rw [set_of_size_le (Nat.le_of_not_lt hin)] at hheld
      exact h slot held hheld
  · rw [get?_set_ne hslot] at hheld
    exact h other held hheld

section

variable {text : Array UInt8}

theorem Way.staysWithin_composes : Composes (StaysWithin text) :=
  ⟨fun _ _ => id, fun huv hvw => hvw ∘ huv⟩

theorem Way.staysWithin_keptByCapture (g : Nat × List (List Item)) :
    KeptByCapture text (StaysWithin text) g :=
  fun _ _ _ _ _ hsize hwithin hc => (hwithin hc).set _ hsize

theorem Item.ways_staysWithin (item : Item) (times : Repeat) :
    Leads text (Way.StaysWithin text) (item.ways text times) :=
  Item.ways_lead Way.staysWithin_composes item times fun g _ => Way.staysWithin_keptByCapture g

theorem branchesWays_staysWithin (alternatives : List (List Item)) :
    Leads text (Way.StaysWithin text) (branchesWays text alternatives) :=
  branchesWays_lead Way.staysWithin_composes alternatives fun g _ =>
    Way.staysWithin_keptByCapture g

end

/-! ## Texts -/

section

variable (before behind : Array UInt8) {text : Array UInt8}

/-- From a point within the text on, the wider text goes on as the text does. -/
theorem drop_widened {pos : Nat} (hpos : pos ≤ text.size) :
    (before ++ text ++ behind).toList.drop (before.size + pos) =
      text.toList.drop pos ++ behind.toList := by
  have hlength : text.toList.length = text.size := Array.length_toList
  rw [Array.append_assoc, Array.toList_append, Array.toList_append, ← Array.length_toList,
    List.drop_append, List.drop_eq_nil_of_le (Nat.le_add_right ..), List.nil_append,
    Nat.add_sub_cancel_left, List.drop_append_of_le_length (hlength ▸ hpos)]

theorem getElem?_widened {pos : Nat} {b : UInt8} (hb : text[pos]? = some b) :
    (before ++ text ++ behind)[before.size + pos]? = some b := by
  obtain ⟨hpos, -⟩ := Array.getElem?_eq_some_iff.mp hb
  rw [Array.append_assoc, getElem?_behind, Array.getElem?_append_left hpos, hb]

theorem Span.of_widened {span : Span} (hspan : span.stop ≤ text.size) :
    (span.moved before.size).of (before ++ text ++ behind) = span.of text := by
  have hnone : behind.extract (span.start - text.size) (span.stop - text.size) = #[] := by
    rw [Nat.sub_eq_zero_of_le hspan]
    exact Array.extract_empty_of_stop_le_start (Nat.zero_le _)
  rw [Array.append_assoc, of_moved, of, Array.extract_append, hnone, Array.append_empty, of]

/-- A run may go on in the bytes behind. -/
theorem runLength_widened (accepted : ByteClass) {pos : Nat} (hpos : pos ≤ text.size) :
    runLength text accepted pos ≤
      runLength (before ++ text ++ behind) accepted (before.size + pos) := by
  unfold runLength
  rw [drop_widened before behind hpos, List.takeWhile_append]
  split
  next hall =>
    rw [hall, List.length_append]
    exact Nat.le_add_right ..
  next => exact Nat.le_refl _

end

/-! ## Putting ways together -/

namespace Persists

variable {before text : Array UInt8} {ways more wider wider' : Nat → Captures → List Way}

theorem stay : Persists before text (fun pos c => [⟨pos, c⟩]) fun pos c => [⟨pos, c⟩] := by
  intro pos c _ _ w hw
  obtain rfl := List.mem_singleton.mp hw
  exact List.mem_singleton.mpr rfl

theorem never : Persists before text (fun _ _ => []) fun _ _ => [] :=
  fun _ _ _ _ _ hw => (nomatch hw)

theorem append (h : Persists before text ways wider) (g : Persists before text more wider') :
    Persists before text (fun pos c => ways pos c ++ more pos c)
      fun pos c => wider pos c ++ wider' pos c := by
  intro pos c hpos hc w hw
  rcases List.mem_append.mp hw with hw | hw
  · exact List.mem_append_left _ (h pos c hpos hc w hw)
  · exact List.mem_append_right _ (g pos c hpos hc w hw)

/-- The way that comes after begins with what the first has captured. -/
theorem andThen (h : Persists before text ways wider)
    (hwithin : Leads text (Way.StaysWithin text) ways) (g : Persists before text more wider') :
    Persists before text (fun pos c => (ways pos c).flatMap fun w => more w.stop w.captures)
      fun pos c => (wider pos c).flatMap fun w => wider' w.stop w.captures := by
  intro pos c hpos hc w hw
  obtain ⟨v, hv, hw⟩ := List.mem_flatMap.mp hw
  obtain ⟨hsize, hkept⟩ := hwithin pos c hpos v hv
  exact List.mem_flatMap.mpr ⟨_, h pos c hpos hc v hv, g v.stop v.captures hsize (hkept hc) w hw⟩

section

variable (behind : Array UInt8)

theorem byte (accepted : ByteClass) : Persists before text (byteWays text accepted)
    (byteWays (before ++ text ++ behind) accepted) := by
  intro pos c _ _ w hw
  unfold byteWays at hw ⊢
  cases hb : text[pos]? with
  | none =>
      rw [hb] at hw
      cases hw
  | some b =>
      rw [hb] at hw
      rw [getElem?_widened before behind hb]
      dsimp only at hw ⊢
      split at hw
      next haccepts =>
        obtain rfl := List.mem_singleton.mp hw
        rw [if_pos haccepts]
        exact List.mem_singleton.mpr rfl
      next => cases hw

theorem ofClass (accepted : ByteClass) (times : Repeat) :
    Persists before text (classWays text accepted times)
      (classWays (before ++ text ++ behind) accepted times) := by
  cases times with
  | once => exact byte behind accepted
  | optional => exact (byte behind accepted).append stay
  | star | plus =>
      intro pos c hpos _ w hw
      have hrun := runLength_widened before behind accepted hpos
      obtain ⟨n, hn, rfl⟩ := List.mem_map.mp hw
      rw [List.mem_reverse, List.mem_range'_1] at hn
      refine List.mem_map.mpr ⟨n, ?_, congrArg (Way.mk · _) (Nat.add_assoc ..)⟩
      rw [List.mem_reverse, List.mem_range'_1]
      omega

/-- The copy is of the same bytes, as they lie within the text. -/
theorem ofReference (slot : Nat) : Persists before text (referenceWays text slot)
    (referenceWays (before ++ text ++ behind) slot) := by
  intro pos c hpos hc w hw
  unfold referenceWays at hw ⊢
  rw [Captures.get?_moved]
  cases hspan : c.get? slot with
  | none =>
      rw [hspan] at hw
      cases hw
  | some span =>
      rw [hspan] at hw
      dsimp only [Option.map_some] at hw ⊢
      rw [Span.of_widened before behind (hc slot span hspan), drop_widened before behind hpos]
      split at hw
      next hcopy =>
        obtain rfl := List.mem_singleton.mp hw
        rw [if_pos (hcopy.trans (List.prefix_append ..)), Nat.add_assoc]
        exact List.mem_singleton.mpr rfl
      next => cases hw

/-- The induction is on what is left of the text: an iteration that another one follows has taken a
byte of it. -/
theorem iterations (h : Persists before text ways wider)
    (hwithin : Leads text (Way.StaysWithin text) ways) (slot : Nat) (times : Repeat) :
    Persists before text (iterationWays text slot times ways)
      (iterationWays (before ++ text ++ behind) slot times wider) := by
  intro pos c hpos hc w hw
  induction hleft : text.size - pos using Nat.strong_induction_on generalizing pos c with
  | _ left ih =>
      rw [iterationWays_eq] at hw ⊢
      obtain ⟨v, hv, hw⟩ := List.mem_flatMap.mp hw
      obtain ⟨hsize, hkept⟩ := hwithin pos c hpos v hv
      refine List.mem_flatMap.mpr ⟨_, h pos c hpos hc v hv, ?_⟩
      have hcaptured : (v.captures.set slot (some ⟨pos, v.stop⟩)).Within text.size :=
        (hkept hc).set slot hsize
      have hset : (v.captures.set slot (some ⟨pos, v.stop⟩)).moved before.size =
          (v.captures.moved before.size).set slot
            (some ⟨before.size + pos, before.size + v.stop⟩) :=
        Captures.moved_set ..
      change _ ∈ tailWays _ slot times wider _ (before.size + v.stop) (v.captures.moved before.size)
      rw [mem_tailWays_iff, ← hset]
      rcases mem_tailWays_iff.mp hw with ⟨⟨htimes, hlt, _⟩, hw⟩ | rfl
      · have hwide : before.size + v.stop ≤ (before ++ text ++ behind).size := by
          rw [Array.size_append, Array.size_append]
          omega
        refine .inl ⟨⟨htimes, Nat.add_lt_add_left hlt _, hwide⟩, ?_⟩
        exact ih (text.size - v.stop) (by omega) v.stop _ hsize hcaptured hw rfl
      · exact .inr rfl

theorem ofGroup (h : Persists before text ways wider)
    (hwithin : Leads text (Way.StaysWithin text) ways) (slot : Nat) (times : Repeat) :
    Persists before text (groupWays text slot times ways)
      (groupWays (before ++ text ++ behind) slot times wider) := by
  refine (iterations behind h hwithin slot times).append ?_
  by_cases hmin : times.min = 0
  · simpa only [if_pos hmin] using stay
  · simpa only [if_neg hmin] using never

end

end Persists

/-! ## Trees -/

section

variable (before behind : Array UInt8) {text : Array UInt8}

mutual

theorem Item.ways_persist : ∀ (item : Item) (times : Repeat), item.Readable →
    Persists before text (item.ways text times) (item.ways (before ++ text ++ behind) times)
  | .byte _, times, _ | .any, times, _ | .oneOf _ _, times, _ => by
      simp only [Item.ways]
      exact Persists.ofClass behind _ times
  | .quantified q inner, _, h => by
      rw [Item.Readable] at h
      simp only [Item.ways]
      exact Item.ways_persist inner q.times h.2
  | .group number alternatives, times, h => by
      rw [Item.Readable] at h
      simp only [Item.ways]
      exact Persists.ofGroup behind (branchesWays_persist alternatives h.2)
        (branchesWays_staysWithin alternatives) (slotOf number) times
  | .backreference number, _, _ => by
      simp only [Item.ways]
      exact Persists.ofReference behind (slotOf number)
  | .endAnchor, _, h => h.elim

theorem itemsWays_persist : ∀ items : List Item, itemsReadable items →
    Persists before text (itemsWays text items) (itemsWays (before ++ text ++ behind) items)
  | [], _ => by
      simp only [itemsWays]
      exact Persists.stay
  | item :: rest, h => by
      rw [itemsReadable_cons] at h
      simp only [itemsWays]
      exact (Item.ways_persist item .once h.1).andThen (item.ways_staysWithin .once)
        (itemsWays_persist rest h.2)

theorem branchesWays_persist : ∀ alternatives : List (List Item), branchesReadable alternatives →
    Persists before text (branchesWays text alternatives)
      (branchesWays (before ++ text ++ behind) alternatives)
  | [], _ => by
      simp only [branchesWays]
      exact Persists.never
  | items :: rest, h => by
      rw [branchesReadable_cons] at h
      simp only [branchesWays]
      exact (itemsWays_persist items h.1).append (branchesWays_persist rest h.2)

end

end

/-! ## Searches -/

/-- A pattern that is not tied to the end of the line has no end anchor in it. -/
theorem Pattern.Readable.itemsReadable_of_matchEnd {p : Pattern} (hread : p.Readable)
    (hend : p.matchEnd = false) : itemsReadable p.items := by
  obtain ⟨items, hitems, heq | heq⟩ := hread.items
  · rwa [heq]
  · unfold matchEnd at hend
    rw [heq, List.getLast?_concat] at hend
    cases hend

/-- Without an end anchor, a pattern that has a way through a text has one through a wider text, as
much later as there are bytes before it. -/
theorem Pattern.Readable.ways_widened {p : Pattern} (hread : p.Readable)
    (hend : p.matchEnd = false) (before behind : Array UInt8) {text : Array UInt8} {pos : Nat}
    (hpos : pos ≤ text.size) (h : itemsWays text p.items pos (.unset p.groups) ≠ []) :
    itemsWays (before ++ text ++ behind) p.items (before.size + pos) (.unset p.groups) ≠ [] := by
  obtain ⟨w, hw⟩ := List.exists_mem_of_ne_nil _ h
  have hwide := itemsWays_persist before behind p.items
    (hread.itemsReadable_of_matchEnd hend) pos _ hpos (Captures.within_unset _ _) w hw
  rw [Captures.moved_unset] at hwide
  exact List.ne_nil_of_mem hwide

/-- Every text that is a pattern and does not end with a `$` that stands for the end of the line
compiles to a search that finds a match in a line only if it finds one in every wider line: with any
bytes behind it and, unless the text begins with `^`, any bytes before it. The one condition is that
no attempt through the wider line gives up a path for depth; attempts through the line itself may
do. -/
theorem more_text_hides_no_match (text : String) (p : Pattern) (h : Pattern.ofString text = .ok p)
    (hend : ¬ EndsWithDollar text.toUTF8.toList) :
    ∃ r, Regex.compile text = .ok r ∧
      ∀ before line behind : Array UInt8,
        (text.toUTF8.toList.head? = some '^'.toUInt8 → before = #[]) →
        r.matchLine line = .ok true →
        (∀ o ∈ r.attempts (before ++ line ++ behind), o.state.deep = false) →
          r.matchLine (before ++ line ++ behind) = .ok true := by
  have hread := Pattern.readable_of_ofBytes h
  obtain ⟨program, hprogram⟩ := Pattern.exists_toProgram_of_ofBytes h
  have hfree : p.matchEnd = false := by
    rw [← Bool.not_eq_true, Pattern.matchEnd_iff h]
    exact hend
  refine ⟨_, Regex.compile_of_ofString h hprogram, fun before line behind htied hmatch hdeep => ?_⟩
  have hslots := Regex.groupCount_le_of_matchLine hmatch
  obtain ⟨pos, hpos, hways⟩ := Regex.exists_ways_of_matchLine hread hprogram rfl hmatch
  rw [Regex.matchLine_iff_ways hread hprogram rfl hslots hdeep]
  refine ⟨before.size + pos, ?_, hread.ways_widened hfree before behind ?_ hways⟩
  · cases hstart : p.matchStart with
    | true =>
        rw [hstart, if_pos rfl] at hpos
        rw [htied ((Pattern.matchStart_iff h).mp hstart), if_pos rfl, Array.size_empty,
          Nat.zero_add]
        exact hpos
    | false =>
        rw [hstart, if_neg Bool.false_ne_true] at hpos
        rw [if_neg Bool.false_ne_true, Array.size_append, Array.size_append]
        omega
  · split at hpos <;> omega

/-- In the line the outer group gives two of its bytes back, down to the `a` that is repeated behind
the `b`. With two bytes more it comes to `ab` first, which is repeated as well, and the match ends
behind the line. -/
theorem more_text_hides_no_match_longer :
    ∃ r, Regex.compile "((a|b)+)[^c]\\1" = .ok r ∧
      (r.search #[97, 98, 97]).found = .ok (some ⟨0, 3⟩) ∧
      (r.search #[99, 97, 98, 97, 97, 98]).found = .ok (some ⟨1, 6⟩) ∧
      r.matchLine #[97, 98, 97] = .ok true ∧
      r.matchLine (#[99] ++ #[97, 98, 97] ++ #[97, 98]) = .ok true := by
  let p : Pattern := ⟨false, [.group 1 [[.quantified .plus (.group 2 [[.byte 97], [.byte 98]])]],
    .oneOf [99] true, .backreference 1], 2⟩
  have hread : Pattern.ofString "((a|b)+)[^c]\\1" = .ok p := (Pattern.ofString_eq _).trans rfl
  have hend : ¬ EndsWithDollar "((a|b)+)[^c]\\1".toUTF8.toList :=
    (Pattern.matchEnd_iff hread).not.mp Bool.false_ne_true
  obtain ⟨r, hcompile, hwider⟩ := more_text_hides_no_match _ p hread hend
  have hr := hcompile
  simp only [Regex.compile, hread] at hr
  cases hr
  have hline := hwider #[99] #[97, 98, 97] #[97, 98] (by decide +kernel) (by decide +kernel)
    (by decide +kernel)
  exact ⟨_, hcompile, by decide +kernel, by decide +kernel, by decide +kernel, hline⟩

end ByteRegex
