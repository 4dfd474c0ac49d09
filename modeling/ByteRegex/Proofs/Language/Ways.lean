import ByteRegex.Proofs.Bytes.Membership
import ByteRegex.Proofs.Language.Basic
import ByteRegex.Proofs.Matcher.Runs

/-!
# Ways and words

Without backreferences the ways of a tree end exactly where its words end: from
`pos` there is a way to `stop` if and only if the piece of the text between them
is a word of the language. Priority, captures and the rule that an empty
iteration is the last one decide which way comes first, but neither lose a word
nor add one. `itemsWays_recognize` says so for a sequence.
-/

namespace ByteRegex

open Computability

/-- The ways end where the words of the language end, and nowhere else. -/
def Recognizes (text : Array UInt8) (ways : Nat → Captures → List Way)
    (l : Language UInt8) : Prop :=
  ∀ pos c stop, pos ≤ text.size →
    ((∃ w ∈ ways pos c, w.stop = stop) ↔
      pos ≤ stop ∧ stop ≤ text.size ∧ Span.of ⟨pos, stop⟩ text ∈ l)

/-! ## Pieces of a text -/

theorem Span.of_self (text : Array UInt8) (pos : Nat) : Span.of ⟨pos, pos⟩ text = [] := by
  simp [Span.of_eq_take_drop, Span.length]

/-- Only a piece that ends where it begins is empty. -/
theorem Span.of_eq_nil_iff {text : Array UInt8} {pos stop : Nat} (hle : pos ≤ stop)
    (hsize : stop ≤ text.size) : Span.of ⟨pos, stop⟩ text = [] ↔ pos = stop := by
  have hlength := Span.length_of ⟨pos, stop⟩ text hsize
  rw [← List.length_eq_zero_iff, hlength]
  simp only [Span.length]
  omega

/-- A piece up to a position and the piece from there on. -/
theorem Span.of_append (text : Array UInt8) {i j k : Nat} (hij : i ≤ j) (hjk : j ≤ k) :
    Span.of ⟨i, k⟩ text = Span.of ⟨i, j⟩ text ++ Span.of ⟨j, k⟩ text := by
  simp only [Span.of_eq_take_drop, Span.length]
  rw [show k - i = (j - i) + (k - j) by omega, List.take_add, List.drop_drop,
    show i + (j - i) = j by omega]

/-- A piece that is two words in a row is cut between them. -/
theorem Span.of_eq_append {text : Array UInt8} {i k : Nat} {x y : List UInt8} (hik : i ≤ k)
    (hk : k ≤ text.size) (h : Span.of ⟨i, k⟩ text = x ++ y) :
    i + x.length ≤ k ∧ Span.of ⟨i, i + x.length⟩ text = x ∧
      Span.of ⟨i + x.length, k⟩ text = y := by
  have hlength := Span.length_of ⟨i, k⟩ text hk
  rw [h, List.length_append] at hlength
  have hfit : i + x.length ≤ k := by
    simp only [Span.length] at hlength
    omega
  have hfirst := Span.length_of ⟨i, i + x.length⟩ text (Nat.le_trans hfit hk)
  rw [Span.of_append text (Nat.le_add_right i x.length) hfit] at h
  obtain ⟨hx, hy⟩ := List.append_inj h (by simpa [Span.length] using hfirst)
  exact ⟨hfit, hx, hy⟩

theorem Span.of_succ {text : Array UInt8} {pos : Nat} {b : UInt8}
    (h : text[pos]? = some b) : Span.of ⟨pos, pos + 1⟩ text = [b] := by
  simp [Span.of_eq_take_drop, Span.length, drop_eq_cons_of_getElem? h]

/-! ## Putting ways together -/

namespace Recognizes

variable {text : Array UInt8} {ways more : Nat → Captures → List Way}
  {l k : Language UInt8}

/-- Standing still recognizes the empty word. -/
theorem stay (text : Array UInt8) : Recognizes text (fun pos c => [⟨pos, c⟩]) 1 := by
  intro pos c stop hpos
  constructor
  · rintro ⟨w, hw, rfl⟩
    obtain rfl := List.mem_singleton.mp hw
    exact ⟨Nat.le_refl pos, hpos, (Language.mem_one _).mpr (Span.of_self text pos)⟩
  · rintro ⟨hle, hsize, hword⟩
    have hstop := (Span.of_eq_nil_iff hle hsize).mp ((Language.mem_one _).mp hword)
    exact ⟨⟨pos, c⟩, by simp, hstop⟩

theorem never (text : Array UInt8) : Recognizes text (fun _ _ => []) 0 := by
  intro pos c stop _
  constructor
  · rintro ⟨w, hw, _⟩
    cases hw
  · rintro ⟨_, _, hword⟩
    exact absurd hword (Language.notMem_zero _)

/-- Going on recognizes the product. -/
theorem andThen (h : Recognizes text ways l) (g : Recognizes text more k) :
    Recognizes text (fun pos c => (ways pos c).flatMap fun w => more w.stop w.captures)
      (l * k) := by
  intro pos c stop hpos
  constructor
  · rintro ⟨w, hw, rfl⟩
    obtain ⟨v, hv, hw⟩ := List.mem_flatMap.mp hw
    obtain ⟨hle, hsize, hfirst⟩ := (h pos c v.stop hpos).mp ⟨v, hv, rfl⟩
    obtain ⟨hle', hsize', hsecond⟩ := (g v.stop v.captures w.stop hsize).mp ⟨w, hw, rfl⟩
    refine ⟨Nat.le_trans hle hle', hsize', ?_⟩
    rw [Span.of_append text hle hle']
    exact Language.append_mem_mul hfirst hsecond
  · rintro ⟨hle, hsize, hword⟩
    obtain ⟨x, hx, y, hy, hxy⟩ := Language.mem_mul.mp hword
    obtain ⟨hfit, hfirst, hsecond⟩ := Span.of_eq_append hle hsize hxy.symm
    rw [← hfirst] at hx
    rw [← hsecond] at hy
    have hmid := Nat.le_trans hfit hsize
    obtain ⟨v, hv, hstop⟩ :=
      (h pos c (pos + x.length) hpos).mpr ⟨Nat.le_add_right _ _, hmid, hx⟩
    obtain ⟨w, hw, hend⟩ := (g (pos + x.length) v.captures stop hmid).mpr ⟨hfit, hsize, hy⟩
    rw [← hstop] at hw
    exact ⟨w, List.mem_flatMap.mpr ⟨v, hv, hw⟩, hend⟩

/-- Choosing recognizes the sum. -/
theorem append (h : Recognizes text ways l) (g : Recognizes text more k) :
    Recognizes text (fun pos c => ways pos c ++ more pos c) (l + k) := by
  intro pos c stop hpos
  have hfirst := h pos c stop hpos
  have hsecond := g pos c stop hpos
  constructor
  · rintro ⟨w, hw, rfl⟩
    rcases List.mem_append.mp hw with hw | hw
    · obtain ⟨hle, hsize, hword⟩ := hfirst.mp ⟨w, hw, rfl⟩
      exact ⟨hle, hsize, .inl hword⟩
    · obtain ⟨hle, hsize, hword⟩ := hsecond.mp ⟨w, hw, rfl⟩
      exact ⟨hle, hsize, .inr hword⟩
  · rintro ⟨hle, hsize, hword | hword⟩
    · obtain ⟨w, hw, hstop⟩ := hfirst.mpr ⟨hle, hsize, hword⟩
      exact ⟨w, List.mem_append_left _ hw, hstop⟩
    · obtain ⟨w, hw, hstop⟩ := hsecond.mpr ⟨hle, hsize, hword⟩
      exact ⟨w, List.mem_append_right _ hw, hstop⟩

end Recognizes

/-! ## Single bytes and runs of them -/

/-- A run may be as long as all of its bytes are accepted. -/
theorem le_length_takeWhile_iff {α : Type} (accepts : α → Bool) (xs : List α) (n : Nat) :
    n ≤ (xs.takeWhile accepts).length ↔ n ≤ xs.length ∧ ∀ x ∈ xs.take n, accepts x = true := by
  induction xs generalizing n with
  | nil => simp
  | cons x rest ih =>
      cases n with
      | zero => simp
      | succ n =>
          by_cases hx : accepts x = true
          · simp [hx, ih]
          · simp [hx]

theorem mem_byteLanguage {c : ByteClass} {b : UInt8} :
    [b] ∈ byteLanguage c.written c.inverted ↔ c.accepts b = true := by
  rw [c.accepts_iff]
  constructor
  · rintro ⟨b', hb, h⟩
    cases hb
    exact h
  · exact fun h => ⟨b, rfl, h⟩

/-- The words of any number of bytes of a class. -/
theorem mem_kstar_byteLanguage {c : ByteClass} {w : List UInt8} :
    w ∈ (byteLanguage c.written c.inverted)∗ ↔ ∀ b ∈ w, c.accepts b = true := by
  constructor
  · intro h b hb
    obtain ⟨parts, rfl, hparts⟩ := Language.mem_kstar.mp h
    obtain ⟨part, hpart, hb⟩ := List.mem_flatten.mp hb
    obtain ⟨b', rfl, hb'⟩ := hparts part hpart
    obtain rfl := List.mem_singleton.mp hb
    exact mem_byteLanguage.mp ⟨b, rfl, hb'⟩
  · intro h
    rw [Language.mem_kstar]
    refine ⟨w.map fun b => [b], ?_, ?_⟩
    · induction w with
      | nil => rfl
      | cons b rest ih =>
          rw [List.map_cons, List.flatten_cons, ← ih fun b' hb' => h b' (by simp [hb'])]
          rfl
    · intro part hpart
      obtain ⟨b, hb, rfl⟩ := List.mem_map.mp hpart
      exact mem_byteLanguage.mpr (h b hb)

/-- The words of at least one byte of a class. -/
theorem mem_mul_kstar_byteLanguage {c : ByteClass} {w : List UInt8} :
    w ∈ byteLanguage c.written c.inverted * (byteLanguage c.written c.inverted)∗ ↔
      w ≠ [] ∧ ∀ b ∈ w, c.accepts b = true := by
  constructor
  · intro h
    obtain ⟨x, hx, y, hy, rfl⟩ := Language.mem_mul.mp h
    obtain ⟨b, rfl, hb⟩ := hx
    refine ⟨by simp, fun b' hb' => ?_⟩
    rcases List.mem_cons.mp hb' with rfl | hb'
    · exact mem_byteLanguage.mp ⟨b', rfl, hb⟩
    · exact mem_kstar_byteLanguage.mp hy b' hb'
  · rintro ⟨hne, h⟩
    cases w with
    | nil => exact absurd rfl hne
    | cons b rest =>
        exact Language.append_mem_mul (mem_byteLanguage.mpr (h b (by simp)))
          (mem_kstar_byteLanguage.mpr fun b' hb' => h b' (by simp [hb']))

namespace Recognizes

variable {text : Array UInt8} (c : ByteClass)

theorem byte (text : Array UInt8) :
    Recognizes text (byteWays text c) (byteLanguage c.written c.inverted) := by
  intro pos captures stop hpos
  constructor
  · rintro ⟨w, hw, rfl⟩
    unfold byteWays at hw
    cases hb : text[pos]? with
    | none => simp [hb] at hw
    | some b =>
        have hlt : pos < text.size := (Array.getElem?_eq_some_iff.mp hb).1
        by_cases haccepts : c.accepts b = true
        · obtain rfl : w = ⟨pos + 1, captures⟩ := by simpa [hb, haccepts] using hw
          refine ⟨Nat.le_succ pos, hlt, ?_⟩
          rw [Span.of_succ hb]
          exact mem_byteLanguage.mpr haccepts
        · simp [hb, haccepts] at hw
  · rintro ⟨hle, hsize, b, hword, hb⟩
    have hlength := Span.length_of ⟨pos, stop⟩ text hsize
    rw [hword] at hlength
    obtain rfl : stop = pos + 1 := by
      simp only [Span.length, List.length_singleton] at hlength
      omega
    have hsome : text[pos]? = some text[pos] := Array.getElem?_eq_getElem hsize
    rw [Span.of_succ hsome, List.cons.injEq] at hword
    have haccepts : c.accepts text[pos] = true := by
      rw [hword.1]
      exact mem_byteLanguage.mp ⟨b, rfl, hb⟩
    exact ⟨⟨pos + 1, captures⟩, by simp [byteWays, hsome, haccepts], rfl⟩

/-- A run of a class may end where the class accepts all that lies before. -/
theorem run_iff (text : Array UInt8) {pos stop : Nat} (hpos : pos ≤ text.size)
    (hle : pos ≤ stop) :
    stop - pos ≤ runLength text c pos ↔
      stop ≤ text.size ∧ ∀ b ∈ Span.of ⟨pos, stop⟩ text, c.accepts b = true := by
  unfold runLength
  rw [le_length_takeWhile_iff, List.length_drop, Array.length_toList, Span.of_eq_take_drop]
  simp only [Span.length]
  apply and_congr_left'
  omega

theorem runs (text : Array UInt8) (times : Repeat) (htimes : times.isUnbounded = true) :
    Recognizes text (classWays text c times)
      (times.language (byteLanguage c.written c.inverted)) := by
  intro pos captures stop hpos
  have hends : (∃ w ∈ classWays text c times pos captures, w.stop = stop) ↔
      pos + times.min ≤ stop ∧ stop - pos ≤ runLength text c pos := by
    cases times with
    | once => cases htimes
    | optional => cases htimes
    | star =>
        simp only [classWays, List.mem_map, List.mem_reverse, List.mem_range'_1]
        constructor
        · rintro ⟨w, ⟨n, hn, rfl⟩, rfl⟩
          dsimp only
          omega
        · intro h
          exact ⟨⟨stop, captures⟩, ⟨stop - pos, by omega, by congr; omega⟩, rfl⟩
    | plus =>
        simp only [classWays, List.mem_map, List.mem_reverse, List.mem_range'_1]
        constructor
        · rintro ⟨w, ⟨n, hn, rfl⟩, rfl⟩
          dsimp only
          omega
        · intro h
          exact ⟨⟨stop, captures⟩, ⟨stop - pos, by omega, by congr; omega⟩, rfl⟩
  rw [hends]
  cases times with
  | once => cases htimes
  | optional => cases htimes
  | star =>
      change _ ↔ _ ∧ _ ∧ _ ∈ (byteLanguage c.written c.inverted)∗
      rw [mem_kstar_byteLanguage]
      constructor
      · rintro ⟨hle, hrun⟩
        exact ⟨hle, (run_iff c text hpos hle).mp hrun⟩
      · rintro ⟨hle, hrun⟩
        exact ⟨hle, (run_iff c text hpos hle).mpr hrun⟩
  | plus =>
      change _ ↔ _ ∧ _ ∧
        _ ∈ byteLanguage c.written c.inverted * (byteLanguage c.written c.inverted)∗
      rw [mem_mul_kstar_byteLanguage]
      constructor
      · rintro ⟨hlt, hrun⟩
        have hle := Nat.le_of_succ_le hlt
        obtain ⟨hsize, haccepts⟩ := (run_iff c text hpos hle).mp hrun
        refine ⟨hle, hsize, ?_, haccepts⟩
        intro hempty
        exact absurd ((Span.of_eq_nil_iff hle hsize).mp hempty) (Nat.ne_of_lt hlt)
      · rintro ⟨hle, hsize, hne, haccepts⟩
        refine ⟨Nat.lt_of_le_of_ne hle ?_, (run_iff c text hpos hle).mpr ⟨hsize, haccepts⟩⟩
        intro hstop
        exact hne ((Span.of_eq_nil_iff hle hsize).mpr hstop)

theorem ofClass (text : Array UInt8) (times : Repeat) :
    Recognizes text (classWays text c times)
      (times.language (byteLanguage c.written c.inverted)) := by
  cases times with
  | once => exact byte c text
  | optional =>
      change Recognizes text _ (1 + byteLanguage c.written c.inverted)
      rw [add_comm]
      exact (byte c text).append (stay text)
  | star => exact runs c text .star rfl
  | plus => exact runs c text .plus rfl

end Recognizes

/-! ## Groups -/

/-- After an iteration come the ends of further ones, if there may be any, and
then its own. -/
theorem exists_mem_tailWays_iff {text : Array UInt8} {slot : Nat} {times : Repeat}
    {body : Nat → Captures → List Way} {start pos : Nat} {c : Captures} {stop : Nat} :
    (∃ w ∈ tailWays text slot times body start pos c, w.stop = stop) ↔
      pos = stop ∨ (times.isUnbounded ∧ start < pos ∧ pos ≤ text.size) ∧
        ∃ w ∈ iterationWays text slot times body pos (c.set slot (some ⟨start, pos⟩)),
          w.stop = stop := by
  simp only [mem_tailWays_iff]
  constructor
  · rintro ⟨w, ⟨hgoes, hw⟩ | rfl, hstop⟩
    · exact .inr ⟨hgoes, w, hw, hstop⟩
    · exact .inl hstop
  · rintro (hstop | ⟨hgoes, w, hw, hstop⟩)
    · exact ⟨_, .inr rfl, hstop⟩
    · exact ⟨w, .inl ⟨hgoes, hw⟩, hstop⟩

/-- The ends of the iterations, an iteration at a time. -/
theorem exists_mem_iterationWays_iff {text : Array UInt8} {slot : Nat} {times : Repeat}
    {body : Nat → Captures → List Way} {pos : Nat} {c : Captures} {stop : Nat} :
    (∃ w ∈ iterationWays text slot times body pos c, w.stop = stop) ↔
      ∃ v ∈ body pos c, ∃ w ∈ tailWays text slot times body pos v.stop v.captures,
        w.stop = stop := by
  rw [iterationWays_eq]
  constructor
  · rintro ⟨w, hw, hstop⟩
    obtain ⟨v, hv, hw⟩ := List.mem_flatMap.mp hw
    exact ⟨v, hv, w, hw, hstop⟩
  · rintro ⟨v, hv, w, hw, hstop⟩
    exact ⟨w, List.mem_flatMap.mpr ⟨v, hv, hw⟩, hstop⟩

namespace Recognizes

variable {text : Array UInt8} {body : Nat → Captures → List Way} {l : Language UInt8}
  (slot : Nat) {times : Repeat}

/-- A group that does not repeat takes what its body takes. -/
theorem iteration (htimes : times.isUnbounded = false) (h : Recognizes text body l) :
    Recognizes text (iterationWays text slot times body) l := by
  intro pos c stop hpos
  rw [← h pos c stop hpos, exists_mem_iterationWays_iff]
  simp only [exists_mem_tailWays_iff, htimes, Bool.false_eq_true, false_and, or_false]

/-- No word is lost by ending a repetition with an empty iteration. The induction
is on what is left of the text: an iteration that takes a byte leaves less, and
the others are not needed. -/
theorem iterations (htimes : times.isUnbounded = true) (h : Recognizes text body l) :
    Recognizes text (iterationWays text slot times body) (l * l∗) := by
  intro pos c stop hpos
  induction hleft : text.size - pos using Nat.strong_induction_on generalizing pos c with
  | _ left ih =>
      rw [mem_mul_kstar_iff, exists_mem_iterationWays_iff]
      constructor
      · rintro ⟨v, hv, hw⟩
        obtain ⟨hle, hsize, hfirst⟩ := (h pos c v.stop hpos).mp ⟨v, hv, rfl⟩
        rcases exists_mem_tailWays_iff.mp hw with rfl | ⟨⟨_, hlt, _⟩, hw⟩
        · refine ⟨hle, hsize, ?_⟩
          by_cases hempty : Span.of ⟨pos, v.stop⟩ text = []
          · rw [hempty] at hfirst
            exact .inl ⟨hempty, hfirst⟩
          · exact .inr ⟨_, [], (List.append_nil _).symm, hfirst, hempty, .inl rfl⟩
        · obtain ⟨hle', hsize', hrest⟩ :=
            (ih (text.size - v.stop) (by omega) v.stop _ hsize rfl).mp hw
          have hlonger : Span.of ⟨pos, v.stop⟩ text ≠ [] := by
            intro hempty
            exact absurd ((Span.of_eq_nil_iff hle hsize).mp hempty) (Nat.ne_of_lt hlt)
          exact ⟨Nat.le_trans hle hle', hsize',
            .inr ⟨_, _, Span.of_append text hle hle', hfirst, hlonger, .inr hrest⟩⟩
      · rintro ⟨hle, hsize, ⟨hempty, hnil⟩ | ⟨x, y, hxy, hx, hne, hy⟩⟩
        · rw [← hempty] at hnil
          obtain ⟨v, hv, hstop⟩ := (h pos c stop hpos).mpr ⟨hle, hsize, hnil⟩
          exact ⟨v, hv, exists_mem_tailWays_iff.mpr (.inl hstop)⟩
        · obtain ⟨hfit, hfirst, hsecond⟩ := Span.of_eq_append hle hsize hxy
          have hlonger : 0 < x.length := List.length_pos_iff.mpr hne
          have hmid := Nat.le_trans hfit hsize
          rw [← hfirst] at hx
          obtain ⟨v, hv, hstop⟩ :=
            (h pos c (pos + x.length) hpos).mpr ⟨Nat.le_add_right _ _, hmid, hx⟩
          refine ⟨v, hv, exists_mem_tailWays_iff.mpr ?_⟩
          rw [hstop]
          rcases hy with rfl | hy
          · exact .inl ((Span.of_eq_nil_iff hfit hsize).mp hsecond)
          · rw [← hsecond] at hy
            have hmore := (ih (text.size - (pos + x.length)) (by omega) (pos + x.length)
              (v.captures.set slot (some ⟨pos, pos + x.length⟩)) hmid rfl).mpr
              ⟨hfit, hsize, hy⟩
            exact .inr ⟨⟨htimes, by omega, hmid⟩, hmore⟩

theorem ofGroup (times : Repeat) (h : Recognizes text body l) :
    Recognizes text (groupWays text slot times body) (times.language l) := by
  unfold groupWays
  cases times with
  | once =>
      have hsingle : Repeat.once.isUnbounded = false := rfl
      have hways := (iteration slot hsingle h).append (never text)
      rwa [add_zero] at hways
  | optional =>
      have hsingle : Repeat.optional.isUnbounded = false := rfl
      have hways := (iteration slot hsingle h).append (stay text)
      rwa [add_comm] at hways
  | star =>
      have hmany : Repeat.star.isUnbounded = true := rfl
      have hways := (iterations slot hmany h).append (stay text)
      rwa [add_comm, Language.one_add_self_mul_kstar_eq_kstar] at hways
  | plus =>
      have hmany : Repeat.plus.isUnbounded = true := rfl
      have hways := (iterations slot hmany h).append (never text)
      rwa [add_zero] at hways

end Recognizes

/-! ## Trees -/

variable {text : Array UInt8}

mutual

theorem Item.ways_recognize : ∀ (item : Item) (times : Repeat), item.Readable →
    item.references = [] → Recognizes text (item.ways text times) (item.language times)
  | .byte b, times, _, _ => by
      simp only [Item.language, Item.ways]
      exact Recognizes.ofClass (.literal b) text times
  | .any, times, _, _ => by
      simp only [Item.language, Item.ways]
      exact Recognizes.ofClass .any text times
  | .oneOf written negated, times, _, _ => by
      simp only [Item.language, Item.ways]
      exact Recognizes.ofClass (.ofWritten written negated) text times
  | .quantified q inner, _, h, href => by
      simp only [Item.language, Item.ways]
      rw [Item.Readable] at h
      rw [Item.references] at href
      exact Item.ways_recognize inner q.times h.2 href
  | .group number alternatives, times, h, href => by
      simp only [Item.language, Item.ways]
      rw [Item.Readable] at h
      rw [Item.references] at href
      exact Recognizes.ofGroup _ times (branchesWays_recognize alternatives h.2 href)
  | .backreference _, _, _, href => by cases href
  | .endAnchor, _, h, _ => h.elim

theorem itemsWays_recognize : ∀ items : List Item, itemsReadable items →
    itemsReferences items = [] → Recognizes text (itemsWays text items) (itemsLanguage items)
  | [], _, _ => by
      simp only [itemsWays, itemsLanguage]
      exact Recognizes.stay text
  | item :: rest, h, href => by
      simp only [itemsWays, itemsLanguage]
      rw [itemsReadable_cons] at h
      obtain ⟨hitem, hrest⟩ := List.append_eq_nil_iff.mp (itemsReferences_cons item rest ▸ href)
      exact (Item.ways_recognize item .once h.1 hitem).andThen
        (itemsWays_recognize rest h.2 hrest)

theorem branchesWays_recognize : ∀ alternatives : List (List Item),
    branchesReadable alternatives → branchesReferences alternatives = [] →
      Recognizes text (branchesWays text alternatives) (branchesLanguage alternatives)
  | [], _, _ => by
      simp only [branchesWays, branchesLanguage]
      exact Recognizes.never text
  | items :: rest, h, href => by
      simp only [branchesWays, branchesLanguage]
      rw [branchesReadable_cons] at h
      obtain ⟨hitems, hrest⟩ :=
        List.append_eq_nil_iff.mp (branchesReferences_cons items rest ▸ href)
      exact (itemsWays_recognize items h.1 hitems).append
        (branchesWays_recognize rest h.2 hrest)

end

end ByteRegex
