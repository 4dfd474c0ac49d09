import ByteRegex.Proofs.Pattern.Readable

/-!
# The ends of a pattern text

A pattern is tied to the start of the line if its text begins with `^`, and to
the end of the line if its text ends with a `$` that no backslash escapes. A
backslash escapes the byte after it unless it is escaped itself, so what counts
is whether the number of backslashes in a row is even.
-/

namespace ByteRegex

/-- How many backslashes the bytes end with. -/
def trailingBackslashes (bytes : List UInt8) : Nat :=
  (bytes.reverse.takeWhile (· = '\\'.toUInt8)).length

/-- The last byte is a `$` that is not escaped. -/
def EndsWithDollar (bytes : List UInt8) : Prop :=
  ∃ before, bytes = before ++ ['$'.toUInt8] ∧ trailingBackslashes before % 2 = 0

theorem trailingBackslashes_backslash (bytes : List UInt8) :
    trailingBackslashes (bytes ++ ['\\'.toUInt8]) = trailingBackslashes bytes + 1 := by
  simp [trailingBackslashes]

theorem trailingBackslashes_other (bytes : List UInt8) {b : UInt8} (h : b ≠ '\\'.toUInt8) :
    trailingBackslashes (bytes ++ [b]) = 0 := by
  simp [trailingBackslashes, h]

namespace Draft

/-- Behind a backslash that escapes something the reader waits for what it
escapes. -/
def Escapes (seen : List UInt8) (d : Draft) : Prop :=
  match d.phase with
  | .plain => trailingBackslashes seen % 2 = 0
  | .escaped => trailingBackslashes seen % 2 = 1
  | .classStart _ | .classBody _ _ _ => True

theorem escapes_of_plain {seen : List UInt8} {d : Draft} (hphase : d.phase = .plain) {b : UInt8}
    (h : b ≠ '\\'.toUInt8) : d.Escapes (seen ++ [b]) := by
  unfold Escapes
  rw [hphase, trailingBackslashes_other seen h]

theorem Escapes.reads {seen : List UInt8} {d d' : Draft} {offset : Nat} {b : UInt8}
    {isLast : Bool} (h : d.Escapes seen) (hreads : d.Reads offset b isLast d') :
    d'.Escapes (seen ++ [b]) := by
  have hother : ∀ {sign : Sign}, Sign.ofByte b = sign → sign ≠ .escape → b ≠ '\\'.toUInt8 := by
    rintro sign rfl hsign rfl
    exact hsign (Sign.ofByte_eq_of_byte? rfl)
  cases hreads with
  | openGroup phase sign => exact escapes_of_plain phase (hother sign (by simp))
  | closeGroup phase sign g outer enclosing => exact escapes_of_plain phase (hother sign (by simp))
  | nextBranch phase sign g outer enclosing => exact escapes_of_plain phase (hother sign (by simp))
  | quantify phase q sign => exact escapes_of_plain phase (hother sign (by simp))
  | any phase sign => exact escapes_of_plain rfl (hother sign (by simp))
  | endAnchor phase sign => exact escapes_of_plain rfl (hother sign (by simp))
  | literal phase sign =>
      refine escapes_of_plain rfl ?_
      rcases sign with sign | ⟨sign, _⟩ | ⟨q, sign, _⟩
      · exact hother sign (by simp)
      · exact hother sign (by simp)
      · exact hother sign (by simp)
  | emptyClass opened phase bracket => exact escapes_of_plain rfl (by rw [bracket]; decide)
  | endClass opened negated written phase bracket =>
      exact escapes_of_plain rfl (by rw [bracket]; decide)
  | openClass | negate | firstMember | member => trivial
  | escape phase sign =>
      unfold Escapes at h ⊢
      rw [phase] at h
      rw [(Sign.ofByte_eq_iff rfl).mp sign]
      dsimp only at h ⊢
      rw [trailingBackslashes_backslash]
      omega
  | escaped phase =>
      unfold Escapes at h
      rw [phase] at h
      by_cases hb : b = '\\'.toUInt8
      · rw [hb]
        unfold Escapes push
        dsimp only at h ⊢
        rw [trailingBackslashes_backslash]
        omega
      · exact escapes_of_plain rfl hb

end Draft

/-! ## The two ends -/

theorem endsWithDollar_append {before : List UInt8} {b : UInt8} :
    EndsWithDollar (before ++ [b]) ↔ b = '$'.toUInt8 ∧ trailingBackslashes before % 2 = 0 := by
  unfold EndsWithDollar
  constructor
  · rintro ⟨before', heq, heven⟩
    obtain ⟨rfl, hb⟩ := List.append_inj' heq rfl
    exact ⟨List.singleton_inj.mp hb, heven⟩
  · rintro ⟨rfl, heven⟩
    exact ⟨before, rfl, heven⟩

theorem trailingBackslashes_caret (bytes : List UInt8) :
    trailingBackslashes ('^'.toUInt8 :: bytes) = trailingBackslashes bytes := by
  have hcaret : '^'.toUInt8 ≠ '\\'.toUInt8 := by decide
  simp only [trailingBackslashes, List.reverse_cons, List.takeWhile_append,
    List.takeWhile_cons, hcaret, decide_false, Bool.false_eq_true, if_false, List.takeWhile_nil]
  split <;> simp_all

/-- The `^` before a text escapes nothing. -/
theorem endsWithDollar_caret (body : List UInt8) :
    EndsWithDollar ('^'.toUInt8 :: body) ↔ EndsWithDollar body := by
  rcases List.eq_nil_or_concat body with rfl | ⟨before, b, rfl⟩
  · rw [← List.nil_append ['^'.toUInt8], endsWithDollar_append]
    simp [EndsWithDollar]
    decide
  · rw [List.concat_eq_append, ← List.cons_append, endsWithDollar_append, endsWithDollar_append,
      trailingBackslashes_caret]

theorem getLast?_any_isEndAnchor {items : List Item} (h : itemsReadable items) :
    items.getLast?.any Item.isEndAnchor = false := by
  rcases List.eq_nil_or_concat items with rfl | ⟨before, item, rfl⟩
  · rfl
  · rw [List.concat_eq_append] at h ⊢
    obtain ⟨hitem, _⟩ := itemsReadable_cons.mp (itemsReadable_append.mp h).2
    cases item with
    | endAnchor => exact hitem.elim
    | _ => simp [Item.isEndAnchor]

/-- The items end with an end anchor if the bytes end with a `$` that is not
escaped. -/
theorem Draft.endAnchor_iff {d : Draft} {offset : Nat} {body : List UInt8} {items : List Item}
    (hfeed : ({} : Draft).feed offset body = .ok d) (hfinish : d.finish = .ok items) :
    items.getLast?.any Item.isEndAnchor = true ↔ EndsWithDollar body := by
  by_cases hbody : body = []
  · subst hbody
    cases hfeed
    cases hfinish
    simp [EndsWithDollar]
  have hkeep : ∀ seen (d : Draft) offset b d', d.Readable ∧ d.Escapes seen →
      d.Reads offset b false d' → d'.Readable ∧ d'.Escapes (seen ++ [b]) :=
    fun seen d offset b d' hd hreads => ⟨hd.1.reads hreads (by simp), hd.2.reads hreads⟩
  have hempty : ({} : Draft).Readable ∧ ({} : Draft).Escapes [] :=
    ⟨⟨trivial, by simp, trivial⟩, rfl⟩
  obtain ⟨before, b, d₁, last, rfl, ⟨hread, hescapes⟩, hreads⟩ :=
    feed_keeps_but_last hkeep [] hempty hbody hfeed
  rw [List.nil_append] at hescapes
  rw [endsWithDollar_append]
  by_cases hplain : d₁.phase = .plain ∧ b = '$'.toUInt8
  · obtain ⟨hplain, rfl⟩ := hplain
    unfold Escapes at hescapes
    rw [hplain] at hescapes
    simp [hreads.finish_dollar hplain hfinish, Item.isEndAnchor, hescapes]
  · have hitems :=
      Pattern.itemsReadable_of_finish (hread.reads hreads (by simpa using hplain)) hfinish
    rw [getLast?_any_isEndAnchor hitems]
    simp only [Bool.false_eq_true, false_iff]
    rintro ⟨rfl, heven⟩
    rcases hreads.dollar_cases with ⟨hphase, _⟩ | ⟨hphase, _⟩ | ⟨opened, negated, written, hclass⟩
    · exact hplain ⟨hphase, rfl⟩
    · unfold Escapes at hescapes
      rw [hphase] at hescapes
      dsimp only at hescapes
      omega
    · simpa [hclass] using (finish_eq_ok hfinish).2

namespace Pattern

theorem matchStart_iff {bytes : List UInt8} {p : Pattern} (h : ofBytes bytes = .ok p) :
    p.matchStart = true ↔ bytes.head? = some '^'.toUInt8 := by
  cases bytes with
  | nil => cases h
  | cons b rest =>
      rw [ofBytes_cons] at h
      by_cases hcaret : b = '^'.toUInt8
      · rw [if_pos hcaret] at h
        obtain ⟨_, _, _, hstart, _⟩ := readFrom_eq_ok.mp h
        simp [hstart, hcaret]
      · rw [if_neg hcaret] at h
        obtain ⟨_, _, _, hstart, _⟩ := readFrom_eq_ok.mp h
        simp [hstart, hcaret]

theorem matchEnd_iff {bytes : List UInt8} {p : Pattern} (h : ofBytes bytes = .ok p) :
    p.matchEnd = true ↔ EndsWithDollar bytes := by
  obtain ⟨offset, body, d, rfl, _, hfeed, hfinish, _⟩ := ofBytes_eq_ok h
  have hends := Draft.endAnchor_iff hfeed hfinish
  cases hstart : p.matchStart with
  | false => exact hends
  | true => exact hends.trans (endsWithDollar_caret body).symm

end Pattern

end ByteRegex
