import Mathlib.Tactic.SplitIfs
import ByteRegex.Proofs.Spelling.Reading
import ByteRegex.Proofs.Text.Encoding

/-!
# The spelling of a text is a text

A pattern is read byte by byte, and its spelling is made of bytes again. If the
bytes that are read are those of a text, so are the bytes of the spelling: a
character of several bytes is read as several literals or as several members of
one class, and these are spelled one behind the other as they were. So showing a
spelling as text replaces nothing.
-/

namespace ByteRegex

/-- The bytes of a text. -/
def IsText (bytes : List UInt8) : Prop :=
  ∃ cs : List Char, bytes = cs.flatMap String.utf8EncodeChar

namespace IsText

theorem nil : IsText [] := ⟨[], rfl⟩

theorem append {xs ys : List UInt8} (hx : IsText xs) (hy : IsText ys) : IsText (xs ++ ys) := by
  obtain ⟨cs, rfl⟩ := hx
  obtain ⟨ds, rfl⟩ := hy
  exact ⟨cs ++ ds, List.flatMap_append.symm⟩

theorem char (c : Char) : IsText (String.utf8EncodeChar c) :=
  ⟨[c], by rw [List.flatMap_cons, List.flatMap_nil, List.append_nil]⟩

theorem byte {b : UInt8} (h : b.toNat < 0x80) : IsText [b] := by
  rw [← utf8EncodeChar_ofNat h]
  exact char _

theorem ascii {bytes : List UInt8} (h : bytes.all (·.toNat < 0x80)) : IsText bytes := by
  induction bytes with
  | nil => exact nil
  | cons b rest ih =>
      rw [List.all_cons, Bool.and_eq_true, decide_eq_true_iff] at h
      exact (byte h.1).append (ih h.2)

/-- What follows an ASCII byte in a text is a text. -/
theorem tail {b : UInt8} {rest : List UInt8} (h : IsText (b :: rest)) (hb : b.toNat < 0x80) :
    IsText rest := by
  obtain ⟨cs, hcs⟩ := h
  cases cs with
  | nil => cases hcs
  | cons c others =>
      rw [List.flatMap_cons] at hcs
      rcases utf8EncodeChar_ascii_or c with ⟨b', hbytes, _⟩ | ⟨hne, hhigh⟩
      · rw [hbytes, List.singleton_append, List.cons.injEq] at hcs
        exact ⟨others, hcs.2⟩
      · cases hbytes : String.utf8EncodeChar c with
        | nil => exact absurd hbytes hne
        | cons b' more =>
            rw [hbytes, List.cons_append, List.cons.injEq] at hcs
            rw [hbytes, List.forall_mem_cons, ← hcs.1] at hhigh
            omega

end IsText

/-! ## Single items -/

theorem isText_spellByte {b : UInt8} (h : b.toNat < 0x80) : IsText (spellByte b) := by
  unfold spellByte
  split
  next => exact (IsText.byte (by decide)).append (IsText.byte h)
  next => exact IsText.byte h

theorem isText_spellClass {written : List UInt8} (h : IsText written) (negated : Bool) :
    IsText (ByteClass.ofWritten written negated).spell := by
  rcases ByteClass.spell_cases written negated with ⟨hspell, _⟩ | ⟨b, hwritten, hspell, _⟩ |
    ⟨hspell, _⟩ | ⟨hspell, _⟩ | ⟨hspell, _⟩
  · rw [hspell]
    exact IsText.ascii (by decide)
  · rw [hspell]
    unfold spellByte
    rw [hwritten] at h
    split
    next => exact (IsText.byte (by decide)).append h
    next => exact h
  · rw [hspell]
    exact IsText.ascii (by decide)
  · rw [hspell]
    exact IsText.ascii (by decide)
  · rw [hspell, ← List.singleton_append]
    refine (IsText.byte (by decide)).append ((IsText.append ?_ h).append (IsText.byte (by decide)))
    split
    next => exact IsText.byte (by decide)
    next => exact IsText.nil

theorem isText_spellTimes (times : Repeat) : IsText times.spell := by
  cases times <;> exact IsText.ascii (by decide)

/-- What an escaped ASCII byte is read as is spelled as a text. -/
theorem isText_spell_ofEscaped {b : UInt8} (h : b.toNat < 0x80) :
    IsText ((Item.ofEscaped b).spell .once) := by
  have hread := Item.readable_ofEscaped b
  cases hitem : Item.ofEscaped b with
  | byte c =>
      have hc : c = b := by
        unfold Item.ofEscaped at hitem
        split_ifs at hitem
        exact (Item.byte.inj hitem).symm
      rw [Item.spell, hc, Repeat.spell, List.append_nil]
      exact isText_spellByte h
  | oneOf written negated =>
      have hwritten : written = ByteClass.digits ∨ written = ByteClass.wordBytes := by
        unfold Item.ofEscaped at hitem
        split_ifs at hitem
        · exact .inl (Item.oneOf.inj hitem).1.symm
        · exact .inr (Item.oneOf.inj hitem).1.symm
      rw [Item.spell, Repeat.spell, List.append_nil]
      rcases hwritten with rfl | rfl
      · exact isText_spellClass (IsText.ascii (by decide)) negated
      · exact isText_spellClass (IsText.ascii (by decide)) negated
  | backreference number =>
      rw [hitem, Item.Readable] at hread
      rw [Item.spell, (spellReference_eq hread.1 hread.2).1]
      refine (IsText.byte (by decide)).append (IsText.byte ?_)
      rw [toNat_ofNat (by omega)]
      omega
  | any | quantified | group | endAnchor =>
      unfold Item.ofEscaped at hitem
      split_ifs at hitem

theorem isText_intercalate : ∀ {branches : List (List UInt8)}, (∀ bytes ∈ branches, IsText bytes) →
    IsText (List.intercalate ['|'.toUInt8] branches)
  | [], _ => IsText.nil
  | [bytes], h => by
      rw [List.intercalate_singleton]
      exact h bytes (List.mem_singleton.mpr rfl)
  | bytes :: more :: rest, h => by
      rw [List.forall_mem_cons] at h
      rw [List.intercalate_cons_cons]
      exact (h.1.append (IsText.byte (by decide))).append (isText_intercalate h.2)

/-- Alternatives that are texts are spelled as a text. -/
theorem isText_spellBranches {alternatives : List (List Item)}
    (h : ∀ items ∈ alternatives, IsText (itemsSpell items)) :
    IsText (spellBranches (branchesSpell alternatives)) := by
  have hbranches : ∀ bytes ∈ branchesSpell alternatives, IsText bytes := by
    induction alternatives with
    | nil => simp [branchesSpell]
    | cons items rest ih =>
        rw [List.forall_mem_cons] at h
        rw [branchesSpell_cons, List.forall_mem_cons]
        exact ⟨h.1, ih h.2⟩
  exact ((IsText.byte (by decide)).append (isText_intercalate hbranches)).append
    (IsText.byte (by decide))

/-! ## Drafts -/

namespace Draft

/-- All that has been read so far is spelled as texts. -/
structure Textual (d : Draft) : Prop where
  items : IsText (itemsSpell d.items.reverse)
  enclosing : ∀ g ∈ d.enclosing, IsText (itemsSpell g.before.reverse) ∧
    ∀ items ∈ g.branches, IsText (itemsSpell items)
  phase : ∀ opened negated written, d.phase = .classBody opened negated written →
    IsText written.reverse

theorem Textual.push {d : Draft} (h : d.Textual) {item : Item} (hitem : IsText (item.spell .once)) :
    (d.push item).Textual := by
  refine ⟨?_, h.enclosing, fun opened negated written hphase => by cases hphase⟩
  rw [Draft.push, List.reverse_cons, itemsSpell_append, itemsSpell_cons, itemsSpell_nil,
    List.append_nil]
  exact h.items.append hitem

/-- An ASCII byte keeps a draft textual. -/
theorem Textual.reads {d d' : Draft} {offset : Nat} {b : UInt8} {isLast : Bool}
    (h : d.Textual) (hascii : b.toNat < 0x80) (hreads : d.Reads offset b isLast d') :
    d'.Textual := by
  cases hreads with
  | openGroup phase sign =>
      refine ⟨IsText.nil, List.forall_mem_cons.mpr ⟨⟨h.items, ?_⟩, h.enclosing⟩, h.phase⟩
      exact fun _ hitems => by cases hitems
  | closeGroup phase sign g outer enclosing =>
      have henclosing := h.enclosing
      rw [enclosing, List.forall_mem_cons] at henclosing
      obtain ⟨⟨hbefore, hbranches⟩, houter⟩ := henclosing
      refine ⟨?_, houter, h.phase⟩
      rw [List.reverse_cons, itemsSpell_append, itemsSpell_cons, itemsSpell_nil, List.append_nil,
        Item.spell, Repeat.spell, List.append_nil]
      refine hbefore.append (isText_spellBranches fun items hitems => ?_)
      rw [List.mem_reverse, List.mem_cons] at hitems
      rcases hitems with rfl | hitems
      · exact h.items
      · exact hbranches items hitems
  | nextBranch phase sign g outer enclosing =>
      have henclosing := h.enclosing
      rw [enclosing, List.forall_mem_cons] at henclosing
      obtain ⟨⟨hbefore, hbranches⟩, houter⟩ := henclosing
      refine ⟨IsText.nil, List.forall_mem_cons.mpr ⟨⟨hbefore, ?_⟩, houter⟩, h.phase⟩
      exact List.forall_mem_cons.mpr ⟨h.items, hbranches⟩
  | openClass | escape => exact ⟨h.items, h.enclosing, fun _ _ _ hphase => by cases hphase⟩
  | any | endAnchor | emptyClass => exact h.push (IsText.ascii (by decide))
  | quantify phase q sign item earlier items applies =>
      have hitems := h.items
      rw [items, List.reverse_cons, itemsSpell_append, itemsSpell_cons, itemsSpell_nil,
        List.append_nil] at hitems
      refine ⟨?_, h.enclosing, h.phase⟩
      rw [List.reverse_cons, itemsSpell_append, itemsSpell_cons, itemsSpell_nil, List.append_nil,
        Item.spell, Item.spell_times applies, ← List.append_assoc]
      exact hitems.append (isText_spellTimes q.times)
  | literal phase sign =>
      refine h.push ?_
      rw [Item.spell, Repeat.spell, List.append_nil]
      exact isText_spellByte hascii
  | escaped phase => exact h.push (isText_spell_ofEscaped hascii)
  | negate opened phase caret =>
      refine ⟨h.items, h.enclosing, fun _ _ _ hphase => ?_⟩
      cases hphase
      exact IsText.nil
  | firstMember opened phase caret bracket =>
      refine ⟨h.items, h.enclosing, fun _ _ _ hphase => ?_⟩
      cases hphase
      exact IsText.byte hascii
  | endClass opened negated written phase bracket =>
      refine h.push ?_
      rw [Item.spell, Repeat.spell, List.append_nil]
      exact isText_spellClass (h.phase opened negated written phase) negated
  | member opened negated written phase bracket =>
      refine ⟨h.items, h.enclosing, fun _ _ _ hphase => ?_⟩
      cases hphase
      rw [List.reverse_cons]
      exact (h.phase opened negated written phase).append (IsText.byte hascii)

/-! ## Characters of several bytes -/

/-- A byte that is not ASCII has no role anywhere. -/
theorem sign_of_high {b : UInt8} (h : 0x80 ≤ b.toNat) : Sign.ofByte b = .plain := by
  rcases Sign.byte?_ofByte b with hnone | hsome
  · exact Sign.byte?_eq_none_iff.mp hnone
  · have hascii := Sign.toNat_lt_of_byte? hsome
    omega

theorem needsEscape_of_high {b : UInt8} (h : 0x80 ≤ b.toNat) : needsEscape b = false := by
  rw [Bool.eq_false_iff]
  intro hescape
  rcases needsEscape_iff.mp hescape with rfl | ⟨sign, hsign⟩
  · exact absurd h (by decide)
  · have hascii := Sign.toNat_lt_of_byte? hsign
    omega

theorem ofEscaped_of_high {b : UInt8} (h : 0x80 ≤ b.toNat) : Item.ofEscaped b = .byte b := by
  unfold Item.ofEscaped
  rw [if_neg, if_neg, if_neg]
  · rintro ⟨_, hhigh⟩
    have hnine : b.toNat ≤ 57 := hhigh
    omega
  · rintro rfl
    exact absurd h (by decide)
  · rintro rfl
    exact absurd h (by decide)

theorem bracket_not_mem_of_high {bytes : List UInt8} (h : ∀ b ∈ bytes, 0x80 ≤ b.toNat) :
    ']'.toUInt8 ∉ bytes :=
  fun hmem => absurd (h _ hmem) (by decide)

/-- Bytes that are not ASCII are literals between items. -/
theorem feed_high {d : Draft} (hplain : d.phase = .plain) {bytes : List UInt8}
    (h : ∀ b ∈ bytes, 0x80 ≤ b.toNat) (offset : Nat) (rest : List UInt8) :
    d.feed offset (bytes ++ rest) =
      (d.pushAll (bytes.map .byte) 0).feed (offset + bytes.length) rest := by
  induction bytes generalizing d offset with
  | nil => simp [pushAll, ← hplain]
  | cons b others ih =>
      rw [List.forall_mem_cons] at h
      rw [List.cons_append, feed_literal hplain (sign_of_high h.1), ih rfl h.2]
      refine feed_congr ?_ ?_ rest
      · simp [pushAll, push]
      · rw [List.length_cons]
        omega

/-- They are spelled as they are. -/
theorem itemsSpell_high {bytes : List UInt8} (h : ∀ b ∈ bytes, 0x80 ≤ b.toNat) :
    itemsSpell (bytes.map .byte) = bytes := by
  induction bytes with
  | nil => rfl
  | cons b others ih =>
      rw [List.forall_mem_cons] at h
      have hbyte : (ByteClass.literal b).spell = [b] := by
        change spellByte b = [b]
        rw [spellByte, needsEscape_of_high h.1, if_neg Bool.false_ne_true]
      rw [List.map_cons, itemsSpell_cons, ih h.2, Item.spell, hbyte, Repeat.spell]
      rfl

theorem Textual.pushHigh {d : Draft} (h : d.Textual) {bytes : List UInt8} (htext : IsText bytes)
    (hhigh : ∀ b ∈ bytes, 0x80 ≤ b.toNat) : (d.pushAll (bytes.map .byte) 0).Textual := by
  refine ⟨?_, h.enclosing, fun _ _ _ hphase => by cases hphase⟩
  rw [pushAll, List.reverse_append, List.reverse_reverse, itemsSpell_append, itemsSpell_high hhigh]
  exact h.items.append htext

/-- A character of several bytes keeps a draft textual. Between items they become
literals, inside a class members; the draft is in one piece again only behind the
last of them. -/
theorem Textual.feed_high {d : Draft} (h : d.Textual) {bytes : List UInt8} (hne : bytes ≠ [])
    (htext : IsText bytes) (hhigh : ∀ b ∈ bytes, 0x80 ≤ b.toNat) (offset : Nat) :
    ∃ (d' : Draft) (offset' : Nat), d'.Textual ∧
      ∀ rest, d.feed offset (bytes ++ rest) = d'.feed offset' rest := by
  cases hphase : d.phase with
  | plain =>
      exact ⟨_, _, h.pushHigh htext hhigh, fun rest => Draft.feed_high hphase hhigh offset rest⟩
  | classBody opened negated written =>
      refine ⟨{ d with phase := .classBody opened negated (bytes.reverse ++ written) }, _,
        ⟨h.items, h.enclosing, ?_⟩,
        fun rest => feed_members hphase (bracket_not_mem_of_high hhigh) offset rest⟩
      intro _ _ _ heq
      cases heq
      rw [List.reverse_append, List.reverse_reverse]
      exact (h.phase opened negated written hphase).append htext
  | escaped =>
      cases bytes with
      | nil => exact absurd rfl hne
      | cons b others =>
          refine ⟨_, offset + 1 + others.length, h.pushHigh htext hhigh, fun rest => ?_⟩
          rw [List.forall_mem_cons] at hhigh
          have hstep : ∀ isLast, d.step offset b isLast = .ok (d.push (.byte b)) := by
            intro isLast
            simp only [step, hphase, ofEscaped_of_high hhigh.1]
          rw [List.cons_append, feed_of_step hstep, Draft.feed_high rfl hhigh.2]
          refine feed_congr ?_ rfl rest
          simp [pushAll, Draft.push]
  | classStart opened =>
      cases bytes with
      | nil => exact absurd rfl hne
      | cons b others =>
          have hbracket := bracket_not_mem_of_high hhigh
          rw [List.mem_cons, not_or] at hbracket
          have hcaret : b ≠ '^'.toUInt8 := by
            rintro rfl
            exact absurd (hhigh _ (List.mem_cons_self ..)) (by decide)
          refine ⟨{ d with phase := .classBody opened false (others.reverse ++ [b]) },
            offset + 1 + others.length, ⟨h.items, h.enclosing, ?_⟩, fun rest => ?_⟩
          · intro _ _ _ heq
            cases heq
            rw [List.reverse_append, List.reverse_reverse]
            exact htext
          · rw [List.cons_append, feed_of_step fun _ => by
              rw [step_classStart hphase, if_neg hcaret, if_neg (Ne.symm hbracket.1)],
              feed_members rfl hbracket.2]

/-- The bytes of a text keep a draft textual. -/
theorem Textual.feed {d d' : Draft} {offset : Nat} (cs : List Char) (h : d.Textual)
    (hfeed : d.feed offset (cs.flatMap String.utf8EncodeChar) = .ok d') : d'.Textual := by
  induction cs generalizing d offset with
  | nil =>
      cases hfeed
      exact h
  | cons c rest ih =>
      rw [List.flatMap_cons] at hfeed
      rcases utf8EncodeChar_ascii_or c with ⟨b, hbytes, hascii⟩ | ⟨hne, hhigh⟩
      · rw [hbytes, List.singleton_append] at hfeed
        obtain ⟨d₁, hstep, hrest⟩ := feed_cons_eq_ok.mp hfeed
        exact ih (h.reads hascii (reads_of_step hstep)) hrest
      · obtain ⟨d₁, offset₁, h₁, hread⟩ := h.feed_high hne (IsText.char c) hhigh offset
        rw [hread] at hfeed
        exact ih h₁ hfeed

end Draft

/-! ## Whole patterns -/

/-- The items that a text is read as are spelled as a text. -/
theorem Pattern.isText_itemsSpell {text : String} {p : Pattern} (h : ofString text = .ok p) :
    IsText (itemsSpell p.items) := by
  obtain ⟨offset, body, d, hbytes, _, hfeed, hfinish, _⟩ := ofBytes_eq_ok h
  have htext : IsText text.toUTF8.toList := ⟨text.toList, toUTF8_toList text⟩
  have hbody : IsText body := by
    rw [hbytes] at htext
    cases hstart : p.matchStart with
    | false =>
        rw [hstart] at htext
        exact htext
    | true =>
        rw [hstart] at htext
        exact htext.tail (by decide)
  obtain ⟨cs, rfl⟩ := hbody
  have hempty : ({} : Draft).Textual :=
    ⟨IsText.nil, by simp, by simp⟩
  have hread := hempty.feed cs hfeed
  rcases (Draft.finish_eq_ok hfinish).2 with ⟨_, hitems⟩ | ⟨_, hitems⟩
  · rw [hitems]
    exact hread.items
  · rw [hitems, itemsSpell_append]
    exact hread.items.append (IsText.ascii (by decide))

theorem Pattern.isText_spell {text : String} {p : Pattern} (h : ofString text = .ok p) :
    IsText p.spell := by
  refine IsText.append ?_ (isText_itemsSpell h)
  split
  next => exact IsText.ascii (by decide)
  next => exact IsText.nil

end ByteRegex
