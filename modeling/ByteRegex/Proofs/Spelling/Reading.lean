import ByteRegex.Proofs.Pattern.Phrases
import ByteRegex.Proofs.Spelling.Normal
import ByteRegex.Proofs.Spelling.Tree

/-!
# Reading a spelling

The spelling of a tree is read as the same tree but for classes that have a
shorter spelling. It is read so in any place: whatever stands before is left
alone, and whatever follows is read next. For this every byte with a role is
escaped where it has none, and a reference has only one digit.

Groups are given their numbers anew when they are read; they get the same ones
if the numbers of the tree follow those of the draft.
-/

namespace ByteRegex

/-- The numbers run on from `n` without a gap. -/
def Consecutive (n : Nat) (numbers : List Nat) : Prop :=
  numbers = List.range' n numbers.length

theorem consecutive_cons {n m : Nat} {numbers : List Nat} :
    Consecutive n (m :: numbers) ↔ m = n ∧ Consecutive (n + 1) numbers := by
  unfold Consecutive
  rw [List.length_cons, List.range'_succ, List.cons.injEq]

theorem consecutive_append {n : Nat} {xs ys : List Nat} :
    Consecutive n (xs ++ ys) ↔ Consecutive n xs ∧ Consecutive (n + xs.length) ys := by
  induction xs generalizing n with
  | nil => simp [Consecutive]
  | cons x rest ih =>
      rw [List.cons_append, consecutive_cons, consecutive_cons, ih, List.length_cons, and_assoc,
        Nat.add_assoc, Nat.add_comm 1]

/-! ## Single items -/

/-- The bytes to escape are those of the signs, and `^`. -/
theorem needsEscape_iff {b : UInt8} :
    needsEscape b = true ↔ b = '^'.toUInt8 ∨ ∃ sign : Sign, sign.byte? = some b := by
  unfold needsEscape
  rw [Bool.or_eq_true, bne_iff_ne, beq_iff_eq, or_comm]
  apply or_congr_right
  constructor
  · intro hsign
    refine ⟨Sign.ofByte b, ?_⟩
    rcases Sign.byte?_ofByte b with hnone | hsome
    · exact absurd (Sign.byte?_eq_none_iff.mp hnone) hsign
    · exact hsome
  · rintro ⟨sign, hsign⟩
    rw [Sign.ofByte_eq_of_byte? hsign]
    rintro rfl
    cases hsign

/-- An escaped byte that needs the escape is itself. -/
theorem Item.ofEscaped_of_needsEscape {b : UInt8} (h : needsEscape b = true) :
    Item.ofEscaped b = .byte b := by
  rcases needsEscape_iff.mp h with rfl | ⟨sign, hsign⟩
  · rfl
  · cases sign with
    | quantifier q => cases q <;> cases hsign <;> rfl
    | plain => cases hsign
    | _ =>
        cases hsign
        rfl

/-- What a byte is spelled as is read as the byte. -/
theorem Draft.feed_spellByte {d : Draft} (hplain : d.phase = .plain) (b : UInt8) (offset : Nat)
    (rest : List UInt8) :
    d.feed offset (spellByte b ++ rest) =
      (d.push (.byte b)).feed (offset + (spellByte b).length) rest := by
  unfold spellByte
  cases hescape : needsEscape b with
  | true =>
      rw [if_pos rfl, List.cons_append, List.cons_append, List.nil_append, feed_escape hplain,
        Item.ofEscaped_of_needsEscape hescape]
      rfl
  | false =>
      have hsign : Sign.ofByte b = .plain := by
        unfold needsEscape at hescape
        simp only [Bool.or_eq_false_iff, bne_eq_false_iff_eq] at hescape
        exact hescape.1
      rw [if_neg Bool.false_ne_true, List.singleton_append, feed_literal hplain hsign]
      rfl

/-- What a class is spelled as is read as the class or as a shorter item. -/
theorem Draft.feed_spellClass {d : Draft} (hplain : d.phase = .plain) {written : List UInt8}
    {negated : Bool} (hclass : ClassBytes written negated) (offset : Nat) (rest : List UInt8) :
    d.feed offset ((ByteClass.ofWritten written negated).spell ++ rest) =
      (d.push (.ofClass written negated)).feed
        (offset + ((ByteClass.ofWritten written negated).spell).length) rest := by
  rcases ByteClass.spell_cases written negated with ⟨hspell, hitem⟩ | ⟨b, _, hspell, hitem⟩ |
    ⟨hspell, hitem⟩ | ⟨hspell, hitem⟩ | ⟨hspell, hitem⟩
  · rw [hspell, hitem]
    exact feed_dot hplain offset rest
  · rw [hspell, hitem]
    exact feed_spellByte hplain b offset rest
  · rw [hspell, hitem]
    exact feed_escape hplain offset 'd'.toUInt8 rest
  · rw [hspell, hitem]
    exact feed_escape hplain offset 'w'.toUInt8 rest
  · rw [hspell, hitem, List.cons_append, List.append_assoc, List.singleton_append,
      feed_class hplain hclass]
    refine feed_congr rfl ?_ rest
    cases negated <;> simp <;> omega

/-- The number of a group that can be referred to is one digit. -/
theorem spellReference_eq {number : Nat} (hlow : 1 ≤ number) (hhigh : number ≤ 9) :
    spellReference (slotOf number) = ['\\'.toUInt8, UInt8.ofNat (48 + number)] ∧
      Item.ofEscaped (UInt8.ofNat (48 + number)) = .backreference number := by
  obtain rfl | rfl | rfl | rfl | rfl | rfl | rfl | rfl | rfl : number = 1 ∨ number = 2 ∨
      number = 3 ∨ number = 4 ∨ number = 5 ∨ number = 6 ∨ number = 7 ∨ number = 8 ∨
      number = 9 := by omega
  all_goals exact ⟨by decide +kernel, rfl⟩

theorem Draft.feed_spellReference {d : Draft} (hplain : d.phase = .plain) {number : Nat}
    (hlow : 1 ≤ number) (hhigh : number ≤ 9) (offset : Nat) (rest : List UInt8) :
    d.feed offset (spellReference (slotOf number) ++ rest) =
      (d.push (.backreference number)).feed
        (offset + (spellReference (slotOf number)).length) rest := by
  obtain ⟨hspell, hitem⟩ := spellReference_eq hlow hhigh
  rw [hspell, ← hitem]
  exact feed_escape hplain offset _ rest

/-! ## Trees -/

/-- A quantifier is spelled behind the item that it applies to. -/
theorem Item.spell_times {item : Item} (h : item.isQuantifiable = true) (times : Repeat) :
    item.spell times = item.spell .once ++ times.spell := by
  cases item with
  | byte | any | oneOf | group => simp [Item.spell, Repeat.spell]
  | quantified | backreference | endAnchor => cases h

theorem Quantifier.spell_times (q : Quantifier) :
    ∃ b, q.times.spell = [b] ∧ Sign.ofByte b = .quantifier q := by
  cases q with
  | optional => exact ⟨_, rfl, by decide⟩
  | star => exact ⟨_, rfl, by decide⟩
  | plus => exact ⟨_, rfl, by decide⟩

mutual

theorem Item.feed_spell : ∀ (item : Item) (d : Draft) (offset : Nat) (rest : List UInt8),
    item.Readable → d.phase = .plain → Consecutive (d.groups + 1) item.numbers →
    d.feed offset (item.spell .once ++ rest) =
      (d.pushAll [item.normal] item.numbers.length).feed (offset + (item.spell .once).length) rest
  | .byte b, d, offset, rest, _, hplain, _ => by
      rw [Item.spell, Repeat.spell, List.append_nil]
      exact Draft.feed_spellByte hplain b offset rest
  | .any, d, offset, rest, _, hplain, _ => by
      rw [Item.spell, Repeat.spell, List.append_nil]
      exact Draft.feed_dot hplain offset rest
  | .oneOf written negated, d, offset, rest, hread, hplain, _ => by
      rw [Item.spell, Repeat.spell, List.append_nil]
      exact Draft.feed_spellClass hplain hread offset rest
  | .quantified q inner, d, offset, rest, hread, hplain, hnumbers => by
      rw [Item.Readable] at hread
      obtain ⟨happlies, hinner⟩ := hread
      obtain ⟨b, hspell, hsign⟩ := q.spell_times
      have happlies' : inner.normal.isQuantifiable = true := by
        rw [Item.isQuantifiable_normal, happlies]
      rw [Item.spell, Item.spell_times happlies, hspell, List.append_assoc, List.singleton_append,
        Item.feed_spell inner d offset _ hinner hplain hnumbers,
        Draft.feed_quantifier rfl hsign rfl happlies', List.length_append, List.length_singleton,
        Nat.add_assoc]
      rfl
  | .group number alternatives, d, offset, rest, hread, hplain, hnumbers => by
      rw [Item.Readable] at hread
      obtain ⟨hne, hbranches⟩ := hread
      rw [Item.numbers, consecutive_cons] at hnumbers
      obtain ⟨rfl, hnumbers⟩ := hnumbers
      have hinner := feed_branchesSpell alternatives (d.openGroup offset) (offset + 1) rest _ _ hne
        hbranches hplain rfl rfl hnumbers
      rw [Item.spell, Repeat.spell, List.append_nil, spellBranches, List.append_assoc,
        List.append_assoc, List.singleton_append, List.singleton_append,
        Draft.feed_openGroup hplain, hinner]
      refine Draft.feed_congr ?_ ?_ rest
      · simp [Draft.pushAll, Draft.openGroup, Item.normal, Item.numbers, hplain, Nat.add_assoc,
          Nat.add_comm 1]
      · simp only [List.length_append, List.length_singleton]
        omega
  | .backreference number, d, offset, rest, hread, hplain, _ => by
      rw [Item.Readable] at hread
      exact Draft.feed_spellReference hplain hread.1 hread.2 offset rest
  | .endAnchor, _, _, _, hread, _, _ => hread.elim

theorem feed_itemsSpell : ∀ (items : List Item) (d : Draft) (offset : Nat) (rest : List UInt8),
    itemsReadable items → d.phase = .plain → Consecutive (d.groups + 1) (itemsNumbers items) →
    d.feed offset (itemsSpell items ++ rest) =
      (d.pushAll (itemsNormal items) (itemsNumbers items).length).feed
        (offset + (itemsSpell items).length) rest
  | [], d, offset, rest, _, hplain, _ => by
      simp [itemsNormal, Draft.pushAll, ← hplain]
  | item :: others, d, offset, rest, hread, hplain, hnumbers => by
      rw [itemsReadable_cons] at hread
      rw [itemsNumbers_cons, consecutive_append, Nat.add_right_comm] at hnumbers
      rw [itemsSpell_cons, List.append_assoc,
        Item.feed_spell item d offset _ hread.1 hplain hnumbers.1,
        feed_itemsSpell others _ _ rest hread.2 rfl hnumbers.2, Draft.pushAll_pushAll,
        itemsNumbers_cons, List.length_append, List.length_append, Nat.add_assoc]
      rfl

theorem feed_branchesSpell : ∀ (branches : List (List Item)) (d : Draft) (offset : Nat)
    (rest : List UInt8) (g : OpenGroup) (outer : List OpenGroup), branches ≠ [] →
    branchesReadable branches → d.phase = .plain → d.items = [] → d.enclosing = g :: outer →
    Consecutive (d.groups + 1) (branchesNumbers branches) →
    d.feed offset
        (List.intercalate ['|'.toUInt8] (branchesSpell branches) ++ ')'.toUInt8 :: rest) =
      { d with
        items := .group g.number (g.branches.reverse ++ branchesNormal branches) :: g.before
        enclosing := outer
        groups := d.groups + (branchesNumbers branches).length }.feed
          (offset + (List.intercalate ['|'.toUInt8] (branchesSpell branches)).length + 1) rest
  | [], _, _, _, _, _, hne, _, _, _, _, _ => absurd rfl hne
  | [items], d, offset, rest, g, outer, _, hread, hplain, hitems, henclosing, hnumbers => by
      rw [branchesReadable_cons] at hread
      rw [branchesNumbers_cons, branchesNumbers_nil, List.append_nil] at hnumbers ⊢
      have hfirst := feed_itemsSpell items d offset (')'.toUInt8 :: rest) hread.1 hplain hnumbers
      have hclose := Draft.feed_closeGroup
        (d := d.pushAll (itemsNormal items) (itemsNumbers items).length) rfl henclosing
      rw [branchesSpell_cons, branchesSpell, List.intercalate_singleton, hfirst, hclose]
      refine Draft.feed_congr ?_ rfl rest
      simp [Draft.pushAll, hitems, branchesNormal, hplain]
  | items :: more :: others, d, offset, rest, g, outer, _, hread, hplain, hitems, henclosing,
      hnumbers => by
      rw [branchesReadable_cons] at hread
      rw [branchesNumbers_cons, consecutive_append, Nat.add_right_comm] at hnumbers
      have hspell : List.intercalate ['|'.toUInt8] (branchesSpell (items :: more :: others)) =
          itemsSpell items ++ '|'.toUInt8 ::
            List.intercalate ['|'.toUInt8] (branchesSpell (more :: others)) := by
        rw [branchesSpell_cons, branchesSpell_cons, List.intercalate_cons_cons, List.append_assoc,
          List.singleton_append]
      have hbar := Draft.feed_bar
        (d := d.pushAll (itemsNormal items) (itemsNumbers items).length) rfl henclosing
      rw [hspell, List.append_assoc, feed_itemsSpell items d offset _ hread.1 hplain hnumbers.1,
        List.cons_append, hbar]
      rw [feed_branchesSpell (more :: others) _ _ rest _ outer (List.cons_ne_nil more others)
        hread.2 rfl rfl rfl hnumbers.2]
      refine Draft.feed_congr ?_ ?_ rest
      · simp [Draft.pushAll, hitems, branchesNormal, hplain, Nat.add_assoc]
      · simp only [List.length_append, List.length_cons]
        omega

end

end ByteRegex
