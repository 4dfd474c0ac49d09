import Mathlib.Tactic.SplitIfs
import ByteRegex.ByteClass

/-!
# The members of a byte set

A byte is a member of a set if its bit is set in its word. Inserting a byte sets
one bit in one word and leaves every other bit alone, so `contains` sees exactly
the bytes that were inserted, and a class accepts what its written bytes say.
-/

namespace ByteRegex

namespace ByteSet

/-- The bit of a word that `b` chooses. -/
def bitAt (w : UInt64) (b : UInt8) : Bool :=
  w.toNat.testBit (b.toNat % 64)

theorem shiftRight_and_one (w : UInt64) (b : UInt8) :
    ((w >>> b.toUInt64) &&& 1 != 0) = bitAt w b := by
  have hnat : ((w >>> b.toUInt64) &&& 1).toNat = w.toNat >>> (b.toNat % 64) &&& 1 := by
    rw [UInt64.toNat_and, UInt64.toNat_shiftRight, UInt8.toNat_toUInt64]
    rfl
  unfold bitAt Nat.testBit
  rw [Nat.and_comm, ← hnat]
  cases hzero : ((w >>> b.toUInt64) &&& 1 != 0) with
  | true =>
      have hne : (w >>> b.toUInt64) &&& 1 ≠ 0 := by simpa using hzero
      have hnat : ((w >>> b.toUInt64) &&& 1).toNat ≠ 0 :=
        fun h => hne (UInt64.toNat_inj.mp h)
      simpa using hnat
  | false =>
      have heq : (w >>> b.toUInt64) &&& 1 = 0 := by simpa using hzero
      rw [heq]
      rfl

/-- Setting the bit of one byte in a word. -/
theorem bitAt_or_shiftLeft (w : UInt64) (a b : UInt8) :
    bitAt (w ||| 1 <<< a.toUInt64) b = (bitAt w b || decide (a.toNat % 64 = b.toNat % 64)) := by
  have hlt : b.toNat % 64 < 64 := Nat.mod_lt _ (by decide)
  have hone : ∀ i, Nat.testBit 1 i = decide (i = 0) := by
    intro i
    rw [Bool.eq_iff_iff, Nat.testBit_one_eq_true_iff_self_eq_zero, decide_eq_true_iff]
  unfold bitAt
  rw [UInt64.toNat_or, Nat.testBit_or, UInt64.toNat_shiftLeft, UInt8.toNat_toUInt64,
    Nat.testBit_mod_two_pow, Nat.testBit_shiftLeft]
  change (_ || (_ && (_ && Nat.testBit 1 _))) = _
  rw [hone, Bool.eq_iff_iff]
  simp only [Bool.or_eq_true, Bool.and_eq_true, decide_eq_true_iff]
  apply or_congr_right
  omega

theorem contains_eq_bitAt (s : ByteSet) (b : UInt8) : s.contains b = bitAt (s.word b) b :=
  shiftRight_and_one (s.word b) b

/-- Inserting a byte changes the word that it belongs to and no other. -/
theorem word_insert (s : ByteSet) (a b : UInt8) :
    (s.insert a).word b =
      if a.toNat / 64 = b.toNat / 64 then s.word b ||| 1 <<< a.toUInt64 else s.word b := by
  have ha := a.toNat_lt
  have hb := b.toNat_lt
  simp only [insert, word, UInt8.lt_iff_toNat_lt, UInt8.reduceToNat]
  split_ifs <;> first | rfl | omega

theorem contains_insert (s : ByteSet) (a b : UInt8) :
    (s.insert a).contains b = (s.contains b || decide (a = b)) := by
  rw [contains_eq_bitAt, contains_eq_bitAt, word_insert]
  have hsplit : a = b ↔ a.toNat / 64 = b.toNat / 64 ∧ a.toNat % 64 = b.toNat % 64 := by
    rw [← UInt8.toNat_inj]
    omega
  by_cases hword : a.toNat / 64 = b.toNat / 64
  · rw [if_pos hword, bitAt_or_shiftLeft]
    simp [hsplit, hword]
  · rw [if_neg hword]
    simp [hsplit, hword]

/-- Inserting bytes adds these and no others. -/
theorem contains_insertMany (s : ByteSet) (bytes : List UInt8) (b : UInt8) :
    (s.insertMany bytes).contains b = (s.contains b || bytes.contains b) := by
  induction bytes generalizing s with
  | nil => simp
  | cons a rest ih =>
      rw [insertMany_cons, ih, contains_insert, List.contains_cons, Bool.or_assoc]
      congr 2
      rw [Bool.eq_iff_iff, decide_eq_true_iff, beq_iff_eq]
      exact eq_comm

theorem contains_empty (b : UInt8) : empty.contains b = false := by
  have hword : empty.word b = 0 := by
    unfold word
    split_ifs <;> rfl
  rw [contains_eq_bitAt, hword]
  simp [bitAt]

/-- A set made from bytes has exactly these members. -/
theorem contains_ofList (bytes : List UInt8) (b : UInt8) :
    (ofList bytes).contains b = bytes.contains b := by
  rw [ofList, contains_insertMany, contains_empty, Bool.false_or]

end ByteSet

/-- A class accepts the bytes that are written in it or, if inverted, the
others. -/
theorem ByteClass.accepts_iff (c : ByteClass) (b : UInt8) :
    c.accepts b = true ↔ (b ∈ c.written ↔ c.inverted = false) := by
  rw [accepts, c.members_eq, ByteSet.contains_ofList]
  cases hwritten : c.written.contains b with
  | true =>
      have hmem : b ∈ c.written := by simpa using hwritten
      cases c.inverted <;> simp [hmem]
  | false =>
      have hmem : b ∉ c.written := by simpa using hwritten
      cases c.inverted <;> simp [hmem]

end ByteRegex
