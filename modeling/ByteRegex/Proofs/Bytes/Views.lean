import Mathlib.Data.Finset.Card
import ByteRegex.Proofs.Bytes.Membership

/-!
# The views of a byte set

A byte set can be asked in several ways, and each reads the four words differently:
`contains` reads one bit of one word, `size` counts the bits of each word, `isEmpty`
compares all words at once, `toList` asks for one byte after another, and two sets
are equal if all their words are. They agree because every bit of every word is the
bit of one byte: bit `i` of word `k` is that of the byte `64 * k + i`. So a set is
known as soon as its members are, and what is true of the members of a set is true
of every view of it.
-/

namespace ByteRegex

namespace ByteSet

/-! ## Bits and bytes -/

/-- The words of a set by their number. -/
def wordAt (s : ByteSet) : Nat → UInt64
  | 0 => s.low
  | 1 => s.midLow
  | 2 => s.midHigh
  | _ => s.high

theorem word_eq_wordAt (s : ByteSet) (b : UInt8) : s.word b = s.wordAt (b.toNat / 64) := by
  have hlt := b.toNat_lt
  simp only [word, UInt8.lt_iff_toNat_lt, UInt8.reduceToNat]
  split_ifs
  · rw [show b.toNat / 64 = 0 by omega]
    rfl
  · rw [show b.toNat / 64 = 1 by omega]
    rfl
  · rw [show b.toNat / 64 = 2 by omega]
    rfl
  · rw [show b.toNat / 64 = 3 by omega]
    rfl

/-- Every bit of every word tells of one byte. -/
theorem contains_ofNat (s : ByteSet) {k i : Nat} (hk : k < 4) (hi : i < 64) :
    s.contains (UInt8.ofNat (64 * k + i)) = (s.wordAt k).toNat.testBit i := by
  have hbyte : (UInt8.ofNat (64 * k + i)).toNat = 64 * k + i := by
    rw [UInt8.toNat_ofNat']
    omega
  rw [contains_eq_bitAt, word_eq_wordAt, bitAt, hbyte, show (64 * k + i) / 64 = k by omega,
    show (64 * k + i) % 64 = i by omega]

/-- Words with the same members have the same bits. -/
theorem wordAt_eq {s t : ByteSet} (h : ∀ b, s.contains b = t.contains b) {k : Nat} (hk : k < 4) :
    s.wordAt k = t.wordAt k := by
  refine UInt64.toNat_inj.mp (Nat.eq_of_testBit_eq fun i => ?_)
  by_cases hi : i < 64
  · rw [← contains_ofNat s hk hi, ← contains_ofNat t hk hi, h]
  · -- No word has bits beyond its 64.
    have hbeyond : ∀ w : UInt64, w.toNat.testBit i = false := fun w =>
      Nat.testBit_lt_two_pow (Nat.lt_of_lt_of_le w.toNat_lt
        (Nat.pow_le_pow_right (by decide) (Nat.le_of_not_lt hi)))
    rw [hbeyond, hbeyond]

/-- Sets with the same members are equal. -/
theorem eq_iff_contains {s t : ByteSet} : s = t ↔ ∀ b, s.contains b = t.contains b := by
  constructor
  · rintro rfl b
    rfl
  · intro h
    have hlow : s.low = t.low := wordAt_eq h (k := 0) (by decide)
    have hmidLow : s.midLow = t.midLow := wordAt_eq h (k := 1) (by decide)
    have hmidHigh : s.midHigh = t.midHigh := wordAt_eq h (k := 2) (by decide)
    have hhigh : s.high = t.high := wordAt_eq h (k := 3) (by decide)
    cases s
    cases t
    rw [ByteSet.mk.injEq]
    exact ⟨hlow, hmidLow, hmidHigh, hhigh⟩

/-! ## Members in ascending order -/

theorem mem_everyByte (b : UInt8) : b ∈ everyByte :=
  List.mem_map.mpr ⟨b.toNat, List.mem_range.mpr b.toNat_lt, UInt8.ofNat_toNat⟩

theorem everyByte_ascending : everyByte.Pairwise (· < ·) := by
  refine List.pairwise_map.mpr (List.pairwise_lt_range.imp_of_mem fun ha hb hlt => ?_)
  rw [List.mem_range] at ha hb
  rw [UInt8.lt_iff_toNat_lt, UInt8.toNat_ofNat', UInt8.toNat_ofNat']
  omega

theorem toList_ascending (s : ByteSet) : s.toList.Pairwise (· < ·) :=
  everyByte_ascending.filter _

theorem mem_toList_iff {s : ByteSet} {b : UInt8} : b ∈ s.toList ↔ s.contains b = true := by
  rw [toList, List.mem_filter]
  exact and_iff_right (mem_everyByte b)

/-! ## The number of members -/

/-- The numbers below `64 * n` in rows of 64. -/
theorem range_rows (n : Nat) :
    List.range (64 * n) = (List.range n).flatMap fun k => (List.range 64).map (64 * k + ·) := by
  induction n with
  | zero => rfl
  | succ n ih =>
      rw [Nat.mul_succ, List.range_add, ih, List.range_succ (n := n), List.flatMap_append,
        List.flatMap_cons, List.flatMap_nil, List.append_nil]

/-- The byte values word by word. -/
theorem everyByte_eq_flatMap :
    everyByte = (List.range 4).flatMap fun k =>
      (List.range 64).map fun i => UInt8.ofNat (64 * k + i) := by
  rw [everyByte, show 256 = 64 * 4 from rfl, range_rows, List.map_flatMap]
  simp only [List.map_map]
  rfl

/-- The bits of one word are counted as members. -/
theorem countP_contains_word (s : ByteSet) {k : Nat} (hk : k < 4) :
    ((List.range 64).map fun i => UInt8.ofNat (64 * k + i)).countP s.contains =
      bitCount (s.wordAt k) := by
  rw [List.countP_map, bitCount]
  refine List.countP_congr fun i hi => ?_
  rw [Function.comp_apply, contains_ofNat s hk (List.mem_range.mp hi)]

/-- Counting the bits of all words is counting members. -/
theorem size_eq_length_toList (s : ByteSet) : s.size = s.toList.length := by
  have hwords : (List.range 4).map (fun k =>
        ((List.range 64).map fun i => UInt8.ofNat (64 * k + i)).countP s.contains) =
      (List.range 4).map fun k => bitCount (s.wordAt k) :=
    List.map_congr_left fun k hk => countP_contains_word s (List.mem_range.mp hk)
  -- Every set has four words, so the sum over them is written out.
  calc s.size = ((List.range 4).map fun k => bitCount (s.wordAt k)).sum := by
        rw [size]
        simp only [List.range, List.range.loop, List.map_cons, List.map_nil, List.sum_cons,
          List.sum_nil, wordAt]
        omega
    _ = everyByte.countP s.contains := by
        rw [← hwords, everyByte_eq_flatMap, List.countP_flatMap]
        rfl
    _ = s.toList.length := List.countP_eq_length_filter

/-! ## All views at once -/

/-- What a set answers if its members are the bytes in `bytes`, whatever their order
and however often each of them occurs. -/
structure Shows (s : ByteSet) (bytes : List UInt8) : Prop where
  contains_iff : ∀ b, s.contains b = true ↔ b ∈ bytes
  size_eq : s.size = bytes.toFinset.card
  isEmpty_iff : s.isEmpty = true ↔ bytes = []
  ascending : s.toList.Pairwise (· < ·)
  mem_toList_iff : ∀ b, b ∈ s.toList ↔ b ∈ bytes

/-- A set that contains the bytes in `bytes` and no others shows them in every view. -/
theorem shows_of_contains {s : ByteSet} {bytes : List UInt8}
    (h : ∀ b, s.contains b = true ↔ b ∈ bytes) : s.Shows bytes where
  contains_iff := h
  size_eq := by
    have hsame : s.toList.toFinset = bytes.toFinset := by
      ext b
      rw [List.mem_toFinset, List.mem_toFinset, mem_toList_iff, h]
    rw [size_eq_length_toList, ← hsame, List.toFinset_card_of_nodup s.toList_ascending.nodup]
  isEmpty_iff := by
    rw [isEmpty, beq_iff_eq, eq_iff_contains, List.eq_nil_iff_forall_not_mem]
    refine forall_congr' fun b => ?_
    rw [contains_empty, ← h, Bool.not_eq_true]
  ascending := s.toList_ascending
  mem_toList_iff b := by rw [ByteSet.mem_toList_iff, h]

/-! ## Sets made from bytes -/

theorem contains_ofList_iff {bytes : List UInt8} {b : UInt8} :
    (ofList bytes).contains b = true ↔ b ∈ bytes := by
  rw [contains_ofList, List.contains_iff_mem]

theorem ofList_shows (bytes : List UInt8) : (ofList bytes).Shows bytes :=
  shows_of_contains fun _ => contains_ofList_iff

/-- Neither the order of the bytes nor their repetition counts. -/
theorem ofList_eq_iff {xs ys : List UInt8} : ofList xs = ofList ys ↔ ∀ b, b ∈ xs ↔ b ∈ ys := by
  rw [eq_iff_contains]
  refine forall_congr' fun b => ?_
  rw [Bool.eq_iff_iff, contains_ofList_iff, contains_ofList_iff]

/-- Bytes that are inserted later might have been there from the beginning. -/
theorem ofList_insertMany (written inserted : List UInt8) :
    (ofList written).insertMany inserted = ofList (written ++ inserted) :=
  (insertMany_append empty written inserted).symm

end ByteSet

/-- A set that is made from bytes, with more bytes inserted one after another, shows
these bytes in every view. Two such sets are equal if and only if they are made of the
same bytes, in whatever order and however often, and sets in general are equal if and
only if they have the same members. So a class accepts a byte if and only if the byte is
written in it, or if and only if it is not. -/
theorem set_shows_its_bytes (written inserted : List UInt8) :
    ((ByteSet.ofList written).insertMany inserted).Shows (written ++ inserted) ∧
      (∀ others later : List UInt8,
        (ByteSet.ofList written).insertMany inserted = (ByteSet.ofList others).insertMany later ↔
          ∀ b, b ∈ written ++ inserted ↔ b ∈ others ++ later) ∧
      (∀ s t : ByteSet, s = t ↔ ∀ b, s.contains b = t.contains b) ∧
      ∀ (negated : Bool) (b : UInt8),
        (ByteClass.ofWritten written negated).accepts b = (decide (b ∈ written) != negated) := by
  rw [ByteSet.ofList_insertMany]
  refine ⟨ByteSet.ofList_shows _, ?_, fun s t => ByteSet.eq_iff_contains, ?_⟩
  · intro others later
    rw [ByteSet.ofList_insertMany, ByteSet.ofList_eq_iff]
  · intro negated b
    have haccepts := (ByteClass.ofWritten written negated).accepts_iff b
    rw [ByteClass.written_ofWritten, ByteClass.inverted_ofWritten] at haccepts
    rw [Bool.eq_iff_iff, haccepts, bne_iff_ne, ne_eq]
    cases negated <;> simp

end ByteRegex
