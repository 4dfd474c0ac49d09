/-!
# Sets of bytes

A `ByteSet` keeps one bit per byte value in four 64-bit words. The high two
bits of a byte choose the word; the low six choose the bit, and since a shift
of a 64-bit word takes its amount modulo 64, the byte itself serves as the
shift amount. Membership is `contains`; `toList` is the ascending view of the
same set, and `ofList` builds a set from bytes in any order.
-/

namespace ByteRegex

/-- A set of byte values, one bit each. -/
structure ByteSet where
  low : UInt64
  midLow : UInt64
  midHigh : UInt64
  high : UInt64
deriving DecidableEq

namespace ByteSet

/-- The set without members. -/
def empty : ByteSet := ⟨0, 0, 0, 0⟩

instance : EmptyCollection ByteSet := ⟨empty⟩

instance : Inhabited ByteSet := ⟨empty⟩

/-- The word that holds the bit of `b`. -/
def word (s : ByteSet) (b : UInt8) : UInt64 :=
  if b < 64 then s.low
  else if b < 128 then s.midLow
  else if b < 192 then s.midHigh
  else s.high

def contains (s : ByteSet) (b : UInt8) : Bool :=
  (s.word b >>> b.toUInt64) &&& 1 != 0

instance : Membership UInt8 ByteSet := ⟨fun s b => s.contains b = true⟩

instance (s : ByteSet) (b : UInt8) : Decidable (b ∈ s) :=
  inferInstanceAs (Decidable (s.contains b = true))

def insert (s : ByteSet) (b : UInt8) : ByteSet :=
  let bit : UInt64 := 1 <<< b.toUInt64
  if b < 64 then { s with low := s.low ||| bit }
  else if b < 128 then { s with midLow := s.midLow ||| bit }
  else if b < 192 then { s with midHigh := s.midHigh ||| bit }
  else { s with high := s.high ||| bit }

def insertMany (s : ByteSet) (bytes : List UInt8) : ByteSet :=
  bytes.foldl insert s

def ofList (bytes : List UInt8) : ByteSet :=
  empty.insertMany bytes

/-- The number of bits set in a word. -/
def bitCount (w : UInt64) : Nat :=
  (List.range 64).countP fun i => w.toNat.testBit i

/-- The number of members. -/
def size (s : ByteSet) : Nat :=
  bitCount s.low + bitCount s.midLow + bitCount s.midHigh + bitCount s.high

def isEmpty (s : ByteSet) : Bool :=
  s == empty

/-- All byte values in ascending order. -/
def everyByte : List UInt8 :=
  (List.range 256).map UInt8.ofNat

/-- The members in ascending order. -/
def toList (s : ByteSet) : List UInt8 :=
  everyByte.filter s.contains

theorem mem_iff_contains {s : ByteSet} {b : UInt8} : b ∈ s ↔ s.contains b = true :=
  Iff.rfl

@[simp] theorem insertMany_nil (s : ByteSet) : s.insertMany [] = s := rfl

@[simp] theorem insertMany_cons (s : ByteSet) (b : UInt8) (bytes : List UInt8) :
    s.insertMany (b :: bytes) = (s.insert b).insertMany bytes := rfl

theorem insertMany_append (s : ByteSet) (xs ys : List UInt8) :
    s.insertMany (xs ++ ys) = (s.insertMany xs).insertMany ys := by
  simp [insertMany]

end ByteSet

end ByteRegex
