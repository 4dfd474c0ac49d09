import ByteRegex.ByteSet

/-!
# Byte classes

A class accepts one byte: it is a set of bytes, possibly inverted. The members
are kept as they were written, duplicates and order included, because two
spellings of one set are different classes when they are written out. The set
itself is carried along, so that asking for a byte costs no search.
-/

namespace ByteRegex

/-- The bytes written in a class, and whether it accepts those bytes or all
others. -/
structure ByteClass where
  written : List UInt8
  inverted : Bool
  members : ByteSet := ByteSet.ofList written
  members_eq : members = ByteSet.ofList written := by rfl
deriving DecidableEq

namespace ByteClass

/-- The class of the bytes in `written`, or, if negated, of all others. -/
def ofWritten (written : List UInt8) (negated : Bool) : ByteClass where
  written
  inverted := negated

@[simp] theorem written_ofWritten (written : List UInt8) (negated : Bool) :
    (ofWritten written negated).written = written := rfl

@[simp] theorem inverted_ofWritten (written : List UInt8) (negated : Bool) :
    (ofWritten written negated).inverted = negated := rfl

/-- The class that accepts `b` only. -/
def literal (b : UInt8) : ByteClass where
  written := [b]
  inverted := false

/-- The class that accepts every byte: all bytes but none. -/
def any : ByteClass where
  written := []
  inverted := true

instance : Inhabited ByteClass := ⟨any⟩

def accepts (c : ByteClass) (b : UInt8) : Bool :=
  c.members.contains b != c.inverted

/-- The bytes that the class accepts, in ascending order. -/
def accepted (c : ByteClass) : List UInt8 :=
  ByteSet.everyByte.filter c.accepts

/-- `count` consecutive bytes from that of `first` on. -/
def bytesFrom (first : Char) (count : Nat) : List UInt8 :=
  (List.range count).map fun i => first.toUInt8 + UInt8.ofNat i

/-- The bytes of the class written `\d`. -/
def digits : List UInt8 :=
  bytesFrom '0' 10

/-- The bytes of the class written `\w`: small letters, capitals, digits and
the underscore, in this order. -/
def wordBytes : List UInt8 :=
  bytesFrom 'a' 26 ++ bytesFrom 'A' 26 ++ digits ++ [95]

/-- A class is what is written in it. -/
@[ext] theorem ext {c d : ByteClass} (hw : c.written = d.written)
    (hi : c.inverted = d.inverted) : c = d := by
  obtain ⟨w, i, m, hm⟩ := c
  obtain ⟨w', i', m', hm'⟩ := d
  subst hw hi hm hm'
  rfl

end ByteClass

end ByteRegex
