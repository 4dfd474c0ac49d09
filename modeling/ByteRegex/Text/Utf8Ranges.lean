/-!
# Ranges of characters as ranges of bytes

The characters between two others, written in UTF-8, are no single range of
byte sequences. They are a list of products: in each, every byte of a sequence
ranges over an interval of its own. `utf8Ranges` lists these products in
ascending order.

Below its first byte a character is a number in base 64, one digit to a byte, so
that the work is done by `digitBlocks`: it cuts an interval of numbers into the
fewest products of intervals of digits.
-/

namespace ByteRegex

/-- The bytes, or digits, from a first to a last one. -/
abbrev ByteInterval := Nat × Nat

/-- The numbers from `first` to `last` as products of intervals of digits in base
64. Below the leading digit, which has no bound, there are `digits` others. -/
def digitBlocks : (digits : Nat) → (first last : Nat) → List (List ByteInterval)
  | 0, first, last => [[(first, last)]]
  | digits + 1, first, last =>
    let unit := Nat.pow 64 (digits + 1)
    let low := first / unit
    let high := last / unit
    if low = high then
      (digitBlocks digits (first % unit) (last % unit)).map ((low, low) :: ·)
    else
      let below :=
        if first % unit = 0 then []
        else (digitBlocks digits (first % unit) (unit - 1)).map ((low, low) :: ·)
      let above :=
        if last % unit = unit - 1 then []
        else (digitBlocks digits 0 (last % unit)).map ((high, high) :: ·)
      let lowest := if below.isEmpty then low else low + 1
      let highest := if above.isEmpty then high else high - 1
      let between :=
        if lowest ≤ highest then [(lowest, highest) :: List.replicate (digits + 1) (0, 63)] else []
      below ++ between ++ above

/-- The code points that are written with the same number of bytes: how many
bytes follow the first one, the least and the greatest of the code points, and
the first byte without any bits of the code point. -/
structure Utf8Length where
  following : Nat
  least : Nat
  greatest : Nat
  mark : Nat

def utf8Lengths : List Utf8Length :=
  [⟨0, 0, 0x7F, 0⟩, ⟨1, 0x80, 0x7FF, 0xC0⟩, ⟨2, 0x800, 0xFFFF, 0xE0⟩, ⟨3, 0x10000, 0x10FFFF, 0xF0⟩]

/-- The bytes of a product of intervals of digits. -/
def Utf8Length.bytes (l : Utf8Length) : List ByteInterval → List ByteInterval
  | [] => []
  | (low, high) :: rest =>
    (l.mark + low, l.mark + high) :: rest.map fun (low, high) => (0x80 + low, 0x80 + high)

/-- The code points from `first` to `last`, no surrogates among them, in UTF-8. -/
def utf8Ranges (first last : Nat) : List (List ByteInterval) :=
  utf8Lengths.flatMap fun l =>
    let first := max first l.least
    let last := min last l.greatest
    if first ≤ last then (digitBlocks l.following first last).map l.bytes else []

end ByteRegex
