/-!
# Ranges of characters

A property of characters is given as a list of ranges of code points, first and
last included.
-/

namespace ByteRegex

/-- Ranges of code points, each by its first and its last. -/
abbrev CharRanges := List (Nat × Nat)

namespace CharRanges

def contains (ranges : CharRanges) (c : Char) : Bool :=
  ranges.any fun (first, last) => first ≤ c.toNat && c.toNat ≤ last

theorem contains_iff {ranges : CharRanges} {c : Char} :
    ranges.contains c = true ↔ ∃ r ∈ ranges, r.1 ≤ c.toNat ∧ c.toNat ≤ r.2 := by
  simp [contains]

end CharRanges

end ByteRegex
