import ByteRegex.MessagePattern.Tree

/-!
# Sets of characters

A set of characters is a list of ranges in ascending order with gaps between
them. Characters are counted without a gap where the surrogates would be, so
that the complement of a set has no range of surrogates. A set also remembers
whether it is certainly closed under changes of case: that holds of the set of
nothing and of its complement, and of what is made of such sets.
-/

namespace ByteRegex.MessagePattern

/-- The number of characters that come before a character. -/
def rank (c : Char) : Nat :=
  if c.toNat < 0xD800 then c.toNat else c.toNat - 0x800

/-- The character of a rank. -/
def ofRank (n : Nat) : Char :=
  if n < 0xD800 then Char.ofNat n else Char.ofNat (n + 0x800)

/-- The rank of the last character. -/
def lastRank : Nat := 0x10F7FF

/-- Ranges of ranks, first and last included. -/
structure CharSet where
  ranges : List (Nat × Nat) := []
  caseClosed : Bool := true
deriving DecidableEq, Repr, Inhabited

namespace CharSet

def empty : CharSet := {}

def isEmpty (s : CharSet) : Bool :=
  s.ranges.isEmpty

def contains (s : CharSet) (c : Char) : Bool :=
  s.ranges.any fun (first, last) => first ≤ rank c && rank c ≤ last

/-- Ranges in ascending order without overlaps or neighbours. -/
def normalize (ranges : List (Nat × Nat)) : List (Nat × Nat) :=
  let sorted := ranges.mergeSort fun a b => a.1 ≤ b.1
  (sorted.foldl join []).reverse
where
  /-- Adds a range that begins no earlier than those before it, latest first. -/
  join (before : List (Nat × Nat)) (r : Nat × Nat) : List (Nat × Nat) :=
    match before with
    | (first, last) :: earlier =>
      if r.1 ≤ last + 1 then (first, max last r.2) :: earlier else r :: before
    | [] => [r]

def ofRanges (ranges : List (Nat × Nat)) : CharSet where
  ranges := normalize ranges
  caseClosed := ranges.isEmpty

/-- The characters from one to another. -/
def range (first last : Char) : CharSet :=
  ofRanges [(rank first, rank last)]

def ofChars (cs : List Char) : CharSet :=
  ofRanges (cs.map fun c => (rank c, rank c))

def union (s t : CharSet) : CharSet :=
  if t.isEmpty || s.ranges == t.ranges then s
  else { ranges := normalize (s.ranges ++ t.ranges), caseClosed := s.caseClosed && t.caseClosed }

/-- The ranges between those of an ascending list, from `low` on. -/
def gaps (low : Nat) : List (Nat × Nat) → List (Nat × Nat)
  | [] => if low ≤ lastRank then [(low, lastRank)] else []
  | (first, last) :: rest =>
    if low < first then (low, first - 1) :: gaps (last + 1) rest else gaps (last + 1) rest

def complement (s : CharSet) : CharSet :=
  { ranges := gaps 0 s.ranges, caseClosed := s.isEmpty || s.caseClosed }

def intersection (s t : CharSet) : CharSet :=
  if s.isEmpty then s
  else if t.isEmpty then empty
  else
    { ranges := gaps 0 (normalize (gaps 0 s.ranges ++ gaps 0 t.ranges))
      caseClosed := s.caseClosed && t.caseClosed }

def difference (s t : CharSet) : CharSet :=
  if s.isEmpty || t.isEmpty then s
  else
    { ranges := gaps 0 (normalize (gaps 0 s.ranges ++ t.ranges))
      caseClosed := s.caseClosed && t.caseClosed }

def combine : SetOperation → CharSet → CharSet → CharSet
  | .intersection, s, t => s.intersection t
  | .difference, s, t => s.difference t
  | .symmetricDifference, s, t => (s.union t).difference (s.intersection t)

/-- Whether the set holds ASCII characters only. -/
def isAscii (s : CharSet) : Bool :=
  s.ranges.all fun r => r.2 < 128

/-- The character that has no other beside it in the set. -/
def single? (s : CharSet) : Option Char :=
  match s.ranges with
  | [(first, last)] => if first = last then some (ofRank first) else none
  | _ => none

/-- The set as ranges of code points, in ascending order and without
surrogates. -/
def codeRanges (s : CharSet) : List (Nat × Nat) :=
  s.ranges.flatMap fun (first, last) =>
    if last < 0xD800 then [(first, last)]
    else if 0xD800 ≤ first then [(first + 0x800, last + 0x800)]
    else [(first, 0xD7FF), (0xE000, last + 0x800)]

/-- The set with both cases of every ASCII letter in it. -/
def withAsciiCases (s : CharSet) : CharSet :=
  let letters := (List.range 26).filter fun i =>
    s.contains (Char.ofNat (65 + i)) || s.contains (Char.ofNat (97 + i))
  if letters.isEmpty then s
  else
    { s with
      ranges := normalize (s.ranges ++ letters.flatMap fun i => [(65 + i, 65 + i), (97 + i, 97 + i)]) }

end CharSet

/-- The characters of a named class. -/
def AsciiClass.chars : AsciiClass → CharSet
  | alnum => .ofRanges [(0x30, 0x39), (0x41, 0x5A), (0x61, 0x7A)]
  | alpha => .ofRanges [(0x41, 0x5A), (0x61, 0x7A)]
  | ascii => .ofRanges [(0x00, 0x7F)]
  | blank => .ofChars ['\t', ' ']
  | cntrl => .ofRanges [(0x00, 0x1F), (0x7F, 0x7F)]
  | digit => .ofRanges [(0x30, 0x39)]
  | graph => .ofRanges [(0x21, 0x7E)]
  | lower => .ofRanges [(0x61, 0x7A)]
  | print => .ofRanges [(0x20, 0x7E)]
  | punct => .ofRanges [(0x21, 0x2F), (0x3A, 0x40), (0x5B, 0x60), (0x7B, 0x7E)]
  | space => .ofRanges [(0x09, 0x0D), (0x20, 0x20)]
  | upper => .ofRanges [(0x41, 0x5A)]
  | word => .ofRanges [(0x30, 0x39), (0x41, 0x5A), (0x5F, 0x5F), (0x61, 0x7A)]
  | xdigit => .ofRanges [(0x30, 0x39), (0x41, 0x46), (0x61, 0x66)]

def PerlClass.asciiChars : PerlClass → CharSet
  | digit => AsciiClass.digit.chars
  | space => AsciiClass.space.chars
  | word => AsciiClass.word.chars

end ByteRegex.MessagePattern
