import Mathlib.Data.List.Induction
import Mathlib.Data.List.TakeDrop
import Mathlib.Data.List.TakeWhile
import Mathlib.Data.Nat.Init
import ByteRegex.LineInput

/-!
# Lines and pieces

An input falls into pieces if it is cut behind each newline. There is one way to do so, and a read
takes the first piece and leaves the others: what is behind the newline of a piece has no part in
it. Once there are no more pieces, a read takes nothing and gives an empty line.

The line of a piece is what is left without the longest run of newlines and carriage returns at its
end. No other byte is looked at, so what is in front of the last other byte stays as it is.
-/

namespace ByteRegex

/-- The input is cut behind each newline. -/
inductive CutAtNewlines : List UInt8 → List (List UInt8) → Prop
  | nil : CutAtNewlines [] []
  /-- The last piece may lack a newline. -/
  | last {piece : List UInt8} (nonempty : piece ≠ []) (inner : '\n'.toUInt8 ∉ piece) :
      CutAtNewlines piece [piece]
  | cons {before rest : List UInt8} {others : List (List UInt8)} (inner : '\n'.toUInt8 ∉ before)
      (later : CutAtNewlines rest others) :
      CutAtNewlines (before ++ '\n'.toUInt8 :: rest) ((before ++ ['\n'.toUInt8]) :: others)

/-- The line is the piece without the longest run of newlines and carriage returns at its end. -/
def IsTrimmed (piece line : List UInt8) : Prop :=
  ∃ ending, piece = line ++ ending ∧ (∀ b ∈ ending, b = '\n'.toUInt8 ∨ b = '\r'.toUInt8) ∧
    ∀ b, line.getLast? = some b → b ≠ '\n'.toUInt8 ∧ b ≠ '\r'.toUInt8

/-- Where the last byte that belongs to no line ending is, looked for from the right. -/
def lastContent? (line : List UInt8) : Option Nat :=
  (line.reverse.findIdx? fun b => !isLineEnding b).map (line.length - 1 - ·)

/-- The input that is left after `count` reads. -/
def afterLines : (count : Nat) → List UInt8 → List UInt8
  | 0, input => input
  | count + 1, input => afterLines count (readLine input).2

/-! ## Line endings -/

theorem isLineEnding_iff {b : UInt8} :
    isLineEnding b = true ↔ b = '\n'.toUInt8 ∨ b = '\r'.toUInt8 := by
  simp [isLineEnding]

theorem isLineEnding_eq_false_iff {b : UInt8} :
    isLineEnding b = false ↔ b ≠ '\n'.toUInt8 ∧ b ≠ '\r'.toUInt8 := by
  simp [isLineEnding]

/-- Nothing but the ending is dropped. -/
theorem trimLineEnding_append {x s : List UInt8}
    (hx : ∀ b, x.getLast? = some b → isLineEnding b = false)
    (hs : ∀ b ∈ s, isLineEnding b = true) : trimLineEnding (x ++ s) = x := by
  have hall : ∀ b ∈ s.reverse, isLineEnding b = true := fun b hb => hs b (List.mem_reverse.mp hb)
  rw [trimLineEnding, List.reverse_append, List.dropWhile_append_of_pos hall]
  rcases List.eq_nil_or_concat x with rfl | ⟨init, b, rfl⟩
  · rfl
  · have hlast := hx b (by simp)
    rw [List.concat_eq_append, List.reverse_concat, List.dropWhile_cons_of_neg (by simp [hlast]),
      List.reverse_cons, List.reverse_reverse]

theorem isTrimmed_trimLineEnding (piece : List UInt8) : IsTrimmed piece (trimLineEnding piece) := by
  refine ⟨(piece.reverse.takeWhile isLineEnding).reverse, ?_, fun b hb => ?_, fun b hb => ?_⟩
  · rw [trimLineEnding, ← List.reverse_append, List.takeWhile_append_dropWhile,
      List.reverse_reverse]
  · exact isLineEnding_iff.mp (List.mem_takeWhile_imp (List.mem_reverse.mp hb))
  · rw [trimLineEnding, List.getLast?_reverse] at hb
    have hfirst := List.head?_dropWhile_not isLineEnding piece.reverse
    rw [hb] at hfirst
    exact isLineEnding_eq_false_iff.mp (by simpa using hfirst)

theorem lastContent?_lt {line : List UInt8} {i : Nat} (h : lastContent? line = some i) :
    i < line.length := by
  obtain ⟨k, hk, rfl⟩ := Option.map_eq_some_iff.mp h
  have hlt := (List.findIdx?_eq_some_iff_findIdx_eq.mp hk).1
  rw [List.length_reverse] at hlt
  omega

theorem lastContent?_concat (line : List UInt8) (b : UInt8) :
    lastContent? (line ++ [b]) =
      if isLineEnding b then lastContent? line else some line.length := by
  rw [lastContent?, List.reverse_concat, List.findIdx?_cons, List.length_append,
    List.length_singleton]
  cases hb : isLineEnding b with
  | false => simp
  | true =>
      simp only [Bool.not_true, Bool.false_eq_true, if_false, if_true, lastContent?,
        Option.map_map]
      congr 1
      funext i
      simp only [Function.comp_apply]
      omega

theorem trimLineEnding_concat (line : List UInt8) (b : UInt8) :
    trimLineEnding (line ++ [b]) =
      if isLineEnding b then trimLineEnding line else line ++ [b] := by
  rw [trimLineEnding, List.reverse_concat, List.dropWhile_cons]
  cases hb : isLineEnding b <;> simp [trimLineEnding]

/-- The line ends behind its last byte that is no line ending, and is empty if there is none. -/
theorem trimLineEnding_eq_take (line : List UInt8) :
    trimLineEnding line = line.take ((lastContent? line).elim 0 (· + 1)) := by
  induction line using List.reverseRecOn with
  | nil => rfl
  | append_singleton line b ih =>
      rw [trimLineEnding_concat, lastContent?_concat]
      cases hb : isLineEnding b with
      | false => exact (List.take_of_length_le (by simp)).symm
      | true =>
          simp only [if_true]
          rw [ih]
          cases hlast : lastContent? line with
          | none => rfl
          | some i => exact (List.take_append_of_le_length (lastContent?_lt hlast)).symm

/-! ## Single reads -/

theorem readLine_eq (input : List UInt8) :
    readLine input = (trimLineEnding (splitLine input).1, (splitLine input).2) := rfl

/-- A piece ends with the first newline, whatever comes after it. -/
theorem splitLine_of_newline {before : List UInt8} (h : '\n'.toUInt8 ∉ before)
    (rest : List UInt8) :
    splitLine (before ++ '\n'.toUInt8 :: rest) = (before ++ ['\n'.toUInt8], rest) := by
  have hbefore : ∀ b ∈ before, (b != '\n'.toUInt8) = true := fun b hb =>
    bne_iff_ne.mpr fun heq => h (heq ▸ hb)
  have hspan : (before ++ '\n'.toUInt8 :: rest).span (· != '\n'.toUInt8) =
      (before, '\n'.toUInt8 :: rest) := by
    rw [List.span_eq_takeWhile_dropWhile, List.takeWhile_append_of_pos hbefore,
      List.dropWhile_append_of_pos hbefore]
    simp
  rw [splitLine, hspan]

/-- Without a newline the piece is all there is. -/
theorem splitLine_of_no_newline {input : List UInt8} (h : '\n'.toUInt8 ∉ input) :
    splitLine input = (input, []) := by
  have hall : ∀ b ∈ input, (b != '\n'.toUInt8) = true := fun b hb =>
    bne_iff_ne.mpr fun heq => h (heq ▸ hb)
  rw [splitLine, List.span_eq_takeWhile_dropWhile, List.takeWhile_eq_self_iff.mpr hall,
    List.dropWhile_eq_nil_iff.mpr hall]

/-! ## Pieces -/

namespace CutAtNewlines

variable {input : List UInt8} {pieces others : List (List UInt8)}

theorem flatten (h : CutAtNewlines input pieces) : pieces.flatten = input := by
  induction h with
  | nil => rfl
  | last nonempty inner => simp
  | cons inner later ih => simp [ih]

/-- The induction is on the length, as what is cut next is behind the first newline. -/
theorem exists_pieces (input : List UInt8) : ∃ pieces, CutAtNewlines input pieces := by
  induction hlength : input.length using Nat.strong_induction_on generalizing input with
  | _ length ih =>
      by_cases hnewline : '\n'.toUInt8 ∈ input
      · obtain ⟨before, rest, rfl, hbefore⟩ := List.eq_append_cons_of_mem hnewline
        have hless : rest.length < length := by
          rw [← hlength, List.length_append, List.length_cons]
          omega
        obtain ⟨others, hothers⟩ := ih rest.length hless rest rfl
        exact ⟨_, .cons hbefore hothers⟩
      · by_cases hempty : input = []
        · exact ⟨[], hempty ▸ .nil⟩
        · exact ⟨[input], .last hempty hnewline⟩

/-- The first piece is what is split off, and the rest is cut into the other pieces. -/
theorem split (h : CutAtNewlines input pieces) :
    (splitLine input).1 = pieces.getD 0 [] ∧ CutAtNewlines (splitLine input).2 pieces.tail := by
  cases h with
  | nil => exact ⟨rfl, .nil⟩
  | last nonempty inner =>
      rw [splitLine_of_no_newline inner]
      exact ⟨rfl, .nil⟩
  | cons inner later =>
      rw [splitLine_of_newline inner]
      exact ⟨rfl, later⟩

theorem unique (h : CutAtNewlines input pieces) (h' : CutAtNewlines input others) :
    others = pieces := by
  induction h generalizing others with
  | nil =>
      generalize hinput : ([] : List UInt8) = input at h'
      cases h' with
      | nil => rfl
      | last nonempty inner => exact absurd hinput.symm nonempty
      | cons inner later => simp at hinput
  | @last piece nonempty inner =>
      generalize hinput : piece = input at h'
      cases h' with
      | nil => exact absurd hinput nonempty
      | last nonempty' inner' => rfl
      | cons inner' later => simp [hinput] at inner
  | @cons before rest pieces inner later ih =>
      have hsplit := splitLine_of_newline inner rest
      generalize hinput : before ++ '\n'.toUInt8 :: rest = input at h' hsplit
      cases h' with
      | nil => simp at hinput
      | last nonempty inner' => simp [← hinput] at inner'
      | cons inner' later' =>
          rw [splitLine_of_newline inner', Prod.mk.injEq] at hsplit
          obtain ⟨hpiece, rfl⟩ := hsplit
          rw [hpiece, ih later']

theorem readLines_getElem? (h : CutAtNewlines input pieces) {count i : Nat} (hi : i < count) :
    (readLines count input)[i]? = some (trimLineEnding (pieces.getD i [])) := by
  induction count generalizing input pieces i with
  | zero => exact absurd hi (Nat.not_lt_zero i)
  | succ count ih =>
      obtain ⟨hfirst, hrest⟩ := h.split
      simp only [readLines, readLine_eq]
      cases i with
      | zero => rw [List.getElem?_cons_zero, hfirst]
      | succ i =>
          rw [List.getElem?_cons_succ, ih hrest (Nat.lt_of_succ_lt_succ hi)]
          cases pieces <;> rfl

/-- What is left after some reads is cut into the pieces that they have not taken. -/
theorem drop (h : CutAtNewlines input pieces) (count : Nat) :
    CutAtNewlines (afterLines count input) (pieces.drop count) := by
  induction count generalizing input pieces with
  | zero => exact h
  | succ count ih =>
      rw [← List.drop_tail]
      exact ih h.split.2

end CutAtNewlines

/-! ## Reads in a row -/

theorem length_readLines (count : Nat) (input : List UInt8) :
    (readLines count input).length = count := by
  induction count generalizing input with
  | zero => rfl
  | succ count ih => simp only [readLines, List.length_cons, ih]

/-- Further reads go on where the first ones ended. -/
theorem readLines_add (count more : Nat) (input : List UInt8) :
    readLines (count + more) input =
      readLines count input ++ readLines more (afterLines count input) := by
  induction count generalizing input with
  | zero => rw [Nat.zero_add]; rfl
  | succ count ih =>
      rw [Nat.succ_add]
      simp only [readLines, afterLines, ih, List.cons_append]

/-- As many reads as there are newlines take no notice of what is behind the last of them. -/
theorem readLines_append {front : List UInt8}
    (h : front = [] ∨ front.getLast? = some '\n'.toUInt8) (rest : List UInt8) :
    readLines (front.count '\n'.toUInt8) (front ++ rest) =
        readLines (front.count '\n'.toUInt8) front ∧
      afterLines (front.count '\n'.toUInt8) (front ++ rest) = rest := by
  obtain ⟨pieces, hpieces⟩ := CutAtNewlines.exists_pieces front
  induction hpieces with
  | nil => exact ⟨rfl, rfl⟩
  | last nonempty inner =>
      have hlast := h.resolve_left nonempty
      exact absurd (List.mem_of_getLast? hlast) inner
  | @cons before later others inner cut ih =>
      have hlater : later = [] ∨ later.getLast? = some '\n'.toUInt8 := by
        cases later with
        | nil => exact .inl rfl
        | cons b bs => exact .inr (by simpa using h)
      have hcount : (before ++ '\n'.toUInt8 :: later).count '\n'.toUInt8 =
          later.count '\n'.toUInt8 + 1 := by
        rw [List.count_append, List.count_eq_zero_of_not_mem inner, List.count_cons_self,
          Nat.zero_add]
      obtain ⟨hlines, hleft⟩ := ih hlater
      rw [hcount, List.append_assoc, List.cons_append]
      simp only [readLines, afterLines, readLine_eq, splitLine_of_newline inner, hlines,
        hleft, and_self]

/-- There is one way to cut an input behind each newline. The reads of an input give one piece after
another, each without the longest run of newlines and carriage returns at its end and with nothing
else changed, and an empty line when there are no more pieces. What they take of the input is the
pieces that they give, so that further reads go on behind them. Where an input goes on behind a
newline, the reads up to that newline do not depend on it.

A line ending of any length is dropped, and nothing but the line ending: where the line ends can be
told from the position of its last other byte. -/
theorem readLines_cuts_at_newlines (input : List UInt8) :
    (∃ pieces, CutAtNewlines input pieces ∧
      (∀ others, CutAtNewlines input others → others = pieces) ∧
      ∀ count, (readLines count input).length = count ∧
        (∀ i < count, ∃ line, (readLines count input)[i]? = some line ∧
          IsTrimmed (pieces.getD i []) line) ∧
        input = (pieces.take count).flatten ++ afterLines count input ∧
        ∀ more, readLines (count + more) input =
          readLines count input ++ readLines more (afterLines count input)) ∧
    (∀ rest, input = [] ∨ input.getLast? = some '\n'.toUInt8 →
      readLines (input.count '\n'.toUInt8) (input ++ rest) =
          readLines (input.count '\n'.toUInt8) input ∧
        afterLines (input.count '\n'.toUInt8) (input ++ rest) = rest) ∧
    (∀ x s : List UInt8,
      (∀ b, x.getLast? = some b → b ≠ '\n'.toUInt8 ∧ b ≠ '\r'.toUInt8) →
        (∀ b ∈ s, b = '\n'.toUInt8 ∨ b = '\r'.toUInt8) → trimLineEnding (x ++ s) = x) ∧
    ∀ line, trimLineEnding line = line.take ((lastContent? line).elim 0 (· + 1)) := by
  refine ⟨?_, fun rest h => readLines_append h rest, fun x s hx hs => ?_, trimLineEnding_eq_take⟩
  · obtain ⟨pieces, hpieces⟩ := CutAtNewlines.exists_pieces input
    refine ⟨pieces, hpieces, fun others hothers => hpieces.unique hothers, fun count =>
      ⟨length_readLines count input, fun i hi => ?_, ?_, fun more =>
        readLines_add count more input⟩⟩
    · exact ⟨_, hpieces.readLines_getElem? hi, isTrimmed_trimLineEnding _⟩
    · rw [← (hpieces.drop count).flatten, ← List.flatten_append, List.take_append_drop,
        hpieces.flatten]
  · exact trimLineEnding_append (fun b hb => isLineEnding_eq_false_iff.mpr (hx b hb))
      fun b hb => isLineEnding_iff.mpr (hs b hb)

/-- A line ending of three bytes, a carriage return inside a line, a piece that is nothing but its
ending, and a last piece without a newline. The fifth read finds no more pieces. Whatever comes
behind the second newline, the first two lines are the same. -/
theorem readLines_cuts_at_newlines_mixed :
    let front : List UInt8 := [97, 13, 13, 10, 98, 13, 99, 10]
    let rest : List UInt8 := [13, 10, 233, 13]
    let pieces : List (List UInt8) := [[97, 13, 13, 10], [98, 13, 99, 10], [13, 10], [233, 13]]
    CutAtNewlines (front ++ rest) pieces ∧
      readLines 5 (front ++ rest) = [[97], [98, 13, 99], [], [233], []] ∧
      (∃ line, (readLines 5 (front ++ rest))[1]? = some line ∧
        IsTrimmed [98, 13, 99, 10] line) ∧
      front ++ rest = [97, 13, 13, 10, 98, 13, 99, 10, 13, 10] ++ afterLines 3 (front ++ rest) ∧
      readLines 2 (front ++ rest) = readLines 2 front ∧
      trimLineEnding ([98, 13, 99] ++ [10, 13, 10]) = [98, 13, 99] ∧
      trimLineEnding [98, 13, 99, 10, 13, 10] = [98, 13, 99, 10, 13, 10].take (2 + 1) := by
  intro front rest pieces
  have hlast : CutAtNewlines [233, 13] [[233, 13]] := .last (by decide) (by decide)
  have hthird : CutAtNewlines ([13] ++ 10 :: [233, 13]) [[13, 10], [233, 13]] :=
    .cons (by decide) hlast
  have hsecond : CutAtNewlines ([98, 13, 99] ++ 10 :: rest) ([98, 13, 99, 10] :: _) :=
    .cons (by decide) hthird
  have hpieces : CutAtNewlines ([97, 13, 13] ++ 10 :: ([98, 13, 99] ++ 10 :: rest)) pieces :=
    .cons (by decide) hsecond
  obtain ⟨⟨others, hothers, hunique, hreads⟩, -, htrim, htake⟩ :=
    readLines_cuts_at_newlines (front ++ rest)
  obtain rfl : pieces = others := hunique pieces hpieces
  obtain ⟨-, hlines, -⟩ := hreads 5
  obtain ⟨-, -, htaken, -⟩ := hreads 3
  obtain ⟨-, hfront, -⟩ := readLines_cuts_at_newlines front
  have hlastByte : ∀ b : UInt8, [98, 13, 99].getLast? = some b →
      b ≠ '\n'.toUInt8 ∧ b ≠ '\r'.toUInt8 := by
    rintro b ⟨⟩
    decide
  have hending : ([10, 13, 10] : List UInt8).all isLineEnding = true := by decide
  exact ⟨hpieces, by decide, hlines 1 (by decide), htaken,
    (hfront rest (.inr (by decide))).1, htrim _ _ hlastByte fun b hb =>
      isLineEnding_iff.mp (List.all_eq_true.mp hending b hb), htake _⟩

end ByteRegex
