import ByteRegex.Regex
import ByteRegex.Proofs.Matcher.FirstWay

/-!
# The attempts of a search

A search tries one offset after another and stops at the first that matches.
`Regex.attempts` lists what these attempts end with, so that one can say of a
search that none of its attempts gave up a path for depth.

What an attempt answers is known, and each attempt begins with nothing captured
whatever the one before it left. So a search finds the end of a way, and if it
finds nothing there is no way from any of its offsets.
-/

namespace ByteRegex

/-- The outcomes of the attempts that `searchFrom` makes. -/
def Matcher.attemptsFrom (m : Matcher) : (others offset : Nat) → State → List Outcome
  | others, offset, s =>
    match m.matchAt offset s with
    | .failed t =>
      .failed t :: match others with
        | 0 => []
        | others + 1 => m.attemptsFrom others (offset + 1) t
    | o => [o]

/-- The outcomes of the attempts that the search through a line makes. -/
def Regex.attempts (r : Regex) (line : Array UInt8) : List Outcome :=
  let m := r.matcher line
  match m.fresh? with
  | .error _ => []
  | .ok s => m.attemptsFrom (if r.matchStart then 0 else line.size) 0 s

/-- What a search through the offsets `low` to `high` found agrees with the ways
from each of them. That there are none is known only if no path was given up. -/
def Search.Agrees (found : Except Fault (Option Span)) (low high : Nat)
    (ways : Nat → List Way) (exact : Prop) : Prop :=
  match found with
  | .ok (some span) => low ≤ span.start ∧ span.start ≤ high ∧
      ∃ w ∈ ways span.start, w.stop = span.stop
  | .ok none => exact → ∀ pos, low ≤ pos → pos ≤ high → ways pos = []
  | .error _ => False

/-- An attempt ends where a way ends, or fails and leaves tables for the next. -/
theorem Pattern.Readable.matchAt_cases {p : Pattern} (hread : p.Readable) {m : Matcher}
    (hprogram : p.toProgram = .ok m.program) {pos : Nat} (hpos : pos ≤ m.text.size)
    {s : State} (hs : s.HasSlots p.groups) :
    (∃ stop t, m.matchAt pos s = .matched stop t ∧
      ∃ w ∈ itemsWays m.text p.items pos (.unset p.groups), w.stop = stop) ∨
    ∃ t, m.matchAt pos s = .failed t ∧ t.HasSlots p.groups ∧
      (t.deep = false → itemsWays m.text p.items pos (.unset p.groups) = []) := by
  have hanswers := Pattern.attempt_answers hread hprogram maxDepth hpos hs
  have htables := hs.attempt m maxDepth pos
  change (m.matchAt pos s).Answers _ _ at hanswers
  change (m.matchAt pos s).state.HasSlots _ at htables
  cases hattempt : m.matchAt pos s with
  | faulted fault t =>
      rw [hattempt] at hanswers
      exact hanswers.elim
  | matched stop t =>
      rw [hattempt] at hanswers
      exact .inl ⟨stop, t, rfl, _, hanswers.1, rfl⟩
  | failed t =>
      rw [hattempt] at hanswers htables
      exact .inr ⟨t, rfl, htables, hanswers.2.1⟩

theorem Matcher.searchFrom_agrees {p : Pattern} (hread : p.Readable) {m : Matcher}
    (hprogram : p.toProgram = .ok m.program) (others : Nat) {offset : Nat}
    (hsize : offset + others ≤ m.text.size) {s : State} (hs : s.HasSlots p.groups) :
    Search.Agrees (m.searchFrom others offset s).found offset (offset + others)
      (fun pos => itemsWays m.text p.items pos (.unset p.groups))
      (∀ o ∈ m.attemptsFrom others offset s, o.state.deep = false) := by
  induction others generalizing offset s with
  | zero =>
      unfold searchFrom attemptsFrom
      rcases hread.matchAt_cases hprogram (Nat.le_of_add_right_le hsize) hs with
        ⟨stop, t, hmatched, hway⟩ | ⟨t, hfailed, ht, hnone⟩
      · rw [hmatched]
        exact ⟨Nat.le_refl _, Nat.le_refl _, hway⟩
      · rw [hfailed]
        intro hdeep pos hlow hhigh
        obtain rfl : pos = offset := Nat.le_antisymm hhigh hlow
        exact hnone (hdeep _ (List.mem_singleton.mpr rfl))
  | succ others ih =>
      unfold searchFrom attemptsFrom
      rcases hread.matchAt_cases hprogram (Nat.le_of_add_right_le hsize) hs with
        ⟨stop, t, hmatched, hway⟩ | ⟨t, hfailed, ht, hnone⟩
      · rw [hmatched]
        exact ⟨Nat.le_refl _, Nat.le_add_right _ _, hway⟩
      · rw [hfailed]
        have hrest := ih (by omega : offset + 1 + others ≤ m.text.size) ht
        dsimp only
        cases hfound : (m.searchFrom others (offset + 1) t).found with
        | error fault =>
            rw [hfound] at hrest
            exact hrest.elim
        | ok found =>
            rw [hfound] at hrest
            cases found with
            | some span =>
                obtain ⟨hlow, hhigh, hway⟩ := hrest
                exact ⟨by omega, by omega, hway⟩
            | none =>
                intro hdeep pos hlow hhigh
                rcases Nat.eq_or_lt_of_le hlow with rfl | hlow
                · exact hnone (hdeep _ (List.mem_cons_self ..))
                · refine hrest (fun o ho => hdeep o (List.mem_cons_of_mem _ ho)) pos hlow ?_
                  omega

namespace Regex

variable {r : Regex} {line : Array UInt8}

theorem fresh_hasSlots {p : Pattern} (hprogram : p.toProgram = .ok r.program)
    (line : Array UInt8) : (r.matcher line).fresh.HasSlots p.groups := by
  rw [← (Pattern.toProgram_eq_ok_iff.mp hprogram).2.2.2]
  exact State.hasSlots_fresh _

/-- A search gets to make attempts unless the table of captures would be too long to exist. -/
theorem fresh?_eq_ok (hslots : r.groupCount ≤ Captures.maxSize) :
    (r.matcher line).fresh? = .ok (r.matcher line).fresh :=
  if_pos hslots

theorem fresh?_eq_error (hslots : ¬ r.groupCount ≤ Captures.maxSize) :
    (r.matcher line).fresh? = .error (.tooManySlots r.groupCount) :=
  if_neg hslots

theorem search_eq (hslots : r.groupCount ≤ Captures.maxSize) :
    r.search line = (r.matcher line).searchFrom (if r.matchStart then 0 else line.size) 0
      (r.matcher line).fresh := by
  unfold search
  simp only [fresh?_eq_ok hslots]

theorem attempts_eq (hslots : r.groupCount ≤ Captures.maxSize) :
    r.attempts line = (r.matcher line).attemptsFrom (if r.matchStart then 0 else line.size) 0
      (r.matcher line).fresh := by
  unfold attempts
  simp only [fresh?_eq_ok hslots]

/-- A search through a line agrees with the ways from each offset that it tries. -/
theorem search_agrees (r : Regex) {p : Pattern} (hread : p.Readable)
    (hprogram : p.toProgram = .ok r.program) (hstart : r.matchStart = p.matchStart)
    (line : Array UInt8) (hslots : r.groupCount ≤ Captures.maxSize) :
    Search.Agrees (r.search line).found 0 (if p.matchStart then 0 else line.size)
      (fun pos => itemsWays line p.items pos (.unset p.groups))
      (∀ o ∈ r.attempts line, o.state.deep = false) := by
  have hsize : 0 + (if p.matchStart then 0 else line.size) ≤ (r.matcher line).text.size := by
    change 0 + (if p.matchStart then 0 else line.size) ≤ line.size
    split <;> omega
  have hagrees := Matcher.searchFrom_agrees (m := r.matcher line) hread hprogram _ hsize
    (fresh_hasSlots hprogram line)
  rw [Nat.zero_add] at hagrees
  rw [search_eq hslots, attempts_eq hslots, hstart]
  exact hagrees

/-- A search finds something only if it gets to make attempts. -/
theorem groupCount_le_of_found {found : Option Span} (h : (r.search line).found = .ok found) :
    r.groupCount ≤ Captures.maxSize := by
  by_cases hslots : r.groupCount ≤ Captures.maxSize
  · exact hslots
  · unfold search at h
    simp only [fresh?_eq_error hslots] at h
    cases h

/-- The one thing that keeps a search from an answer is that a table of captures
with a slot for each group would be too long to exist. -/
theorem exists_matchLine_iff {p : Pattern} (hread : p.Readable)
    (hprogram : p.toProgram = .ok r.program) (hstart : r.matchStart = p.matchStart) :
    (∃ matched, r.matchLine line = .ok matched) ↔ r.groupCount ≤ Captures.maxSize := by
  unfold matchLine
  constructor
  · rintro ⟨matched, hmatched⟩
    cases hfound : (r.search line).found with
    | error fault =>
        rw [hfound] at hmatched
        cases hmatched
    | ok found => exact groupCount_le_of_found hfound
  · intro hslots
    have hagrees := r.search_agrees hread hprogram hstart line hslots
    cases hfound : (r.search line).found with
    | error fault =>
        rw [hfound] at hagrees
        exact hagrees.elim
    | ok found => exact ⟨found.isSome, rfl⟩

theorem matchLine_eq_true :
    r.matchLine line = .ok true ↔ ∃ span, (r.search line).found = .ok (some span) := by
  unfold matchLine
  cases (r.search line).found with
  | error fault => simp
  | ok found => cases found <;> simp

theorem groupCount_le_of_matchLine (h : r.matchLine line = .ok true) :
    r.groupCount ≤ Captures.maxSize := by
  obtain ⟨_, hfound⟩ := matchLine_eq_true.mp h
  exact groupCount_le_of_found hfound

/-- A line that matches has a way from one of the offsets that are tried, also if paths were given
up. -/
theorem exists_ways_of_matchLine {p : Pattern} (hread : p.Readable)
    (hprogram : p.toProgram = .ok r.program) (hstart : r.matchStart = p.matchStart)
    (h : r.matchLine line = .ok true) :
    ∃ pos ≤ if p.matchStart then 0 else line.size,
      itemsWays line p.items pos (.unset p.groups) ≠ [] := by
  obtain ⟨span, hspan⟩ := matchLine_eq_true.mp h
  have hsearch := r.search_agrees hread hprogram hstart line (groupCount_le_of_matchLine h)
  rw [hspan] at hsearch
  obtain ⟨_, hhigh, w, hw, _⟩ := hsearch
  exact ⟨span.start, hhigh, List.ne_nil_of_mem hw⟩

/-- Unless an attempt gave up a path, a line matches if there is a way from one of the offsets that
are tried, and otherwise it does not. -/
theorem matchLine_iff_ways {p : Pattern} (hread : p.Readable)
    (hprogram : p.toProgram = .ok r.program) (hstart : r.matchStart = p.matchStart)
    (hslots : r.groupCount ≤ Captures.maxSize)
    (hdeep : ∀ o ∈ r.attempts line, o.state.deep = false) :
    r.matchLine line = .ok true ↔
      ∃ pos ≤ if p.matchStart then 0 else line.size,
        itemsWays line p.items pos (.unset p.groups) ≠ [] := by
  refine ⟨exists_ways_of_matchLine hread hprogram hstart, ?_⟩
  rintro ⟨pos, hpos, hways⟩
  have hsearch := r.search_agrees hread hprogram hstart line hslots
  rw [matchLine_eq_true]
  cases hfound : (r.search line).found with
  | error fault =>
      rw [hfound] at hsearch
      exact hsearch.elim
  | ok found =>
      rw [hfound] at hsearch
      cases found with
      | some span => exact ⟨span, rfl⟩
      | none => exact absurd (hsearch hdeep pos (Nat.zero_le pos) hpos) hways

theorem groupCount_le_of_attempts (h : r.attempts line ≠ []) :
    r.groupCount ≤ Captures.maxSize := by
  refine Decidable.of_not_not fun hslots => h ?_
  unfold attempts
  simp only [fresh?_eq_error hslots]

/-- Tied to the start of the line, a pattern gets a single attempt. -/
theorem attempts_of_matchStart (hstart : r.matchStart = true)
    (hslots : r.groupCount ≤ Captures.maxSize) :
    r.attempts line = [(r.matcher line).matchAt 0 (r.matcher line).fresh] := by
  rw [attempts_eq hslots, hstart, if_pos rfl, Matcher.attemptsFrom]
  cases (r.matcher line).matchAt 0 (r.matcher line).fresh <;> rfl

/-- Where that attempt matches, the line does, and nowhere else. -/
theorem matchLine_eq_true_of_matchStart (hstart : r.matchStart = true)
    (hslots : r.groupCount ≤ Captures.maxSize) :
    r.matchLine line = .ok true ↔
      ∃ stop t, (r.matcher line).matchAt 0 (r.matcher line).fresh = .matched stop t := by
  rw [matchLine_eq_true, search_eq hslots, hstart, if_pos rfl, Matcher.searchFrom]
  cases (r.matcher line).matchAt 0 (r.matcher line).fresh <;> simp

end Regex

end ByteRegex
