import ByteRegex.Proofs.Matcher.Restoration
import ByteRegex.Proofs.Matcher.Walk
import ByteRegex.Proofs.Pattern.Readable

/-!
# A match is the first way

An attempt over the graph of a pattern answers the ways of the pattern's tree
from that position, with nothing captured before: `Pattern.attempt_answers`. So
long as no path is given up for depth, the attempt ends where the first way
ends, with its captures, and fails only if there is no way at all.
-/

namespace ByteRegex

/-- Both tables have one entry for each of `n` slots. -/
structure State.HasSlots (s : State) (n : Nat) : Prop where
  captures : s.captures.slots.size = n
  starts : s.starts.size = n

theorem State.hasSlots_fresh (n : Nat) : (State.fresh n).HasSlots n :=
  ⟨by simp [State.fresh, Captures.unset], by simp [State.fresh]⟩

/-- The tables that an attempt leaves will do for the next. -/
theorem State.HasSlots.attempt {s : State} {n : Nat} (h : s.HasSlots n) (m : Matcher)
    (limit pos : Nat) : (m.attempt limit pos s).state.HasSlots n := by
  obtain ⟨hcaptures, hstarts⟩ := attempt_sameSizes m limit pos s
  exact ⟨hcaptures.trans h.captures, hstarts.trans h.starts⟩

/-- At the start of an attempt nothing is captured. -/
theorem State.reset_captures {s : State} {n : Nat} (h : s.HasSlots n) :
    s.reset.captures = .unset n := by
  have hslots : s.captures.slots.map (fun _ => (none : Option Span)) =
      Array.replicate n none := by
    apply Array.ext
    · simp [h.captures]
    · simp
  exact congrArg Captures.mk hslots

@[simp] theorem Captures.get?_unset (n slot : Nat) : (Captures.unset n).get? slot = none := by
  unfold get? unset
  by_cases h : slot < n <;> simp [h]

theorem State.reset_fits {s : State} {m : Matcher} (h : s.HasSlots m.program.slots) :
    s.reset.Fits m := by
  have hcaptures := State.reset_captures h
  refine ⟨?_, ?_, ?_⟩
  · rw [hcaptures]
    simp [Captures.unset]
  · simp [State.reset, h.starts]
  · intro slot span hspan
    rw [hcaptures, Captures.get?_unset] at hspan
    cases hspan

/-- The groups of a readable pattern have slots of their own. -/
theorem Pattern.Readable.covers {p : Pattern} (hread : p.Readable) {m : Matcher}
    (hslots : m.program.slots = p.groups) (low : Nat) (starts : Array Nat) :
    (Frame.mk low starts (List.range p.groups)).Covers m (itemsNumbers p.items) := by
  have hrange : slotsOf (itemsNumbers p.items) = List.range p.groups := by
    rw [hread.numbers, slotsOf_range']
  refine ⟨?_, ?_, ?_⟩
  · rw [hrange]
    exact List.nodup_range
  · intro slot hslot
    rwa [hrange] at hslot
  · intro slot hslot
    rw [hrange, List.mem_range] at hslot
    rwa [hslots]

/-- The frame at the start of an attempt, in which every start may move. -/
theorem State.reset_admits {m : Matcher} {s : State} {pos groups : Nat}
    (hs : s.HasSlots groups) (hslots : m.program.slots = groups) (hpos : pos ≤ m.text.size) :
    (Frame.mk pos s.reset.starts (List.range groups)).Admits m pos s.reset :=
  ⟨Nat.le_refl pos, hpos, State.reset_fits (hslots ▸ hs), fun _ _ => rfl⟩

/-- An attempt over the graph of a readable pattern answers the ways of its
tree, whatever its limit is. -/
theorem Pattern.attempt_answers {p : Pattern} (hread : p.Readable) {m : Matcher}
    (hprogram : p.toProgram = .ok m.program) (limit : Nat) {pos : Nat}
    (hpos : pos ≤ m.text.size) {s : State} (hs : s.HasSlots p.groups) :
    (m.attempt limit pos s).Answers s.reset
      (itemsWays m.text p.items pos (.unset p.groups)) := by
  obtain ⟨hfault, _, hroot, hslots⟩ := Pattern.toProgram_eq_ok_iff.mp hprogram
  obtain ⟨hitems, hanchors⟩ := Pattern.shapeFault?_eq_none.mp hfault
  have hserves := itemsNodes_serve p.items 0 none (Pattern.toProgram_places hprogram) hitems
    hanchors (hread.covers hslots pos s.reset.starts)
    (Matcher.Serves.endOfChain m limit _)
  have hanswers := hserves limit (Nat.le_refl limit) pos s.reset
    (State.reset_admits hs hslots hpos)
  rw [State.reset_captures hs, ← hroot] at hanswers
  simpa [thenWays, Matcher.attempt] using hanswers

/-- The outcome is the first of the ways, with its captures. If there is no way
it is a failure that leaves the captures `before`. -/
def Outcome.Finds (o : Outcome) (before : Captures) : List Way → Prop
  | [] => ∃ t, o = .failed t ∧ t.captures = before
  | w :: _ => ∃ t, o = .matched w.stop t ∧ t.captures = w.captures

/-- An answer without a path given up is the first of the ways. -/
theorem Outcome.Answers.finds {o : Outcome} {s : State} {ways : List Way}
    (h : o.Answers s ways) (hdeep : o.state.deep = false) : o.Finds s.captures ways := by
  cases o with
  | faulted fault t => exact h.elim
  | matched stop t =>
      obtain ⟨hmem, hfirst, _⟩ := h
      cases ways with
      | nil => cases hmem
      | cons w rest =>
          obtain rfl : w = ⟨stop, t.captures⟩ := by simpa using hfirst hdeep
          exact ⟨t, rfl, rfl⟩
  | failed t =>
      obtain ⟨hsame, hnone, _⟩ := h
      rw [hnone hdeep]
      exact ⟨t, rfl, hsame.1⟩

/-- Every text that is a pattern compiles to a graph on which an attempt finds
the first of the ways in which the tree matches, captures included, and fails
only if there is none. The only exception is an attempt that gives up a path for
depth, and says so. -/
theorem matchAt_finds_first_way (text : String) (p : Pattern)
    (h : Pattern.ofString text = .ok p) :
    ∃ program, p.toProgram = .ok program ∧
      ∀ (m : Matcher) (pos : Nat) (s : State), m.program = program → pos ≤ m.text.size →
        s.HasSlots p.groups → (m.matchAt pos s).state.deep = false →
          (m.matchAt pos s).Finds (.unset p.groups)
            (itemsWays m.text p.items pos (.unset p.groups)) := by
  obtain ⟨program, hprogram⟩ := Pattern.exists_toProgram_of_ofBytes h
  refine ⟨program, hprogram, ?_⟩
  intro m pos s hm hpos hs hdeep
  have hread := Pattern.readable_of_ofBytes h
  have hanswers := Pattern.attempt_answers hread (hm ▸ hprogram) maxDepth hpos hs
  have hfinds := hanswers.finds hdeep
  rwa [State.reset_captures hs] at hfinds

/-- The first run of the group goes to the end of the text, where the reference
finds no second copy; one iteration less leaves it one. -/
theorem matchAt_finds_first_way_backtracking :
    ∃ p program, Pattern.ofString "(a|b)*\\1$" = .ok p ∧ p.toProgram = .ok program ∧
      (Matcher.matchAt ⟨program, #[97, 98, 98], .error⟩ 0 (.fresh 1)).state.deep = false ∧
      (Matcher.matchAt ⟨program, #[97, 98, 98], .error⟩ 0 (.fresh 1)).Finds (.unset 1)
        (itemsWays #[97, 98, 98] p.items 0 (.unset 1)) := by
  let p : Pattern := ⟨false, [.quantified .star (.group 1 [[.byte 97], [.byte 98]]),
    .backreference 1, .endAnchor], 1⟩
  have hread : Pattern.ofString "(a|b)*\\1$" = .ok p := (Pattern.ofString_eq _).trans rfl
  obtain ⟨program, hprogram, hfinds⟩ := matchAt_finds_first_way _ p hread
  have hgraph := hprogram
  cases hgraph
  refine ⟨p, _, hread, hprogram, ?_, hfinds _ 0 _ rfl (Nat.zero_le _) (State.hasSlots_fresh 1) ?_⟩
  · decide +kernel
  · decide +kernel

end ByteRegex
