import ByteRegex.Proofs.Matcher.FirstWay
import ByteRegex.Proofs.Pattern.Ends

/-!
# A match is one of the ways

An attempt that gives up paths for depth may miss the first way, and then it goes on
with ways that come later in the list. It never goes on with anything else: a path that
is given up leaves no capture and no start behind that could make a match out of what is
none.
-/

namespace ByteRegex

/-- All ways of a pattern with an end anchor end with the text. -/
theorem Pattern.Readable.stop_eq_size {p : Pattern} (hread : p.Readable)
    (htied : p.matchEnd = true) {text : Array UInt8} {pos : Nat} {c : Captures} {w : Way}
    (hw : w ∈ itemsWays text p.items pos c) : w.stop = text.size := by
  obtain ⟨items, hitems, heq | heq⟩ := hread.items
  · rw [matchEnd, heq, getLast?_any_isEndAnchor hitems] at htied
    cases htied
  · rw [heq] at hw
    exact (exists_mem_itemsWays_endAnchor_iff.mp ⟨w, hw, rfl⟩).2

/-- Every text that is a pattern compiles to a graph on which a match is always one of the
ways in which the tree matches from there with nothing captured before, captures included.
This holds under any limit, whether or not paths were given up. If the pattern has an end
anchor, the match ends with the text. What an attempt leaves will do for the next one, so
this holds of each of several attempts in a row.

`Matcher.matchAt` is the attempt with the limit `maxDepth`. -/
theorem match_is_some_way (text : String) (p : Pattern) (h : Pattern.ofString text = .ok p) :
    ∃ program, p.toProgram = .ok program ∧
      ∀ (m : Matcher) (limit pos : Nat) (s : State), m.program = program →
        pos ≤ m.text.size → s.HasSlots p.groups →
          (m.attempt limit pos s).state.HasSlots p.groups ∧
          ∀ stop t, m.attempt limit pos s = .matched stop t →
            ⟨stop, t.captures⟩ ∈ itemsWays m.text p.items pos (.unset p.groups) ∧
              (p.matchEnd = true → stop = m.text.size) := by
  obtain ⟨program, hprogram⟩ := Pattern.exists_toProgram_of_ofBytes h
  refine ⟨program, hprogram, ?_⟩
  intro m limit pos s hm hpos hs
  refine ⟨hs.attempt m limit pos, ?_⟩
  intro stop t hmatched
  have hread := Pattern.readable_of_ofBytes h
  have hanswers := Pattern.attempt_answers hread (hm ▸ hprogram) limit hpos hs
  rw [hmatched] at hanswers
  obtain ⟨hway, _⟩ := hanswers
  exact ⟨hway, fun htied => hread.stop_eq_size htied hway⟩

/-- With room for six nodes, the two ways in which the last iteration takes one byte are
given up. The match that is found is the last of the three ways, in which the group takes
two bytes at once. -/
theorem match_is_some_way_after_cut :
    ∃ p program t, Pattern.ofString "(a|aa)*\\1$" = .ok p ∧ p.toProgram = .ok program ∧
      Matcher.attempt ⟨program, #[97, 97, 97, 97], .error⟩ 6 0 (.fresh 1) = .matched 4 t ∧
      t.deep = true ∧ ⟨4, t.captures⟩ ∈ itemsWays #[97, 97, 97, 97] p.items 0 (.unset 1) ∧
      itemsWays #[97, 97, 97, 97] p.items 0 (.unset 1) =
        [⟨4, ⟨#[some ⟨2, 3⟩]⟩⟩, ⟨4, ⟨#[some ⟨2, 3⟩]⟩⟩, ⟨4, ⟨#[some ⟨0, 2⟩]⟩⟩] := by
  let p : Pattern := ⟨false, [.quantified .star
    (.group 1 [[.byte 97], [.byte 97, .byte 97]]), .backreference 1, .endAnchor], 1⟩
  have hread : Pattern.ofString "(a|aa)*\\1$" = .ok p := (Pattern.ofString_eq _).trans rfl
  obtain ⟨program, hprogram, hmatch⟩ := match_is_some_way _ p hread
  have hgraph := hprogram
  cases hgraph
  have hway := (hmatch ⟨_, #[97, 97, 97, 97], .error⟩ 6 0 (.fresh 1) rfl (Nat.zero_le _)
    (State.hasSlots_fresh 1)).2 4 ⟨⟨#[some ⟨0, 2⟩]⟩, #[0], true, []⟩ (by decide +kernel)
  exact ⟨p, _, ⟨⟨#[some ⟨0, 2⟩]⟩, #[0], true, []⟩, hread, hprogram, by decide +kernel, rfl, hway.1, by decide +kernel⟩

end ByteRegex
