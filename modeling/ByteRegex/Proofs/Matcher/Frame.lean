import ByteRegex.Proofs.Matcher.Answers

/-!
# What a walk may rely on

While the alternatives of a group are walked, the matcher will come back to the
group's tail, and the tail reads where the iteration began. Groups inside the
alternatives move only their own starts. A `Frame` says what is certain at a
node: the position is no earlier than `low`, and the starts are those of the
frame except for the `busy` slots, which groups on the way may have moved.

`Matcher.Serves m room id f ways` says that from `id` on, with at most `room`
nodes under way, `m` answers `ways` in every state that the frame admits. It is
the form in which what follows a part of the pattern is handed to that part.
-/

namespace ByteRegex

/-- Tables of the right sizes, with captures that lie within the text. -/
structure State.Fits (s : State) (m : Matcher) : Prop where
  captures_size : s.captures.slots.size = m.program.slots
  starts_size : s.starts.size = m.program.slots
  captured : ∀ slot span, s.captures.get? slot = some span →
    span.start ≤ span.stop ∧ span.stop ≤ m.text.size

/-- What is certain when a node is reached. -/
structure Frame where
  low : Nat
  starts : Array Nat
  busy : List Nat

/-- The position and the state are as the frame says. -/
structure Frame.Admits (f : Frame) (m : Matcher) (pos : Nat) (s : State) : Prop where
  low_le : f.low ≤ pos
  le_size : pos ≤ m.text.size
  fits : s.Fits m
  starts_eq : ∀ slot, slot ∉ f.busy → s.starts[slot]? = f.starts[slot]?

/-- From `id` on the matcher answers `ways`, in every state that the frame
admits. -/
def Matcher.Serves (m : Matcher) (room : Nat) (id : Option NodeId) (f : Frame)
    (ways : Nat → Captures → List Way) : Prop :=
  ∀ r ≤ room, ∀ pos s, f.Admits m pos s →
    (m.visit r id pos s).Answers s (ways pos s.captures)

variable {m : Matcher} {f : Frame} {pos : Nat} {s t : State}

theorem State.Fits.of_sameTables (h : s.Fits m) (hst : s.SameTables t) : t.Fits m := by
  obtain ⟨hcaptures, hstarts⟩ := hst
  refine ⟨?_, ?_, ?_⟩
  · rw [hcaptures]
    exact h.captures_size
  · rw [hstarts]
    exact h.starts_size
  · rw [hcaptures]
    exact h.captured

/-- Setting a slot to a piece of the text. -/
theorem State.Fits.setCapture (h : s.Fits m) (slot : Nat) (span : Span)
    (horder : span.start ≤ span.stop) (hsize : span.stop ≤ m.text.size) :
    (s.setCapture slot (some span)).Fits m := by
  refine ⟨?_, h.starts_size, ?_⟩
  · rw [State.setCapture_captures, Captures.set, Array.size_setIfInBounds]
    exact h.captures_size
  · intro other held hheld
    rw [State.setCapture_captures, Captures.get?, Captures.set,
      Array.getElem?_setIfInBounds] at hheld
    by_cases hslot : slot = other
    · rw [if_pos hslot] at hheld
      by_cases hin : slot < s.captures.slots.size
      · rw [if_pos hin] at hheld
        obtain rfl : span = held := by simpa using hheld
        exact ⟨horder, hsize⟩
      · rw [if_neg hin] at hheld
        simp at hheld
    · rw [if_neg hslot] at hheld
      exact h.captured other held hheld

theorem State.Fits.setStart (h : s.Fits m) (slot start : Nat) :
    (s.setStart slot start).Fits m := by
  refine ⟨h.captures_size, ?_, h.captured⟩
  rw [State.setStart, Array.size_setIfInBounds]
  exact h.starts_size

namespace Frame.Admits

theorem of_sameTables (h : f.Admits m pos s) (hst : s.SameTables t) :
    f.Admits m pos t := by
  refine ⟨h.low_le, h.le_size, h.fits.of_sameTables hst, ?_⟩
  rw [hst.2]
  exact h.starts_eq

/-- A later position within the text. -/
theorem later (h : f.Admits m pos s) {stop : Nat} (hpos : pos ≤ stop)
    (hsize : stop ≤ m.text.size) : f.Admits m stop s :=
  ⟨Nat.le_trans h.low_le hpos, hsize, h.fits, h.starts_eq⟩

theorem setCapture (h : f.Admits m pos s) (slot : Nat) (span : Span)
    (horder : span.start ≤ span.stop) (hsize : span.stop ≤ m.text.size) :
    f.Admits m pos (s.setCapture slot (some span)) :=
  ⟨h.low_le, h.le_size, h.fits.setCapture slot span horder hsize, h.starts_eq⟩

end Frame.Admits

/-- The frame inside the group of a slot during an iteration from `pos` on: the
start of the group is `pos`, and only the slots of groups inside may move. -/
def State.inside (s : State) (slot pos : Nat) (busy : List Nat) : Frame where
  low := pos
  starts := (s.setStart slot pos).starts
  busy := busy

theorem State.inside_admits {slot : Nat} (hfits : s.Fits m) (hsize : pos ≤ m.text.size)
    (busy : List Nat) : (s.inside slot pos busy).Admits m pos (s.setStart slot pos) :=
  ⟨Nat.le_refl pos, hsize, hfits.setStart slot pos, fun _ _ => rfl⟩

/-- Inside the group its own start is known. -/
theorem Frame.Admits.start_of_inside {slot start : Nat} {busy : List Nat}
    (h : (s.inside slot start busy).Admits m pos t) (hfits : s.Fits m)
    (hslot : slot < m.program.slots) (hbusy : slot ∉ busy) :
    t.starts[slot]? = some start := by
  have hlt : slot < s.starts.size := by rwa [hfits.starts_size]
  rw [h.starts_eq slot hbusy]
  simp [State.inside, State.setStart, hlt]

/-- What is certain around a group is certain again behind its iterations. -/
theorem Frame.Admits.of_inside {slot start : Nat} {busy : List Nat}
    (h : (s.inside slot start busy).Admits m pos t) (hs : f.Admits m start s)
    (hslot : slot ∈ f.busy) (hbusy : ∀ x ∈ busy, x ∈ f.busy) : f.Admits m pos t := by
  refine ⟨Nat.le_trans hs.low_le h.low_le, h.le_size, h.fits, ?_⟩
  intro other hother
  have hne : slot ≠ other := fun heq => hother (heq ▸ hslot)
  rw [h.starts_eq other (fun hin => hother (hbusy other hin)), ← hs.starts_eq other hother]
  simp [State.inside, State.setStart, hne]

namespace Matcher.Serves

variable {room : Nat} {id : Option NodeId} {ways : Nat → Captures → List Way}

theorem mono (h : m.Serves room id f ways) {less : Nat} (hroom : less ≤ room) :
    m.Serves less id f ways :=
  fun r hr pos s hs => h r (Nat.le_trans hr hroom) pos s hs

/-- A node serves if its step does, with less room for what follows. Where there
is no room, the path is given up. -/
theorem of_step {node : NodeId}
    (h : ∀ r < room, ∀ pos s, f.Admits m pos s →
      (m.step (m.visit r) node pos s).Answers s (ways pos s.captures)) :
    m.Serves room (some node) f ways := by
  intro r hr pos s hs
  cases r with
  | zero => exact Outcome.abandoned_answers s m.verbosity pos _
  | succ r =>
      rw [Matcher.visit_succ]
      exact h r hr pos s hs

/-- The end of the chain serves with the one way that is left. -/
theorem endOfChain (m : Matcher) (room : Nat) (f : Frame) :
    m.Serves room none f fun pos c => [⟨pos, c⟩] := by
  intro r _ pos s _
  rw [Matcher.visit_none]
  exact Outcome.matched_answers pos s

end Matcher.Serves

end ByteRegex
