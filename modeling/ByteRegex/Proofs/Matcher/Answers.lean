import ByteRegex.Matcher.Basic
import ByteRegex.Proofs.Matcher.Ways

/-!
# What an evaluation answers

An evaluation that begins in a state `s` answers a list of ways if it ends in
one of them, or fails with the tables as it found them. As long as no path has
been given up for being too deep, the answer is exact: a match is the first way
of the list, and a failure means that there is none. After a path has been given
up a match is still one of the ways, but perhaps not the first.

Answers compose as the lists do: trying one evaluation after another appends
their lists, and going on in each of several ways is a `flatMap`. A walk through
a graph is then followed by lists alone.
-/

namespace ByteRegex

/-- Both states have the same captures and the same starts; events and the mark
of a path given up may differ. -/
def State.SameTables (s t : State) : Prop :=
  t.captures = s.captures ∧ t.starts = s.starts

/-- A path that was given up stays given up. -/
def State.KeepsDeep (s t : State) : Prop :=
  s.deep = true → t.deep = true

/-- What an evaluation from the state `s` may end with if `ways` are the ways to
match. -/
def Outcome.Answers (o : Outcome) (s : State) (ways : List Way) : Prop :=
  match o with
  | .matched stop t =>
    ⟨stop, t.captures⟩ ∈ ways ∧ (t.deep = false → ways.head? = some ⟨stop, t.captures⟩) ∧
      s.KeepsDeep t
  | .failed t => s.SameTables t ∧ (t.deep = false → ways = []) ∧ s.KeepsDeep t
  | .faulted _ _ => False

namespace State

variable {s t u : State}

theorem SameTables.refl (s : State) : s.SameTables s := ⟨rfl, rfl⟩

theorem SameTables.trans (h : s.SameTables t) (g : t.SameTables u) : s.SameTables u :=
  ⟨g.1.trans h.1, g.2.trans h.2⟩

theorem KeepsDeep.trans (h : s.KeepsDeep t) (g : t.KeepsDeep u) : s.KeepsDeep u :=
  fun hs => g (h hs)

/-- Recording an event leaves the tables alone. -/
@[simp] theorem note_captures (s : State) (limit : Level) (e : Event) :
    (s.note limit e).captures = s.captures := by
  unfold note
  split <;> rfl

@[simp] theorem note_starts (s : State) (limit : Level) (e : Event) :
    (s.note limit e).starts = s.starts := by
  unfold note
  split <;> rfl

@[simp] theorem note_deep (s : State) (limit : Level) (e : Event) :
    (s.note limit e).deep = s.deep := by
  unfold note
  split <;> rfl

theorem sameTables_note (s : State) (limit : Level) (e : Event) : s.SameTables (s.note limit e) :=
  ⟨note_captures s limit e, note_starts s limit e⟩

theorem keepsDeep_note (s : State) (limit : Level) (e : Event) : s.KeepsDeep (s.note limit e) :=
  fun hs => (note_deep s limit e).trans hs

@[simp] theorem abandon_deep (s : State) (limit : Level) (pos : Nat) :
    (s.abandon limit pos).deep = true := by
  unfold abandon
  split <;> simp_all

theorem sameTables_abandon (s : State) (limit : Level) (pos : Nat) :
    s.SameTables (s.abandon limit pos) := by
  unfold abandon
  split
  · exact SameTables.refl s
  · exact ⟨note_captures s limit _, note_starts s limit _⟩

@[simp] theorem setStart_captures (s : State) (slot pos : Nat) :
    (s.setStart slot pos).captures = s.captures := rfl

@[simp] theorem setStart_deep (s : State) (slot pos : Nat) :
    (s.setStart slot pos).deep = s.deep := rfl

@[simp] theorem setCapture_starts (s : State) (slot : Nat) (value : Option Span) :
    (s.setCapture slot value).starts = s.starts := rfl

@[simp] theorem setCapture_deep (s : State) (slot : Nat) (value : Option Span) :
    (s.setCapture slot value).deep = s.deep := rfl

@[simp] theorem setCapture_captures (s : State) (slot : Nat) (value : Option Span) :
    (s.setCapture slot value).captures = s.captures.set slot value := rfl

end State

/-- Writing over an entry and then writing its old value back changes nothing. -/
theorem setIfInBounds_undo {α : Type} {xs : Array α} {i : Nat} {old : α}
    (h : xs[i]? = some old) (x : α) :
    (xs.setIfInBounds i x).setIfInBounds i old = xs := by
  obtain ⟨hi, rfl⟩ := Array.getElem?_eq_some_iff.mp h
  rw [Array.setIfInBounds_setIfInBounds, Array.setIfInBounds_def, dif_pos hi]
  exact Array.set_getElem_self hi

/-- Setting a slot and then giving it its old value again changes nothing. -/
theorem Captures.set_set_self {c : Captures} {slot : Nat} {previous : Option Span}
    (h : c.slots[slot]? = some previous) (value : Option Span) :
    (c.set slot value).set slot previous = c :=
  congrArg Captures.mk (setIfInBounds_undo h value)

/-- The same for the start of a group. -/
theorem State.setStart_setStart_self {s t : State} {slot saved : Nat}
    (h : s.starts[slot]? = some saved) (pos : Nat)
    (ht : t.starts = (s.setStart slot pos).starts) :
    (t.setStart slot saved).starts = s.starts := by
  rw [setStart, ht]
  exact setIfInBounds_undo h pos

namespace Outcome

variable {o : Outcome} {s t : State} {ways more : List Way}

/-- A match at the end of a chain answers the one way that is left. -/
theorem matched_answers (stop : Nat) (s : State) :
    (matched stop s).Answers s [⟨stop, s.captures⟩] :=
  ⟨List.mem_singleton.mpr rfl, fun _ => rfl, id⟩

theorem failed_answers (s : State) : (failed s).Answers s [] :=
  ⟨State.SameTables.refl s, fun _ => rfl, id⟩

/-- A path that is given up answers any list. -/
theorem abandoned_answers (s : State) (limit : Level) (pos : Nat) (ways : List Way) :
    (failed (s.abandon limit pos)).Answers s ways :=
  ⟨s.sameTables_abandon limit pos, by simp, fun _ => s.abandon_deep limit pos⟩

namespace Answers

/-- An answer depends on the state before it only through the tables and the
mark. -/
theorem of_sameTables (h : o.Answers t ways) (htables : s.SameTables t)
    (hdeep : s.KeepsDeep t) : o.Answers s ways := by
  cases o with
  | matched stop u => exact ⟨h.1, h.2.1, hdeep.trans h.2.2⟩
  | failed u => exact ⟨htables.trans h.1, h.2.1, hdeep.trans h.2.2⟩
  | faulted fault u => exact h

/-- Recording an event first changes no answer. -/
theorem of_note {limit : Level} {e : Event} (h : o.Answers (s.note limit e) ways) :
    o.Answers s ways :=
  h.of_sameTables (s.sameTables_note limit e) (s.keepsDeep_note limit e)

/-- Trying another evaluation after a failure appends the ways. -/
theorem orElse {next : State → Outcome} (h : o.Answers s ways)
    (hnext : ∀ t, s.SameTables t → s.KeepsDeep t → (next t).Answers t more) :
    (o.orElse next).Answers s (ways ++ more) := by
  cases o with
  | matched stop u =>
      obtain ⟨hmem, hfirst, hdeep⟩ := h
      refine ⟨List.mem_append_left more hmem, fun hu => ?_, hdeep⟩
      rw [List.head?_append, hfirst hu]
      rfl
  | faulted fault u => exact h
  | failed u =>
      obtain ⟨htables, hnone, hdeep⟩ := h
      have hmore := hnext u htables hdeep
      rw [orElse_failed]
      cases hn : next u with
      | faulted fault v => rw [hn] at hmore; exact hmore
      | matched stop v =>
          rw [hn] at hmore
          obtain ⟨hmem, hfirst, hkeep⟩ := hmore
          refine ⟨List.mem_append_right ways hmem, fun hv => ?_, hdeep.trans hkeep⟩
          -- had the first evaluation given up a path, the second would say so
          have hu : u.deep = false := by
            cases hud : u.deep with
            | false => rfl
            | true => rw [hkeep hud] at hv; exact hv
          rw [hnone hu, List.nil_append, hfirst hv]
      | failed v =>
          rw [hn] at hmore
          obtain ⟨hsame, hempty, hkeep⟩ := hmore
          refine ⟨htables.trans hsame, fun hv => ?_, hdeep.trans hkeep⟩
          have hu : u.deep = false := by
            cases hud : u.deep with
            | false => rfl
            | true => rw [hkeep hud] at hv; exact hv
          rw [hnone hu, hempty hv, List.append_nil]

/-- An evaluation that begins after a change of the tables and undoes it when
it fails. -/
theorem onFailure {undo : State → State} (h : o.Answers t ways) (hdeep : s.KeepsDeep t)
    (hundo : ∀ u, t.SameTables u → s.SameTables (undo u) ∧ (undo u).deep = u.deep) :
    (o.onFailure undo).Answers s ways := by
  cases o with
  | matched stop u => exact ⟨h.1, h.2.1, hdeep.trans h.2.2⟩
  | faulted fault u => exact h
  | failed u =>
      obtain ⟨htables, hnone, hkeep⟩ := h
      obtain ⟨hsame, hmark⟩ := hundo u htables
      refine ⟨hsame, fun hu => hnone (by rwa [← hmark]), fun hs => ?_⟩
      rw [hmark]
      exact hkeep (hdeep hs)

end Answers

end Outcome

end ByteRegex
