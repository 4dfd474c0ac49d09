import Mathlib.Logic.Relation
import ByteRegex.Proofs.Matcher.Attempts
import ByteRegex.Proofs.Matcher.Restoration

/-!
# Warnings

An attempt that gives up a path warns of the first one and says nothing of the others. The mark that
is set with the warning outlives every step back, and only the next attempt takes it away.

What an evaluation does to its state is done in single changes (`State.Change`): it records an
event, gives up a path, or writes an entry of a table. Each change is accounted for: the warnings it
tells are the ones that come to be due. So whatever an evaluation does, in whatever order, all its
changes together are accounted for, and an attempt begins with nothing due.
-/

namespace ByteRegex

/-- A single change of the state of a matcher that records events under this limit. -/
inductive State.Change (limit : Level) (s : State) : State → Prop
  | note (e : Event) (h : ∀ pos, e ≠ .abandoned pos) : Change limit s (s.note limit e)
  | abandon (pos : Nat) : Change limit s (s.abandon limit pos)
  | setStart (slot pos : Nat) : Change limit s (s.setStart slot pos)
  | setCapture (slot : Nat) (value : Option Span) : Change limit s (s.setCapture slot value)

/-- The second state comes from the first by changes, one after another. -/
abbrev State.Becomes (limit : Level) : State → State → Prop :=
  Relation.ReflTransGen (State.Change limit)

/-- Wherever it goes on, the state is only changed in these ways. -/
def Continue.Becomes (limit : Level) (go : Continue) : Prop :=
  ∀ id pos (s : State), s.Becomes limit (go id pos s).state

/-! ## Outcomes -/

namespace Outcome

variable {limit : Level} {o : Outcome} {s : State}

theorem becomes_orElse {next : State → Outcome} (h : s.Becomes limit o.state)
    (hnext : ∀ t : State, t.Becomes limit (next t).state) :
    s.Becomes limit (o.orElse next).state := by
  cases o with
  | matched stop t => exact h
  | failed t => exact h.trans (hnext t)
  | faulted fault t => exact h

theorem becomes_onFailure {undo : State → State} (h : s.Becomes limit o.state)
    (hundo : ∀ t : State, t.Change limit (undo t)) : s.Becomes limit (o.onFailure undo).state :=
  becomes_orElse h fun t => .single (hundo t)

end Outcome

/-! ## Nodes -/

section

variable {m : Matcher} {go : Continue} (hgo : go.Becomes m.verbosity)

include hgo in
theorem descend_becomes (next : Option NodeId) (low extra : Nat) (s : State) :
    s.Becomes m.verbosity (descend go next low extra s).state := by
  induction extra generalizing s with
  | zero => exact hgo next low s
  | succ extra ih => exact Outcome.becomes_orElse (hgo next (low + (extra + 1)) s) ih

include hgo in
theorem matchBytes_becomes (accepted : ByteClass) (times : Repeat) (next : Option NodeId)
    (pos : Nat) (s : State) :
    s.Becomes m.verbosity (m.matchBytes go accepted times next pos s).state := by
  cases times with
  | once =>
      unfold Matcher.matchBytes
      dsimp only
      split
      · split
        · exact hgo next (pos + 1) s
        · exact .refl
      · exact .refl
  | optional =>
      unfold Matcher.matchBytes
      dsimp only
      split
      · split
        · exact Outcome.becomes_orElse (hgo next (pos + 1) s) fun t => hgo next pos t
        · exact hgo next pos s
      · exact hgo next pos s
  | star | plus =>
      unfold Matcher.matchBytes
      dsimp only
      split
      · have hnote (length : Nat) : s.Change m.verbosity (s.note m.verbosity (.run length pos)) :=
          .note _ fun _ h => (nomatch h)
        split
        · exact (descend_becomes hgo _ _ _ _).head (hnote _)
        · exact .single (hnote _)
      · exact .refl

include hgo in
theorem matchReference_becomes (slot : Nat) (next : Option NodeId) (pos : Nat) (s : State) :
    s.Becomes m.verbosity (m.matchReference go slot next pos s).state := by
  unfold Matcher.matchReference
  split
  · exact .single (.note _ fun _ h => (nomatch h))
  · split
    · split
      · exact hgo next _ s
      · exact .refl
    · exact .refl

include hgo in
theorem tryAlternatives_becomes (slot pos i : Nat) (entries : List NodeId) (s : State) :
    s.Becomes m.verbosity (m.tryAlternatives go slot pos i entries s).state := by
  induction entries generalizing i s with
  | nil => exact .refl
  | cons entry others ih =>
      have hnote : s.Change m.verbosity (s.note m.verbosity (.alternative slot i pos)) :=
        .note _ fun _ h => (nomatch h)
      exact Outcome.becomes_orElse ((hgo (some entry) pos _).head hnote) fun t => ih (i + 1) t

include hgo in
theorem enterGroup_becomes (slot : Nat) (entries : List NodeId) (pos : Nat) (s : State) :
    s.Becomes m.verbosity (m.enterGroup go slot entries pos s).state := by
  unfold Matcher.enterGroup
  split
  · exact .refl
  · have hset : s.Change m.verbosity (s.setStart slot pos) := .setStart slot pos
    have htried := (tryAlternatives_becomes hgo slot pos 0 entries _).head hset
    exact Outcome.becomes_onFailure htried fun t => .setStart slot _

include hgo in
theorem matchHead_becomes (slot : Nat) (times : Repeat) (entries : List NodeId) (tail : NodeId)
    (pos : Nat) (s : State) :
    s.Becomes m.verbosity (m.matchHead go slot times entries tail pos s).state := by
  refine Outcome.becomes_orElse (enterGroup_becomes hgo slot entries pos s) fun t => ?_
  have hnote : t.Change m.verbosity (t.note m.verbosity (.skipped slot pos)) :=
    .note _ fun _ h => (nomatch h)
  split
  · exact .refl
  · dsimp only
    split
    · exact .single hnote
    · exact (hgo _ pos _).head hnote
    · exact .single hnote

include hgo in
theorem matchTail_becomes (slot : Nat) (head : NodeId) (next : Option NodeId) (pos : Nat)
    (s : State) : s.Becomes m.verbosity (m.matchTail go slot head next pos s).state := by
  unfold Matcher.matchTail
  split
  · exact .refl
  next start _ =>
  split
  · split
    · exact .refl
    next previous _ =>
    have hset : s.Change m.verbosity (s.setCapture slot (some ⟨start, pos⟩)) := .setCapture _ _
    split
    · exact .single hset
    next node _ =>
    refine Outcome.becomes_onFailure (Outcome.becomes_orElse ?_ fun t => hgo next pos t)
      fun t => .setCapture slot previous
    cases Matcher.againAt node start pos with
    | none => exact .single hset
    | some alternatives => exact (enterGroup_becomes hgo slot alternatives pos _).head hset
  · exact .refl

include hgo in
theorem step_becomes (id : NodeId) (pos : Nat) (s : State) :
    s.Becomes m.verbosity (m.step go id pos s).state := by
  unfold Matcher.step
  split
  · exact .refl
  · exact matchBytes_becomes hgo _ _ _ pos s
  · exact matchReference_becomes hgo _ _ pos s
  · exact matchHead_becomes hgo _ _ _ _ pos s
  · exact matchTail_becomes hgo _ _ _ pos s
  · split <;> exact .refl

end

/-! ## Walks -/

/-- The induction is on the room: a node has less of it left for what follows. -/
theorem visit_becomes (m : Matcher) (room : Nat) : Continue.Becomes m.verbosity (m.visit room) := by
  induction room with
  | zero =>
      intro id pos s
      cases id with
      | none => exact .refl
      | some id => exact .single (.abandon pos)
  | succ room ih =>
      intro id pos s
      cases id with
      | none => exact .refl
      | some id => exact step_becomes ih id pos s

/-! ## Accounts -/

/-- How many of the events are warnings. -/
def warnings (events : List Event) : Nat :=
  events.countP (·.level = .warn)

/-- How many warnings an attempt that has come to this state owes: one if a path was given up and
the limit admits it. -/
def State.due (limit : Level) (s : State) : Nat :=
  if s.deep = true ∧ Level.warn ≤ limit then 1 else 0

/-- Between the two states the warnings told are the ones that came to be due. -/
def State.Accounts (limit : Level) (s t : State) : Prop :=
  ∃ told, t.events = told ++ s.events ∧ warnings told + s.due limit = t.due limit

namespace State

variable {limit : Level} {s t u : State}

theorem Accounts.refl (s : State) : s.Accounts limit s :=
  ⟨[], rfl, Nat.zero_add _⟩

theorem Accounts.trans (h : s.Accounts limit t) (g : t.Accounts limit u) : s.Accounts limit u := by
  obtain ⟨first, hfirst, hcount⟩ := h
  obtain ⟨second, hsecond, hcount'⟩ := g
  refine ⟨second ++ first, by rw [hsecond, hfirst, List.append_assoc], ?_⟩
  have happend : warnings (second ++ first) = warnings second + warnings first :=
    List.countP_append
  rw [happend, Nat.add_assoc, hcount, hcount']

theorem accounts_note {e : Event} (h : ∀ pos, e ≠ .abandoned pos) :
    s.Accounts limit (s.note limit e) := by
  have hlevel : e.level ≠ .warn := by
    cases e with
    | abandoned pos => exact absurd rfl (h pos)
    | _ => exact fun h => (nomatch h)
  unfold note
  split
  · refine ⟨[e], rfl, ?_⟩
    rw [warnings, List.countP_singleton, if_neg (by simpa using hlevel)]
    exact Nat.zero_add _
  · exact .refl s

/-- The first path given up is told and marked at once, the others are neither. -/
theorem accounts_abandon (pos : Nat) : s.Accounts limit (s.abandon limit pos) := by
  unfold abandon
  split
  · exact .refl s
  next hdeep =>
  have hdue : s.due limit = 0 := if_neg fun h => hdeep h.1
  unfold note
  split
  next hlimit =>
    have hlater (t : State) (ht : t.deep = true) : t.due limit = 1 := if_pos ⟨ht, hlimit⟩
    exact ⟨[.abandoned pos], rfl, by rw [hdue, hlater _ rfl]; rfl⟩
  next hlimit =>
    have hlater (t : State) : t.due limit = 0 := if_neg fun h => hlimit h.2
    exact ⟨[], rfl, by rw [hdue, hlater]; rfl⟩

theorem Change.accounts (h : s.Change limit t) : s.Accounts limit t := by
  cases h with
  | note e h => exact accounts_note h
  | abandon pos => exact accounts_abandon pos
  | setStart slot pos => exact ⟨[], rfl, Nat.zero_add _⟩
  | setCapture slot value => exact ⟨[], rfl, Nat.zero_add _⟩

/-- However many changes there are, they are accounted for together. -/
theorem Becomes.accounts (h : s.Becomes limit t) : s.Accounts limit t := by
  induction h with
  | refl => exact .refl s
  | tail _ hchange ih => exact ih.trans hchange.accounts

end State

/-! ## Attempts -/

/-- An attempt begins with nothing due, whatever was before it. -/
theorem attempt_warnings (m : Matcher) (limit pos : Nat) (s : State) :
    ∃ told, (m.attempt limit pos s).state.events = told ++ s.events ∧
      warnings told = (m.attempt limit pos s).state.due m.verbosity :=
  State.Becomes.accounts (visit_becomes m limit m.program.root pos s.reset)

theorem warnings_matchAt (m : Matcher) (pos : Nat) (s : State) :
    warnings (m.matchAt pos s).state.events =
      (m.matchAt pos s).state.due m.verbosity + warnings s.events := by
  obtain ⟨told, hevents, hdue⟩ := attempt_warnings m maxDepth pos s
  change (m.matchAt pos s).state.events = _ at hevents
  rw [hevents, warnings, List.countP_append]
  exact congrArg (· + warnings s.events) hdue

/-- The attempts that a search through a line makes while it records under this limit, one for each
offset it tries. Those of `Regex.attempts` record errors only. -/
def Regex.attemptsUnder (r : Regex) (line : Array UInt8) (verbosity : Level) : List Outcome :=
  let m := r.matcher line verbosity
  match m.fresh? with
  | .error _ => []
  | .ok s => m.attemptsFrom (if r.matchStart then 0 else line.size) 0 s

/-- How many warnings the attempts owe together. -/
def owed (limit : Level) (attempts : List Outcome) : Nat :=
  if Level.warn ≤ limit then attempts.countP (·.state.deep) else 0

theorem owed_cons (limit : Level) (o : Outcome) (others : List Outcome) :
    owed limit (o :: others) = o.state.due limit + owed limit others := by
  unfold owed State.due
  by_cases hlimit : Level.warn ≤ limit
  · rw [if_pos hlimit, if_pos hlimit, List.countP_cons, Nat.add_comm]
    simp only [hlimit, and_true]
  · rw [if_neg hlimit, if_neg hlimit, if_neg fun h => hlimit h.2]

@[simp] theorem owed_nil (limit : Level) : owed limit [] = 0 :=
  ite_self 0

/-- A search tells what its attempts owe: the warnings of an attempt stay when the next begins. -/
theorem warnings_searchFrom (m : Matcher) (others offset : Nat) (s : State) :
    warnings (m.searchFrom others offset s).events =
      owed m.verbosity (m.attemptsFrom others offset s) + warnings s.events := by
  induction others generalizing offset s with
  | zero =>
      have hwarnings := warnings_matchAt m offset s
      unfold Matcher.searchFrom Matcher.attemptsFrom
      generalize m.matchAt offset s = o at hwarnings ⊢
      cases o with
      | matched stop t | failed t | faulted fault t =>
          rw [owed_cons, owed_nil]
          exact hwarnings
  | succ others ih =>
      have hwarnings := warnings_matchAt m offset s
      unfold Matcher.searchFrom Matcher.attemptsFrom
      generalize m.matchAt offset s = o at hwarnings ⊢
      cases o with
      | matched stop t | faulted fault t =>
          rw [owed_cons, owed_nil]
          exact hwarnings
      | failed t =>
          change warnings t.events = _ at hwarnings
          dsimp only
          rw [ih, hwarnings, owed_cons]
          exact (Nat.add_left_comm ..).trans (Nat.add_assoc ..).symm

/-- A search begins with no events, or breaks off before it makes an attempt. -/
theorem warnings_search (r : Regex) (line : Array UInt8) (verbosity : Level) :
    warnings (r.search line verbosity).events =
      owed verbosity (r.attemptsUnder line verbosity) := by
  unfold Regex.search Regex.attemptsUnder Matcher.fresh?
  dsimp only
  by_cases hslots : (r.matcher line verbosity).program.slots ≤ Captures.maxSize
  · rw [if_pos hslots]
    exact warnings_searchFrom ..
  · rw [if_neg hslots]
    exact (owed_nil verbosity).symm

theorem warnings_eq_countP_record (events : List Event) :
    (events.map Event.record).countP (·.level = .warn) = warnings events :=
  List.countP_map ..

/-- What a search found is no warning. -/
theorem countP_records (s : Search) :
    s.records.countP (·.level = .warn) = warnings s.events := by
  have hresult : s.resultRecord?.toList.countP (·.level = .warn) = 0 := by
    unfold Search.resultRecord?
    split <;> rfl
  rw [Search.records, List.countP_append, hresult, List.map_reverse, List.countP_reverse]
  exact warnings_eq_countP_record s.events

/-- Come to without room, a node is not evaluated: the path is given up, with the mark set and the
tables left alone, and it is told if it is the first of its attempt. -/
theorem Matcher.visit_gives_up (m : Matcher) (id : NodeId) (pos : Nat) (s : State) :
    ∃ t, m.visit 0 (some id) pos s = .failed t ∧ t.deep = true ∧ s.SameTables t ∧
      t.events = if s.deep = false ∧ Level.warn ≤ m.verbosity then .abandoned pos :: s.events
        else s.events := by
  refine ⟨s.abandon m.verbosity pos, m.visit_zero id pos s, s.abandon_deep m.verbosity pos,
    s.sameTables_abandon m.verbosity pos, ?_⟩
  unfold State.abandon State.note Event.level
  cases s.deep with
  | true => rfl
  | false =>
      by_cases hlimit : Level.warn ≤ m.verbosity
      · simp [hlimit]
      · simp [hlimit]

/-- An attempt on any program, well formed or not, from any position and whatever was recorded
before it, warns once if its mark is set in the end, and not at all if it is not, however many paths
it gave up and whether or not it broke off. So the records of a search hold as many warnings as there
are offsets whose attempt gave up a path. Under a limit that does not admit warnings there are none.

The mark is set wherever a path is given up, together with the warning if it was not set before,
and from then on it outlives every evaluation, whatever this takes back.

`Matcher.matchAt` is the attempt with the limit `maxDepth`. -/
theorem deep_attempts_warn_once :
    (∀ (m : Matcher) (limit pos : Nat) (s : State),
      ∃ told, (m.attempt limit pos s).state.events = told ++ s.events ∧
        (told.map Event.record).countP (·.level = .warn) =
          if (m.attempt limit pos s).state.deep ∧ Level.warn ≤ m.verbosity then 1 else 0) ∧
    (∀ (r : Regex) (line : Array UInt8) (verbosity : Level),
      (r.search line verbosity).records.countP (·.level = .warn) =
        if Level.warn ≤ verbosity then (r.attemptsUnder line verbosity).countP (·.state.deep)
        else 0) ∧
    (∀ (m : Matcher) (id : NodeId) (pos : Nat) (s : State),
      ∃ t, m.visit 0 (some id) pos s = .failed t ∧ t.deep = true ∧ s.SameTables t ∧
        t.events = if s.deep = false ∧ Level.warn ≤ m.verbosity then .abandoned pos :: s.events
          else s.events) ∧
    ∀ (m : Matcher) (room : Nat) (id : Option NodeId) (pos : Nat) (s : State),
      s.deep = true → (m.visit room id pos s).state.deep = true := by
  refine ⟨?_, ?_, Matcher.visit_gives_up, Matcher.visit_keepsDeep⟩
  · intro m limit pos s
    obtain ⟨told, hevents, hdue⟩ := attempt_warnings m limit pos s
    exact ⟨told, hevents, (warnings_eq_countP_record told).trans hdue⟩
  · intro r line verbosity
    exact (countP_records _).trans (warnings_search r line verbosity)

/-- With room for one node the paths through all three alternatives are given up, each where its
entry is come to, and only the first of them is told. The second and the third find the mark set. -/
theorem deep_attempts_warn_once_alternatives :
    let m : Matcher := {
      program := {
        nodes := #[.groupHead 0 .once [2, 3, 4] 1, .groupTail 0 0 none, .bytes .any .once (some 1),
          .bytes .any .once (some 1), .bytes .any .once (some 1)]
        root := some 0
        slots := 1 }
      text := #[97]
      verbosity := .trace }
    let first : State :=
      { m.fresh with deep := true, events := [.abandoned 0, .alternative 0 0 0] }
    m.visit 0 (some 2) 0 { m.fresh with events := [.alternative 0 0 0] } = .failed first ∧
      first.deep = true ∧ m.visit 0 (some 3) 0 first = .failed first ∧
      (m.visit 5 (some 3) 0 first).state.deep = true ∧
      m.attempt 1 0 m.fresh = .failed { m.fresh with
        deep := true
        events := [.alternative 0 2 0, .alternative 0 1 0, .abandoned 0, .alternative 0 0 0] } ∧
      ((m.attempt 1 0 m.fresh).state.events.map Event.record).countP (·.level = .warn) = 1 := by
  intro m first
  obtain ⟨hattempt, -, -, hkeeps⟩ := deep_attempts_warn_once
  obtain ⟨told, hevents, hcount⟩ := hattempt m 1 0 m.fresh
  have hdeep : first.deep = true := rfl
  have hkept := hkeeps m 5 (some 3) 0 first hdeep
  have hmarked : (m.attempt 1 0 m.fresh).state.deep = true := by decide +kernel
  refine ⟨by decide +kernel, hdeep, by decide +kernel, hkept, by decide +kernel, ?_⟩
  have htold : told = (m.attempt 1 0 m.fresh).state.events := by
    rw [hevents]
    exact (List.append_nil told).symm
  rw [← htold, hcount, if_pos ⟨hmarked, by decide⟩]

end ByteRegex
