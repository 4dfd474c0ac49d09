import ByteRegex.Proofs.Matcher.Restoration

/-!
# The counter of nodes under way

`Matcher.visit` is told how much room is left. The same walk can keep one counter for
all its evaluations instead: raised when a node begins, compared with the limit before
that, and lowered when the node is done. Here the counter is an input and an output of
every evaluation, so that it is worth a proof that an evaluation gives it back as it got
it, and that the walk with the counter is then the walk with the room.

A walk that begins with the counter beyond its limit meets no limit at all and may not
end on a graph with a cycle, hence the fuel; without fuel an evaluation has no outcome.
Where it began at or below the limit, fuel for one node more than the room is enough.
-/

namespace ByteRegex

/-- From the counter before an evaluation to its outcome and the counter after it. -/
abbrev Counted := Nat → Option (Outcome × Nat)

/-- How to go on while counting. -/
abbrev CountedContinue := Option NodeId → Nat → State → Counted

namespace Counted

def ends (o : Outcome) : Counted := fun depth => some (o, depth)

def orElse (x : Counted) (next : State → Counted) : Counted := fun depth =>
  match x depth with
  | some (.failed s, after) => next s after
  | some (.matched stop s, after) => some (.matched stop s, after)
  | some (.faulted fault s, after) => some (.faulted fault s, after)
  | none => none

def onFailure (x : Counted) (undo : State → State) : Counted :=
  x.orElse fun s => ends (.failed (undo s))

/-- One level further in. What breaks off does not come back to lower the counter. -/
def nested (x : Counted) : Counted := fun depth =>
  match x (depth + 1) with
  | some (.failed s, after) => some (.failed s, after - 1)
  | some (.matched stop s, after) => some (.matched stop s, after - 1)
  | some (.faulted fault s, after) => some (.faulted fault s, after)
  | none => none

/-! Node by node this is `Matcher.step`, with `ends` around what is an outcome there. That
the two agree is `step_follows`. -/

def descend (go : CountedContinue) (next : Option NodeId) (low : Nat) :
    (extra : Nat) → State → Counted
  | 0, s => go next low s
  | extra + 1, s =>
    (go next (low + (extra + 1)) s).orElse fun s => descend go next low extra s

def matchBytes (m : Matcher) (go : CountedContinue) (accepted : ByteClass) (times : Repeat)
    (next : Option NodeId) (pos : Nat) (s : State) : Counted :=
  match times with
  | .once =>
    match m.text[pos]? with
    | some b => if accepted.accepts b then go next (pos + 1) s else ends (.failed s)
    | none => ends (.failed s)
  | .optional =>
    match m.text[pos]? with
    | some b =>
      if accepted.accepts b then (go next (pos + 1) s).orElse fun s => go next pos s
      else go next pos s
    | none => go next pos s
  | .star | .plus =>
    if pos ≤ m.text.size then
      let stop := runEnd accepted m.text (m.text.size - pos) pos
      let s := s.note m.verbosity (.run (stop - pos) pos)
      let low := pos + times.min
      if low ≤ stop then descend go next low (stop - low) s else ends (.failed s)
    else ends (.faulted (.noPiece pos m.text.size) s)

def matchReference (m : Matcher) (go : CountedContinue) (slot : Nat) (next : Option NodeId)
    (pos : Nat) (s : State) : Counted :=
  match s.captures.get? slot with
  | none => ends (.failed (s.note m.verbosity (.unsetReference slot pos)))
  | some captured =>
    if pos ≤ m.text.size then
      if sameBytes m.text captured.length captured.start pos then
        go next (pos + captured.length) s
      else ends (.failed s)
    else ends (.faulted (.noPiece pos m.text.size) s)

def tryAlternatives (m : Matcher) (go : CountedContinue) (slot pos : Nat) :
    (i : Nat) → List NodeId → State → Counted
  | _, [], s => ends (.failed s)
  | i, entry :: others, s =>
    (go (some entry) pos (s.note m.verbosity (.alternative slot i pos))).orElse fun s =>
      tryAlternatives m go slot pos (i + 1) others s

def enterGroup (m : Matcher) (go : CountedContinue) (slot : Nat) (alternatives : List NodeId)
    (pos : Nat) (s : State) : Counted :=
  match s.starts[slot]? with
  | none => ends (.faulted (.noSlot slot) s)
  | some saved =>
    (tryAlternatives m go slot pos 0 alternatives (s.setStart slot pos)).onFailure fun s =>
      s.setStart slot saved

def matchHead (m : Matcher) (go : CountedContinue) (slot : Nat) (times : Repeat)
    (alternatives : List NodeId) (tail : NodeId) (pos : Nat) (s : State) : Counted :=
  (enterGroup m go slot alternatives pos s).orElse fun s =>
    if times.min > 0 then ends (.failed s)
    else
      let s := s.note m.verbosity (.skipped slot pos)
      match m.program.nodes[tail]? with
      | none => ends (.faulted (.noNode tail) s)
      | some (.groupTail _ _ next) => go next pos s
      | some _ => ends (.failed s)

def matchTail (m : Matcher) (go : CountedContinue) (slot : Nat) (head : NodeId)
    (next : Option NodeId) (pos : Nat) (s : State) : Counted :=
  match s.starts[slot]? with
  | none => ends (.faulted (.noSlot slot) s)
  | some start =>
    if start ≤ pos ∧ pos ≤ m.text.size then
      match s.captures.slots[slot]? with
      | none => ends (.faulted (.noSlot slot) s)
      | some previous =>
        let s := s.setCapture slot (some ⟨start, pos⟩)
        match m.program.nodes[head]? with
        | none => ends (.faulted (.noNode head) s)
        | some node =>
          let again :=
            match Matcher.againAt node start pos with
            | some alternatives => enterGroup m go slot alternatives pos s
            | none => ends (.failed s)
          (again.orElse fun s => go next pos s).onFailure fun s => s.setCapture slot previous
    else ends (.faulted (.noPiece start pos) s)

def step (m : Matcher) (go : CountedContinue) (id : NodeId) (pos : Nat) (s : State) : Counted :=
  match m.program.nodes[id]? with
  | none => ends (.faulted (.noNode id) s)
  | some (.bytes accepted times next) => matchBytes m go accepted times next pos s
  | some (.backreference slot next) => matchReference m go slot next pos s
  | some (.groupHead slot times alternatives tail) =>
    matchHead m go slot times alternatives tail pos s
  | some (.groupTail slot head next) => matchTail m go slot head next pos s
  | some .endAnchor => ends (if pos = m.text.size then .matched pos s else .failed s)

/-- Evaluates the chain that begins at a node. -/
def visit (m : Matcher) (limit : Nat) : (fuel : Nat) → CountedContinue
  | _, none, pos, s => ends (.matched pos s)
  | 0, some _, _, _ => fun _ => none
  | fuel + 1, some id, pos, s => fun depth =>
    if depth = limit then ends (.failed (s.abandon m.verbosity pos)) depth
    else nested (step m (visit m limit fuel) id pos s) depth

/-- From the counter `depth` on, the evaluation ends as `o` does, with the counter back
at `depth` unless it breaks off; or, where this is not `sure`, its fuel is out. -/
inductive Follows (sure : Prop) (x : Counted) (depth : Nat) : Outcome → Prop where
  | matched {stop : Nat} {s : State} (h : x depth = some (.matched stop s, depth)) :
      Follows sure x depth (.matched stop s)
  | failed {s : State} (h : x depth = some (.failed s, depth)) : Follows sure x depth (.failed s)
  | faulted {fault : Fault} {s : State} {after : Nat}
      (h : x depth = some (.faulted fault s, after)) : Follows sure x depth (.faulted fault s)
  | spent {o : Outcome} (hsure : ¬ sure) (h : x depth = none) : Follows sure x depth o

namespace Follows

variable {sure : Prop} {x y : Counted} {depth : Nat} {o : Outcome}

/-- Only what the evaluation does from this one counter matters. -/
theorem of_eq (hy : Follows sure y depth o) (h : x depth = y depth) : Follows sure x depth o := by
  cases hy with
  | matched hy => exact .matched (h.trans hy)
  | failed hy => exact .failed (h.trans hy)
  | faulted hy => exact .faulted (h.trans hy)
  | spent hsure hy => exact .spent hsure (h.trans hy)

theorem of_imp {weaker : Prop} (hx : Follows sure x depth o) (h : weaker → sure) :
    Follows weaker x depth o := by
  cases hx with
  | matched hx => exact .matched hx
  | failed hx => exact .failed hx
  | faulted hx => exact .faulted hx
  | spent hsure hx => exact .spent (fun hweaker => hsure (h hweaker)) hx

theorem of_ends (o : Outcome) : Follows sure (ends o) depth o := by
  cases o with
  | matched stop s => exact .matched rfl
  | failed s => exact .failed rfl
  | faulted fault s => exact .faulted rfl

theorem orElse {next : State → Counted} {onward : State → Outcome} (hx : Follows sure x depth o)
    (hnext : ∀ s, Follows sure (next s) depth (onward s)) :
    Follows sure (x.orElse next) depth (o.orElse onward) := by
  cases hx with
  | matched h => exact .matched (by rw [Counted.orElse, h])
  | faulted h => exact .faulted (by rw [Counted.orElse, h])
  | spent hsure h => exact .spent hsure (by rw [Counted.orElse, h])
  | @failed s h => exact (hnext s).of_eq (by rw [Counted.orElse, h])

theorem onFailure (hx : Follows sure x depth o) (undo : State → State) :
    Follows sure (x.onFailure undo) depth (o.onFailure undo) :=
  hx.orElse fun s => of_ends (.failed (undo s))

/-- The level that was entered is left again. -/
theorem nested (hx : Follows sure x (depth + 1) o) : Follows sure x.nested depth o := by
  cases hx with
  | matched h => exact .matched (by rw [Counted.nested, h]; rfl)
  | failed h => exact .failed (by rw [Counted.nested, h]; rfl)
  | faulted h => exact .faulted (by rw [Counted.nested, h])
  | spent hsure h => exact .spent hsure (by rw [Counted.nested, h])

/-- What the evaluation ends with, if it ends. -/
theorem eq_of_eq_some {p : Outcome} {after : Nat} (hx : Follows sure x depth o)
    (h : x depth = some (p, after)) :
    p = o ∧ ((∀ fault t, o ≠ .faulted fault t) → after = depth) := by
  cases hx with
  | matched hx => cases h.symm.trans hx; exact ⟨rfl, fun _ => rfl⟩
  | failed hx => cases h.symm.trans hx; exact ⟨rfl, fun _ => rfl⟩
  | faulted hx => cases h.symm.trans hx; exact ⟨rfl, fun ho => absurd rfl (ho _ _)⟩
  | spent _ hx => cases h.symm.trans hx

theorem exists_eq_some (hx : Follows sure x depth o) (hsure : sure) :
    ∃ after, x depth = some (o, after) := by
  cases hx with
  | matched hx => exact ⟨depth, hx⟩
  | failed hx => exact ⟨depth, hx⟩
  | faulted hx => exact ⟨_, hx⟩
  | spent hnot _ => exact absurd hsure hnot

end Follows

/-! ## Nodes -/

section

variable {m : Matcher} {sure : Prop} {depth : Nat} {count : CountedContinue} {go : Continue}
  (hgo : ∀ id pos s, Follows sure (count id pos s) depth (go id pos s))
include hgo

theorem descend_follows (next : Option NodeId) (low extra : Nat) (s : State) :
    Follows sure (descend count next low extra s) depth
      (ByteRegex.descend go next low extra s) := by
  induction extra generalizing s with
  | zero => exact hgo next low s
  | succ extra ih => exact (hgo next (low + (extra + 1)) s).orElse ih

theorem matchBytes_follows (accepted : ByteClass) (times : Repeat) (next : Option NodeId)
    (pos : Nat) (s : State) :
    Follows sure (matchBytes m count accepted times next pos s) depth
      (m.matchBytes go accepted times next pos s) := by
  cases times with
  | once =>
      unfold matchBytes Matcher.matchBytes
      dsimp only
      cases m.text[pos]? with
      | none => exact .of_ends _
      | some b =>
          dsimp only
          split
          · exact hgo next (pos + 1) s
          · exact .of_ends _
  | optional =>
      unfold matchBytes Matcher.matchBytes
      dsimp only
      cases m.text[pos]? with
      | none => exact hgo next pos s
      | some b =>
          dsimp only
          split
          · exact (hgo next (pos + 1) s).orElse fun t => hgo next pos t
          · exact hgo next pos s
  | star | plus =>
      unfold matchBytes Matcher.matchBytes
      dsimp only
      split
      · split
        · exact descend_follows hgo _ _ _ _
        · exact .of_ends _
      · exact .of_ends _

theorem matchReference_follows (slot : Nat) (next : Option NodeId) (pos : Nat) (s : State) :
    Follows sure (matchReference m count slot next pos s) depth
      (m.matchReference go slot next pos s) := by
  unfold matchReference Matcher.matchReference
  cases s.captures.get? slot with
  | none => exact .of_ends _
  | some captured =>
      dsimp only
      split
      · split
        · exact hgo next _ s
        · exact .of_ends _
      · exact .of_ends _

theorem tryAlternatives_follows (slot pos i : Nat) (entries : List NodeId) (s : State) :
    Follows sure (tryAlternatives m count slot pos i entries s) depth
      (m.tryAlternatives go slot pos i entries s) := by
  induction entries generalizing i s with
  | nil => exact .of_ends _
  | cons entry others ih => exact (hgo (some entry) pos _).orElse fun t => ih (i + 1) t

theorem enterGroup_follows (slot : Nat) (entries : List NodeId) (pos : Nat) (s : State) :
    Follows sure (enterGroup m count slot entries pos s) depth
      (m.enterGroup go slot entries pos s) := by
  unfold enterGroup Matcher.enterGroup
  cases s.starts[slot]? with
  | none => exact .of_ends _
  | some saved => exact (tryAlternatives_follows hgo slot pos 0 entries _).onFailure _

theorem matchHead_follows (slot : Nat) (times : Repeat) (entries : List NodeId) (tail : NodeId)
    (pos : Nat) (s : State) :
    Follows sure (matchHead m count slot times entries tail pos s) depth
      (m.matchHead go slot times entries tail pos s) := by
  refine (enterGroup_follows hgo slot entries pos s).orElse fun t => ?_
  split
  · exact .of_ends _
  · cases m.program.nodes[tail]? with
    | none => exact .of_ends _
    | some node =>
        cases node with
        | groupTail slot head next => exact hgo next pos _
        | _ => exact .of_ends _

theorem matchTail_follows (slot : Nat) (head : NodeId) (next : Option NodeId) (pos : Nat)
    (s : State) :
    Follows sure (matchTail m count slot head next pos s) depth
      (m.matchTail go slot head next pos s) := by
  unfold matchTail Matcher.matchTail
  cases s.starts[slot]? with
  | none => exact .of_ends _
  | some start =>
      dsimp only
      split
      · cases s.captures.slots[slot]? with
        | none => exact .of_ends _
        | some previous =>
            cases m.program.nodes[head]? with
            | none => exact .of_ends _
            | some node =>
                dsimp only
                refine .onFailure (.orElse ?_ fun t => hgo next pos t) _
                cases Matcher.againAt node start pos with
                | none => exact .of_ends _
                | some alternatives => exact enterGroup_follows hgo slot alternatives pos _
      · exact .of_ends _

theorem step_follows (id : NodeId) (pos : Nat) (s : State) :
    Follows sure (step m count id pos s) depth (m.step go id pos s) := by
  unfold step Matcher.step
  cases m.program.nodes[id]? with
  | none => exact .of_ends _
  | some node =>
      cases node with
      | bytes accepted times next => exact matchBytes_follows hgo accepted times next pos s
      | backreference slot next => exact matchReference_follows hgo slot next pos s
      | groupHead slot times entries tail =>
          exact matchHead_follows hgo slot times entries tail pos s
      | groupTail slot head next => exact matchTail_follows hgo slot head next pos s
      | endAnchor => exact .of_ends _

end

/-! ## Walks -/

/-- The induction is on the fuel. A counter below the limit leaves exactly the room up to
it. One beyond the limit never meets it, and then the fuel is the room. -/
theorem visit_follows (m : Matcher) (limit fuel : Nat) {depth room : Nat}
    (h : depth + room = limit ∨ limit < depth ∧ fuel ≤ room)
    (id : Option NodeId) (pos : Nat) (s : State) :
    Follows (room < fuel) (visit m limit fuel id pos s) depth (m.visit room id pos s) := by
  induction fuel generalizing depth room id pos s with
  | zero =>
      cases id with
      | none => rw [Matcher.visit_none]; exact .of_ends _
      | some id => exact .spent (Nat.not_lt_zero room) rfl
  | succ fuel ih =>
      cases id with
      | none => rw [Matcher.visit_none]; exact .of_ends _
      | some id =>
          cases room with
          | zero =>
              have hlimit : depth = limit := by omega
              exact (Follows.of_ends _).of_eq (if_pos hlimit)
          | succ room =>
              have hlimit : depth ≠ limit := by omega
              have hinside : depth + 1 + room = limit ∨ limit < depth + 1 ∧ fuel ≤ room := by omega
              have hstep := step_follows (m := m) (ih hinside) id pos s
              rw [Matcher.visit_succ]
              exact (hstep.nested.of_eq (if_neg hlimit)).of_imp Nat.lt_of_succ_lt_succ

/-- From any counter, within the limit or beyond it, the walk with the counter does what
the walk does that has some amount of room. -/
theorem exists_visit_follows (m : Matcher) (limit fuel depth : Nat) (id : Option NodeId)
    (pos : Nat) (s : State) :
    ∃ room, Follows (room < fuel) (visit m limit fuel id pos s) depth (m.visit room id pos s) := by
  by_cases h : depth ≤ limit
  · exact ⟨limit - depth, visit_follows m limit fuel (.inl (by omega)) id pos s⟩
  · exact ⟨fuel, visit_follows m limit fuel (.inr ⟨by omega, Nat.le_refl fuel⟩) id pos s⟩

end Counted

/-- A failed evaluation leaves the matcher as it found it, on any program, well formed or
not, at any node and position, from any tables, from any counter and under any limit. The
captures, the starts and the counter are what they were; only the mark of a path given up
may have been set, and it is never cleared. A match gives the counter back as well. Where
the counter began within the limit, this is the walk with the room that was left.

An attempt that fails leaves every slot unset. `Matcher.matchAt` is the attempt with the
limit `maxDepth`. -/
theorem failed_visit_restores (m : Matcher) (limit fuel depth : Nat) (id : Option NodeId)
    (pos : Nat) (s : State) :
    (∀ t after, Counted.visit m limit fuel id pos s depth = some (.failed t, after) →
      t.captures = s.captures ∧ t.starts = s.starts ∧ (s.deep = true → t.deep = true) ∧
        after = depth) ∧
    (∀ stop t after, Counted.visit m limit fuel id pos s depth = some (.matched stop t, after) →
      after = depth) ∧
    (∀ room, depth + room = limit → room < fuel →
      ∃ after, Counted.visit m limit fuel id pos s depth = some (m.visit room id pos s, after)) ∧
    (∀ t, m.attempt limit pos s = .failed t →
      t.captures = s.captures.reset ∧ ∀ slot, t.captures.get? slot = none) := by
  obtain ⟨room, hwalk⟩ := Counted.exists_visit_follows m limit fuel depth id pos s
  refine ⟨fun t after ht => ?_, fun stop t after ht => ?_, fun left hleft hfuel => ?_,
    fun t ht => ?_⟩
  · obtain ⟨houtcome, hcounter⟩ := hwalk.eq_of_eq_some ht
    obtain ⟨htables, -, hdeep⟩ := visit_restores m room id pos s
    obtain ⟨hcaptures, hstarts⟩ := htables t houtcome.symm
    rw [← houtcome] at hdeep hcounter
    exact ⟨hcaptures, hstarts, hdeep, hcounter fun _ _ h => nomatch h⟩
  · obtain ⟨houtcome, hcounter⟩ := hwalk.eq_of_eq_some ht
    rw [← houtcome] at hcounter
    exact hcounter fun _ _ h => nomatch h
  · exact (Counted.visit_follows m limit fuel (.inl hleft) id pos s).exists_eq_some hfuel
  · exact ⟨attempt_captures ht, fun slot => by rw [attempt_captures ht, Captures.get?_reset]⟩

/-- A graph in which two tails share a slot, the head names as its tail a node that is
none, and one of the tails takes itself for its head. -/
def tangled : Program where
  nodes := #[.groupHead 0 .star [1] 1, .bytes .any .once (some 2), .groupTail 0 0 (some 3),
    .groupTail 0 3 (some 4), .backreference 0 none]
  root := some 0
  slots := 1

/-- On `aa`, from tables in which the slot holds the second byte. At the position 1 and with
the counter at 2, an evaluation is cut off at the limit 5 and fails. At the position 0, the
second iteration is cut off, and the first one alone matches. -/
theorem failed_visit_restores_tangled :
    let m : Matcher := { program := tangled, text := #[97, 97] }
    let s : State := { captures := ⟨#[some ⟨1, 2⟩]⟩, starts := #[1] }
    (∃ t after, Counted.visit m 5 4 (some 0) 1 s 2 = some (.failed t, after) ∧
      t.deep = true ∧ t.captures = s.captures ∧ t.starts = s.starts ∧ after = 2) ∧
    (∃ t after, Counted.visit m 5 6 (some 0) 0 s 0 = some (.matched 2 t, after) ∧
      t.deep = true ∧ after = 0) ∧
    (∃ t, m.attempt 5 1 s = .failed t ∧ t.captures.get? 0 = none) := by
  intro m s
  obtain ⟨hfailed, -, -, hattempt⟩ := failed_visit_restores m 5 4 2 (some 0) 1 s
  obtain ⟨-, hmatched, -, -⟩ := failed_visit_restores m 5 6 0 (some 0) 0 s
  have hcut : Counted.visit m 5 4 (some 0) 1 s 2 = some (.failed { s with deep := true }, 2) := by
    decide +kernel
  obtain ⟨hcaptures, hstarts, -, hcounter⟩ := hfailed _ _ hcut
  have hone : Counted.visit m 5 6 (some 0) 0 s 0 =
      some (.matched 2 ⟨⟨#[some ⟨0, 1⟩]⟩, #[0], true, []⟩, 0) := by
    decide +kernel
  have hnone : m.attempt 5 1 s = .failed ⟨⟨#[none]⟩, #[0], false, []⟩ := by decide +kernel
  exact ⟨⟨_, _, hcut, rfl, hcaptures, hstarts, hcounter⟩,
    ⟨_, _, hone, rfl, hmatched _ _ _ hone⟩, ⟨_, hnone, (hattempt _ hnone).2 0⟩⟩

end ByteRegex
