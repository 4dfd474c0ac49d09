import ByteRegex.Matcher.State

/-!
# Walking a graph over a text

A matcher walks one program over one text and takes the first path that
succeeds: alternatives in order, longer runs before shorter ones, another
iteration of a group before what follows the group. `Matcher.step` is what one
node does, given how to go on with any other node; `Matcher.visit` ties the
knot and counts how many nodes are under way at once. A path that would exceed
the limit fails, and the state remembers that this has happened.

A step that fails undoes what it did to the tables, so that the next way to be
tried finds them unchanged.
-/

namespace ByteRegex

/-- A program, the text it is matched against, and which events to record. -/
structure Matcher where
  program : Program
  text : Array UInt8
  verbosity : Level := .error

/-- How to go on at a node, or at the end of a chain. -/
abbrev Continue := Option NodeId → Nat → State → Outcome

/-- Where the run of accepted bytes from `pos` on ends; only the next
`remaining` bytes are looked at. -/
def runEnd (accepted : ByteClass) (text : Array UInt8) : (remaining pos : Nat) → Nat
  | 0, pos => pos
  | remaining + 1, pos =>
    match text[pos]? with
    | some b => if accepted.accepts b then runEnd accepted text remaining (pos + 1) else pos
    | none => pos

/-- Whether the text has the same `count` bytes at `i` and at `j`. -/
def sameBytes (text : Array UInt8) : (count i j : Nat) → Bool
  | 0, _, _ => true
  | count + 1, i, j =>
    match text[i]?, text[j]? with
    | some x, some y => x == y && sameBytes text count (i + 1) (j + 1)
    | _, _ => false

/-- Goes on after a run of bytes from the longest to the shortest: first at
`low + extra`, last at `low`. -/
def descend (go : Continue) (next : Option NodeId) (low : Nat) : (extra : Nat) → State → Outcome
  | 0, s => go next low s
  | extra + 1, s =>
    (go next (low + (extra + 1)) s).orElse fun s => descend go next low extra s

namespace Matcher

/-- What a node for bytes of one class does. -/
def matchBytes (m : Matcher) (go : Continue) (accepted : ByteClass) (times : Repeat)
    (next : Option NodeId) (pos : Nat) (s : State) : Outcome :=
  match times with
  | .once =>
    match m.text[pos]? with
    | some b => if accepted.accepts b then go next (pos + 1) s else .failed s
    | none => .failed s
  | .optional =>
    match m.text[pos]? with
    | some b =>
      if accepted.accepts b then (go next (pos + 1) s).orElse fun s => go next pos s
      else go next pos s
    | none => go next pos s
  | .star | .plus =>
    if pos ≤ m.text.size then
      let stop := runEnd accepted m.text (m.text.size - pos) pos
      let s := s.note m.verbosity (.run (stop - pos) pos)
      let low := pos + times.min
      if low ≤ stop then descend go next low (stop - low) s else .failed s
    else .faulted (.noPiece pos m.text.size) s

/-- What a backreference does. -/
def matchReference (m : Matcher) (go : Continue) (slot : Nat) (next : Option NodeId)
    (pos : Nat) (s : State) : Outcome :=
  match s.captures.get? slot with
  | none => .failed (s.note m.verbosity (.unsetReference slot pos))
  | some captured =>
    if pos ≤ m.text.size then
      if sameBytes m.text captured.length captured.start pos then
        go next (pos + captured.length) s
      else .failed s
    else .faulted (.noPiece pos m.text.size) s

/-- Tries the alternatives of a group in order, the first of them having the
index `i`. -/
def tryAlternatives (m : Matcher) (go : Continue) (slot pos : Nat) :
    (i : Nat) → List NodeId → State → Outcome
  | _, [], s => .failed s
  | i, entry :: others, s =>
    (go (some entry) pos (s.note m.verbosity (.alternative slot i pos))).orElse fun s =>
      m.tryAlternatives go slot pos (i + 1) others s

/-- Begins an iteration of a group: its start is `pos` from here on, and what
it was before if no alternative succeeds. -/
def enterGroup (m : Matcher) (go : Continue) (slot : Nat) (alternatives : List NodeId)
    (pos : Nat) (s : State) : Outcome :=
  match s.starts[slot]? with
  | none => .faulted (.noSlot slot) s
  | some saved =>
    (m.tryAlternatives go slot pos 0 alternatives (s.setStart slot pos)).onFailure fun s =>
      s.setStart slot saved

/-- What the head of a group does: an iteration, or none if the group may be
missing. -/
def matchHead (m : Matcher) (go : Continue) (slot : Nat) (times : Repeat)
    (alternatives : List NodeId) (tail : NodeId) (pos : Nat) (s : State) : Outcome :=
  (m.enterGroup go slot alternatives pos s).orElse fun s =>
    if times.min > 0 then .failed s
    else
      let s := s.note m.verbosity (.skipped slot pos)
      match m.program.nodes[tail]? with
      | none => .faulted (.noNode tail) s
      | some (.groupTail _ _ next) => go next pos s
      | some _ => .failed s

/-- The alternatives to try again at the tail of a group whose iteration began
at `start`. An iteration without a byte is the last. -/
def againAt (head : Node) (start pos : Nat) : Option (List NodeId) :=
  match head with
  | .groupHead _ times alternatives _ =>
    if times.isUnbounded ∧ start < pos then some alternatives else none
  | _ => none

/-- What the tail of a group does: captures the iteration, then tries another
one if the group repeats, then what follows the group. -/
def matchTail (m : Matcher) (go : Continue) (slot : Nat) (head : NodeId)
    (next : Option NodeId) (pos : Nat) (s : State) : Outcome :=
  match s.starts[slot]? with
  | none => .faulted (.noSlot slot) s
  | some start =>
    if start ≤ pos ∧ pos ≤ m.text.size then
      match s.captures.slots[slot]? with
      | none => .faulted (.noSlot slot) s
      | some previous =>
        let s := s.setCapture slot (some ⟨start, pos⟩)
        match m.program.nodes[head]? with
        | none => .faulted (.noNode head) s
        | some node =>
          let again :=
            match againAt node start pos with
            | some alternatives => m.enterGroup go slot alternatives pos s
            | none => .failed s
          (again.orElse fun s => go next pos s).onFailure fun s => s.setCapture slot previous
    else .faulted (.noPiece start pos) s

/-- What one node does at a position. -/
def step (m : Matcher) (go : Continue) (id : NodeId) (pos : Nat) (s : State) : Outcome :=
  match m.program.nodes[id]? with
  | none => .faulted (.noNode id) s
  | some (.bytes accepted times next) => m.matchBytes go accepted times next pos s
  | some (.backreference slot next) => m.matchReference go slot next pos s
  | some (.groupHead slot times alternatives tail) =>
    m.matchHead go slot times alternatives tail pos s
  | some (.groupTail slot head next) => m.matchTail go slot head next pos s
  | some .endAnchor => if pos = m.text.size then .matched pos s else .failed s

/-- Evaluates the chain that begins at a node, where `room` more nodes may be
under way. -/
def visit (m : Matcher) : (room : Nat) → Continue
  | _, none, pos, s => .matched pos s
  | 0, some _, pos, s => .failed (s.abandon m.verbosity pos)
  | room + 1, some id, pos, s => m.step (m.visit room) id pos s

/-- The state before the first attempt. -/
def fresh (m : Matcher) : State :=
  .fresh m.program.slots

/-- The state before the first attempt, unless the program has more slots than
a table can have. -/
def fresh? (m : Matcher) : Except Fault State :=
  if m.program.slots ≤ Captures.maxSize then .ok m.fresh
  else .error (.tooManySlots m.program.slots)

/-- An attempt to match from `pos` on, with at most `limit` nodes under way. -/
def attempt (m : Matcher) (limit pos : Nat) (s : State) : Outcome :=
  m.visit limit m.program.root pos s.reset

/-- An attempt to match from `pos` on. -/
def matchAt (m : Matcher) (pos : Nat) (s : State) : Outcome :=
  m.attempt maxDepth pos s

/-- One attempt for each position, each from the state that the one before it
left. -/
def matchEach (m : Matcher) : List Nat → State → List Outcome
  | [], _ => []
  | pos :: rest, s =>
    let outcome := m.matchAt pos s
    outcome :: m.matchEach rest outcome.state

@[simp] theorem visit_none (m : Matcher) (room pos : Nat) (s : State) :
    m.visit room none pos s = .matched pos s := by
  cases room <;> rfl

@[simp] theorem visit_zero (m : Matcher) (id : NodeId) (pos : Nat) (s : State) :
    m.visit 0 (some id) pos s = .failed (s.abandon m.verbosity pos) := rfl

theorem visit_succ (m : Matcher) (room : Nat) (id : NodeId) (pos : Nat) (s : State) :
    m.visit (room + 1) (some id) pos s = m.step (m.visit room) id pos s := rfl

end Matcher

end ByteRegex
