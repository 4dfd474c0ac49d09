import ByteRegex.Graph.Basic
import ByteRegex.Matcher.Event

/-!
# The state of a match

While a graph is walked, the matcher keeps what each group captured last, where
each group's current iteration began, whether a path was given up for depth,
and the events so far. The state is handed from step to step as a value; a step
that fails hands back the tables it was given.

Captures are spans of the text, not copies. A slot that holds an empty span is
set, which is not the same as unset.
-/

namespace ByteRegex

/-- A piece of the text: the positions from `start` up to, but not including,
`stop`. -/
structure Span where
  start : Nat
  stop : Nat
deriving DecidableEq, Repr, Inhabited

namespace Span

def length (s : Span) : Nat :=
  s.stop - s.start

/-- The bytes of the span. -/
def of (s : Span) (text : Array UInt8) : List UInt8 :=
  (text.extract s.start s.stop).toList

end Span

/-- What each slot has captured. -/
structure Captures where
  slots : Array (Option Span)
deriving DecidableEq, Inhabited

namespace Captures

/-- The table of `size` slots that hold nothing. -/
def unset (size : Nat) : Captures :=
  ⟨Array.replicate size none⟩

/-- The longest table there can be: a slot takes 16 bytes, and all slots
together fewer than 2 to the 63rd. -/
def maxSize : Nat := Nat.pow 2 59 - 1

/-- A table that holds nothing, unless that is too long. -/
def new? (size : Nat) : Option Captures :=
  if size ≤ maxSize then some (unset size) else none

/-- What a slot holds; nothing if there is no such slot. -/
def get? (c : Captures) (slot : Nat) : Option Span :=
  c.slots[slot]?.join

def size (c : Captures) : Nat :=
  c.slots.size

def isEmpty (c : Captures) : Bool :=
  c.slots.isEmpty

/-- Gives a slot a value or, with `none`, takes it away. -/
def set (c : Captures) (slot : Nat) (value : Option Span) : Captures :=
  ⟨c.slots.setIfInBounds slot value⟩

/-- The same table with nothing in it. -/
def reset (c : Captures) : Captures :=
  ⟨c.slots.map fun _ => none⟩

end Captures

/-- The tables of a matcher. Events are kept latest first. -/
structure State where
  captures : Captures
  starts : Array Nat
  deep : Bool := false
  events : List Event := []
deriving DecidableEq, Inhabited

namespace State

/-- The state of a matcher with `slots` slots before its first attempt. -/
def fresh (slots : Nat) : State where
  captures := .unset slots
  starts := Array.replicate slots 0

/-- The state at the start of an attempt: nothing captured and nothing given
up. The events of earlier attempts stay. -/
def reset (s : State) : State :=
  { s with captures := s.captures.reset, starts := s.starts.map fun _ => 0, deep := false }

/-- Records an event if the limit admits it. -/
def note (s : State) (limit : Level) (e : Event) : State :=
  if e.level ≤ limit then { s with events := e :: s.events } else s

def setCapture (s : State) (slot : Nat) (value : Option Span) : State :=
  { s with captures := s.captures.set slot value }

def setStart (s : State) (slot : Nat) (position : Nat) : State :=
  { s with starts := s.starts.setIfInBounds slot position }

/-- Gives up a path at a position. Only the first time in an attempt is an
event. -/
def abandon (s : State) (limit : Level) (position : Nat) : State :=
  if s.deep then s else { s.note limit (.abandoned position) with deep := true }

end State

/-- What a graph or a position can refer to in vain. -/
inductive Fault where
  | noNode (id : NodeId)
  | noSlot (slot : Nat)
  /-- The text has no piece from `start` to `stop`. -/
  | noPiece (start stop : Nat)
  /-- No table can have this many slots. -/
  | tooManySlots (slots : Nat)
deriving DecidableEq, Repr

/-- How an evaluation ends, with the state it leaves. -/
inductive Outcome where
  /-- The pattern matched up to the position `stop`. -/
  | matched (stop : Nat) (state : State)
  | failed (state : State)
  /-- The evaluation broke off. -/
  | faulted (fault : Fault) (state : State)
deriving DecidableEq

namespace Outcome

def state : Outcome → State
  | matched _ s | failed s | faulted _ s => s

/-- Goes on with another evaluation where this one failed. -/
@[inline] def orElse (o : Outcome) (next : State → Outcome) : Outcome :=
  match o with
  | failed s => next s
  | matched stop s => matched stop s
  | faulted fault s => faulted fault s

/-- Changes the state that a failure leaves. -/
@[inline] def onFailure (o : Outcome) (undo : State → State) : Outcome :=
  o.orElse fun s => failed (undo s)

@[simp] theorem orElse_failed (s : State) (next : State → Outcome) :
    (failed s).orElse next = next s := rfl

@[simp] theorem orElse_matched (stop : Nat) (s : State) (next : State → Outcome) :
    (matched stop s).orElse next = matched stop s := rfl

@[simp] theorem orElse_faulted (fault : Fault) (s : State) (next : State → Outcome) :
    (faulted fault s).orElse next = faulted fault s := rfl

end Outcome

end ByteRegex
