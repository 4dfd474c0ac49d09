import ByteRegex.MessagePattern.LiteralTree
import ByteRegex.MessagePattern.Shape
import ByteRegex.Text.Utf8Ranges
import Std.Data.HashMap

/-!
# The memory of an automaton

A shape is laid out as the states of an automaton that reads the bytes of a
message, forward or backward. The states themselves are never needed, only how
much memory they take, and that is limited: a `Layout` counts the states so far
and the ways that lead out of them beyond the first, and `Layout.add?` fails
where the limit would be passed.

Sets of characters beyond ASCII take most of the memory. Their bytes are laid
out so that equal states are shared, forward those with the same ways out and
backward those that the same byte takes to the same state. Equal states are
found by a `Memo` of limited size, which forgets: so the memory that a set takes
also depends on the indices of its states, and the count follows the layout
state by state.
-/

namespace ByteRegex.MessagePattern

/-! ## States -/

/-- The states laid out so far, and the bytes that they take beside their own. -/
structure Layout where
  states : Nat := 0
  extra : Nat := 0
deriving DecidableEq, Repr

namespace Layout

/-- The bytes of a state by itself. -/
def stateSize : Nat := 32

/-- The bytes of one way out of a state that has a list of them. -/
def waySize : Nat := 4

/-- The bytes of one range of bytes in a state that has a list of them. -/
def rangeSize : Nat := 8

/-- The bytes that an automaton may take. -/
def limit : Nat := 10 * 1024 * 1024

def size (l : Layout) : Nat :=
  stateSize * l.states + l.extra

/-- The layout with more states, which together take so many bytes beside their
own, if the limit allows. -/
def addMany? (l : Layout) (states extra : Nat) : Option Layout :=
  let l : Layout := { states := l.states + states, extra := l.extra + extra }
  if l.size ≤ limit then some l else none

/-- The layout with one more state. -/
def add? (l : Layout) (extra : Nat) : Option Layout :=
  l.addMany? 1 extra

/-- The same addition several times over. -/
def repeat? (add : Layout → Option Layout) : (count : Nat) → Layout → Option Layout
  | 0, l => some l
  | count + 1, l =>
    match add l with
    | some l => repeat? add count l
    | none => none

end Layout

/-! ## Memos -/

/-- Remembers the states of keys. A key has its place by its hash, and drives out
what was there. -/
structure Memo where
  places : Nat
  entries : Std.HashMap Nat (List Nat × Nat) := ∅

namespace Memo

/-- The hash of a key: each number is mixed in by an exclusive or, and then all
is multiplied by a prime. -/
def hash (key : List Nat) : UInt64 :=
  key.foldl (fun h n => (h ^^^ UInt64.ofNat n) * 1099511628211) 14695981039346656037

def place (m : Memo) (key : List Nat) : Nat :=
  (hash key).toNat % m.places

def find? (m : Memo) (key : List Nat) : Option Nat :=
  match m.entries[m.place key]? with
  | some (other, state) => if other = key then some state else none
  | none => none

def insert (m : Memo) (key : List Nat) (state : Nat) : Memo :=
  { m with entries := m.entries.insert (m.place key) (key, state) }

end Memo

/-- A layout with the memo of the set that is being laid out. -/
structure SharedLayout where
  layout : Layout
  memo : Memo

/-- The state of a key: a known one, or a new one that takes so many bytes beside
its own. -/
def SharedLayout.state? (l : SharedLayout) (key : List Nat) (extra : Nat) :
    Option (Nat × SharedLayout) :=
  match l.memo.find? key with
  | some state => some (state, l)
  | none =>
    (l.layout.add? extra).map fun layout =>
      let state := l.layout.states
      (state, { layout, memo := l.memo.insert key state })

/-! ## Sets of characters -/

/-- Sequences with the same first interval, one after the other, together
without it. -/
def groupByFirst : List (List ByteInterval) → List (ByteInterval × List (List ByteInterval))
  | [] => []
  | [] :: rest => groupByFirst rest
  | (first :: tail) :: rest =>
    match groupByFirst rest with
    | (other, tails) :: groups =>
      if other = first then (first, tail :: tails) :: groups
      else (first, [tail]) :: (other, tails) :: groups
    | [] => [(first, [tail])]

/-- The state from which sequences of at most `depth` intervals lead to the state
`target`. -/
def sharedStart? (target : Nat) :
    (depth : Nat) → List (List ByteInterval) → SharedLayout → Option (Nat × SharedLayout)
  | 0, _, l => some (target, l)
  | depth + 1, sequences, l =>
    let groups := groupByFirst sequences
    if groups.isEmpty then some (target, l)
    else
      let addWay (built : List Nat × SharedLayout)
          (group : ByteInterval × List (List ByteInterval)) :
          Option (List Nat × SharedLayout) :=
        let ((low, high), tails) := group
        (sharedStart? target depth tails built.2).map fun (next, l) =>
          (built.1 ++ [low, high, next], l)
      (groups.foldlM addWay ([], l)).bind fun (key, l) =>
        l.state? key (groups.length * Layout.rangeSize)

/-- The state from which a sequence, read from its end, leads to `target`. -/
def chainStart? (target : Nat) :
    List ByteInterval → SharedLayout → Option (Nat × SharedLayout)
  | [], l => some (target, l)
  | (low, high) :: rest, l =>
    (l.state? [target, low, high] 0).bind fun (state, l) => chainStart? state rest l

/-- The direction in which an automaton reads. -/
inductive Direction where
  | forward
  | backward
deriving DecidableEq, Repr

/-- The products of intervals of bytes that write a set. -/
def CharSet.byteSequences (s : CharSet) : List (List ByteInterval) :=
  s.codeRanges.flatMap fun (first, last) => utf8Ranges first last

/-- The layout with the states for one character of a set. A set within ASCII
takes one state that lists its ranges, and the one that it leads to. -/
def CharSet.lay? (s : CharSet) (d : Direction) (l : Layout) : Option Layout :=
  if s.isAscii then l.addMany? 2 (s.ranges.length * Layout.rangeSize)
  else
    let sequences := s.byteSequences
    match d with
    | .forward =>
      let target := l.states
      (l.add? 0).bind fun layout =>
        (sharedStart? target 4 sequences { layout, memo := { places := 10000 } }).map
          (·.2.layout)
    | .backward =>
      let target := l.states + 1
      (l.addMany? 2 (sequences.length * Layout.waySize)).bind fun layout =>
        (sequences.foldlM (fun l bytes => (chainStart? target bytes l).map (·.2))
          ({ layout, memo := { places := 1000 } } : SharedLayout)).map (·.layout)

/-! ## Literals -/

def utf8Bytes (text : List Char) : List UInt8 :=
  (String.ofList text).toUTF8.toList

/-- The bytes that a group of ways takes as a state: none without ways, and no
list for a single one. -/
def groupExtent (ways : Nat) : Nat × Nat :=
  match ways with
  | 0 => (0, 0)
  | 1 => (1, 0)
  | n => (1, n * Layout.rangeSize)

mutual

/-- The number of states for a tree of literals, and the bytes they take beside
their own. Each node that leads on has a state for each group of ways, and one
before these that lists them and the ends of literals between them. -/
def LiteralTree.extent : LiteralTree → Nat × Nat
  | .node closed growing =>
    let (closedStates, closedExtra) := groupsExtent closed
    let (states, extra) := waysExtent growing
    let (groupStates, groupExtra) := groupExtent growing.length
    let groups := (growing :: closed).countP fun ways => !ways.isEmpty
    if groups = 0 then (0, 0)
    else
      (closedStates + states + groupStates + 1,
        closedExtra + extra + groupExtra + (groups + closed.length) * Layout.waySize)

def groupsExtent : List (List (UInt8 × LiteralTree)) → Nat × Nat
  | [] => (0, 0)
  | ways :: rest =>
    let (restStates, restExtra) := groupsExtent rest
    let (states, extra) := waysExtent ways
    let (groupStates, groupExtra) := groupExtent ways.length
    (restStates + states + groupStates, restExtra + extra + groupExtra)

def waysExtent : List (UInt8 × LiteralTree) → Nat × Nat
  | [] => (0, 0)
  | (_, t) :: rest =>
    let (states, extra) := t.extent
    let (restStates, restExtra) := waysExtent rest
    (states + restStates, extra + restExtra)

end

/-- The bytes of all shapes, if each is a literal. -/
def literals? (shapes : List Shape) : Option (List (List UInt8)) :=
  shapes.mapM fun
    | .literal text => some (utf8Bytes text)
    | _ => none

/-- The layout with a choice of literals: a tree, and the state that it leads to.
Backward the literals are read from their ends. -/
def layLiterals? (literals : List (List UInt8)) (d : Direction) (l : Layout) : Option Layout :=
  let literals := match d with
    | .forward => literals
    | .backward => literals.map List.reverse
  let (states, extra) := (LiteralTree.ofLiterals literals).extent
  l.addMany? (states + 1) extra

/-! ## Shapes -/

mutual

/-- The layout with the states for a shape. Where ways part, the state before
them lists them. -/
def Shape.lay? (d : Direction) : Shape → Layout → Option Layout
  | .empty, l | .look _, l => l.add? 0
  | .literal text, l => l.addMany? (utf8Bytes text).length 0
  | .oneOf set _, l => set.lay? d l
  | .repeated least most _ inner, l =>
    let fork := 2 * Layout.waySize
    match least, most with
    | 0, some 1 =>
      (l.add? fork).bind fun l => (inner.lay? d l).bind fun l => l.add? 0
    | 0, none =>
      if inner.consumes then (l.add? fork).bind fun l => inner.lay? d l
      else (inner.lay? d l).bind fun l => l.addMany? 3 (2 * fork)
    | least, none =>
      (Layout.repeat? (inner.lay? d) least l).bind fun l => l.add? fork
    | least, some most =>
      let first := if least = 0 then l.add? 0 else Layout.repeat? (inner.lay? d) least l
      if least = most then first
      else
        (first.bind fun l => l.add? 0).bind fun l =>
          Layout.repeat? (fun l => (l.add? fork).bind fun l => inner.lay? d l) (most - least) l
  | .captured inner, l =>
    match d with
    | .forward => (l.add? 0).bind fun l => (inner.lay? d l).bind fun l => l.add? 0
    | .backward => inner.lay? d l
  | .choice branches, l =>
    match literals? branches with
    | some literals => layLiterals? literals d l
    | none => layBranches? d (branches.length * Layout.waySize) 0 branches l
  | .sequence elements, l => laySequence? d elements l

/-- The layout with the branches of a choice. The state that lists the ways into
them, and the one that they lead to, come behind the second branch. -/
def layBranches? (d : Direction) (ways : Nat) : (before : Nat) → List Shape → Layout → Option Layout
  | _, [], l => some l
  | before, s :: rest, l =>
    (s.lay? d l).bind fun l =>
      (if before = 1 then l.addMany? 2 ways else some l).bind fun l =>
        layBranches? d ways (before + 1) rest l

/-- The layout with the elements of a sequence, in the order in which they are
read. -/
def laySequence? (d : Direction) : List Shape → Layout → Option Layout
  | [], l => some l
  | s :: rest, l =>
    match d with
    | .forward => (s.lay? d l).bind fun l => laySequence? d rest l
    | .backward => (laySequence? d rest l).bind fun l => s.lay? d l

end

/-- The layout of a whole automaton. Where a match may begin anywhere, a loop over
any byte comes first; forward the whole match is captured; the last state is that
of a match. -/
def Shape.automaton? (s : Shape) (d : Direction) : Option Layout :=
  let l : Layout := {}
  let tied := match d with
    | .forward => s.beginsWith .textStart
    | .backward => s.endsWith .textEnd
  let start :=
    if tied then l.add? 0 else l.addMany? 3 (2 * Layout.waySize + Layout.rangeSize)
  let body := start.bind (Shape.captured s |>.lay? d)
  body.bind fun l => l.add? 0

end ByteRegex.MessagePattern
