import ByteRegex.Graph.Basic

/-!
# Laying a pattern out as a graph

`Pattern.toProgram` turns a tree of items into a graph. How many nodes an item
takes is known before any is placed (`Item.nodeCount`), so each item is told
the index of its first node and the index it continues at, and every node is
complete when it is made. A group takes its head, then its tail, then the nodes
of its alternatives in order; an alternative without items enters at the tail.

Some trees have no graph: an end anchor ends its chain, so nothing may follow
it, not even the tail of a group around it; a quantifier applies to no
quantifier; and the numbers of groups and references count from 1, so nothing
has the number 0. `Pattern.shapeFault?` finds the first such place.
-/

namespace ByteRegex

/-- Why a tree cannot be laid out. -/
inductive ShapeFault where
  /-- The node `anchor` is an end anchor and would have to continue. -/
  | anchorContinues (anchor successor : NodeId)
  | nestedQuantifier
  /-- A group or a reference has the number 0, below which there is no slot. -/
  | numberZero
deriving DecidableEq, Repr

def ShapeFault.message : ShapeFault → String
  | anchorContinues anchor successor =>
    s!"end anchor cannot have a successor (node {anchor} -> {successor})"
  | nestedQuantifier => "parser never nests quantifiers directly"
  | numberZero => "attempt to subtract with overflow"

/-- The slot of a group number. Numbers count from 1 and slots from 0; a tree with the
number 0 has no graph (`numberFault?`), so no slot of a graph is cut off at 0. -/
def slotOf (number : Nat) : Nat :=
  number - 1

/-! ## Sizes -/

mutual

/-- The number of nodes an item takes. -/
def Item.nodeCount : Item → Nat
  | .group _ alternatives => 2 + branchesNodeCount alternatives
  | .quantified _ inner => inner.nodeCount
  | .byte _ | .any | .oneOf _ _ | .backreference _ | .endAnchor => 1

/-- The number of nodes of a sequence. -/
def itemsNodeCount : List Item → Nat
  | [] => 0
  | item :: rest => item.nodeCount + itemsNodeCount rest

/-- The number of nodes of all alternatives of a group. -/
def branchesNodeCount : List (List Item) → Nat
  | [] => 0
  | items :: rest => itemsNodeCount items + branchesNodeCount rest

end

/-- Where the first item of a sequence continues: at the item after it or, if
it is the last, at the exit of the sequence. -/
def continuation (item : Item) (rest : List Item) (here : NodeId) (exit : Option NodeId) :
    Option NodeId :=
  if rest.isEmpty then exit else some (here + item.nodeCount)

/-! ## Nodes -/

/-- The entries of alternatives that are placed from `here` on. -/
def branchEntries (tail here : NodeId) : List (List Item) → List NodeId
  | [] => []
  | items :: rest =>
    (if items.isEmpty then tail else here) ::
      branchEntries tail (here + itemsNodeCount items) rest

mutual

/-- The nodes of an item that is placed at `here` and continues at `next`. On
an end anchor or a backreference a quantifier has no effect. -/
def Item.nodes (times : Repeat) (here : NodeId) (next : Option NodeId) : Item → List Node
  | .byte b => [.bytes (.literal b) times next]
  | .any => [.bytes .any times next]
  | .oneOf written negated => [.bytes (.ofWritten written negated) times next]
  | .quantified q inner => inner.nodes q.times here next
  | .group number alternatives =>
    let tail := here + 1
    .groupHead (slotOf number) times (branchEntries tail (here + 2) alternatives) tail ::
      .groupTail (slotOf number) here next ::
      branchesNodes tail (here + 2) alternatives
  | .backreference number => [.backreference (slotOf number) next]
  | .endAnchor => [.endAnchor]

/-- The nodes of a sequence that is placed at `here` and left at `exit`. -/
def itemsNodes (here : NodeId) (exit : Option NodeId) : List Item → List Node
  | [] => []
  | item :: rest =>
    item.nodes .once here (continuation item rest here exit) ++
      itemsNodes (here + item.nodeCount) exit rest

/-- The nodes of alternatives that are placed from `here` on and meet at
`tail`. -/
def branchesNodes (tail here : NodeId) : List (List Item) → List Node
  | [] => []
  | items :: rest =>
    itemsNodes here (some tail) items ++
      branchesNodes tail (here + itemsNodeCount items) rest

end

/-! ## Faults -/

/-- Whether the item is an end anchor, whatever its quantifier. -/
def Item.endsChain : Item → Bool
  | .endAnchor | .quantified _ .endAnchor => true
  | _ => false

/-- The first end anchor of a sequence that would have to continue. -/
def anchorFault? (here : NodeId) (exit : Option NodeId) : List Item → Option ShapeFault
  | [] => none
  | item :: rest =>
    match item.endsChain, continuation item rest here exit with
    | true, some successor => some (.anchorContinues here successor)
    | _, _ => anchorFault? (here + item.nodeCount) exit rest

/-- What is wrong with the number of a group or a reference. -/
def numberFault? (number : Nat) : Option ShapeFault :=
  if number = 0 then some .numberZero else none

mutual

/-- The first fault inside an item placed at `here`. The number of a group comes before its
alternatives. -/
def Item.shapeFault? (here : NodeId) : Item → Option ShapeFault
  | .quantified _ (.quantified _ _) => some .nestedQuantifier
  | .quantified _ inner => inner.shapeFault? here
  | .group number alternatives =>
    (numberFault? number).or (branchesFault? (here + 1) (here + 2) alternatives)
  | .backreference number => numberFault? number
  | .byte _ | .any | .oneOf _ _ | .endAnchor => none

/-- The first fault inside the items of a sequence. -/
def itemsFault? (here : NodeId) : List Item → Option ShapeFault
  | [] => none
  | item :: rest =>
    (item.shapeFault? here).or (itemsFault? (here + item.nodeCount) rest)

/-- The first fault of alternatives. In each of them, what is wrong inside an
item comes before what is wrong between two. -/
def branchesFault? (tail here : NodeId) : List (List Item) → Option ShapeFault
  | [] => none
  | items :: rest =>
    ((itemsFault? here items).or (anchorFault? here (some tail) items)).or
      (branchesFault? tail (here + itemsNodeCount items) rest)

end

namespace Pattern

/-- The first reason why a pattern has no graph. -/
def shapeFault? (p : Pattern) : Option ShapeFault :=
  (itemsFault? 0 p.items).or (anchorFault? 0 none p.items)

/-- The graph of a pattern. -/
def toProgram (p : Pattern) : Except ShapeFault Program :=
  match p.shapeFault? with
  | some fault => .error fault
  | none => .ok {
      nodes := (itemsNodes 0 none p.items).toArray
      root := if p.items.isEmpty then none else some 0
      slots := p.groups }

end Pattern

end ByteRegex
