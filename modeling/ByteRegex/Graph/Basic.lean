import ByteRegex.ByteClass
import ByteRegex.Pattern.Basic

/-!
# Match graphs

A pattern is matched by walking a graph of nodes. Each node continues into one
next node, except the head of a group, which leads into one entry for each
alternative; all alternatives come together again at the group's tail, and the
tail continues with what follows the group. A missing next node is the end of a
chain, and reaching it is a match.

Nodes name each other by their index in the program. Nothing here asks a
program to be well formed: an index may be out of range, two heads may share a
tail, a chain may run in a circle.
-/

namespace ByteRegex

/-- The index of a node in its program. -/
abbrev NodeId := Nat

/-- How often a node or group may occur in a row. -/
inductive Repeat where
  | once
  | optional
  | star
  | plus
deriving DecidableEq, Repr, Inhabited

namespace Repeat

/-- The least number of occurrences. -/
def min : Repeat → Nat
  | optional | star => 0
  | once | plus => 1

/-- Whether there is no greatest number of occurrences. -/
def isUnbounded : Repeat → Bool
  | star | plus => true
  | once | optional => false

end Repeat

/-- What a quantifier makes of its item. -/
def Quantifier.times : Quantifier → Repeat
  | optional => .optional
  | star => .star
  | plus => .plus

inductive Node where
  /-- A run of bytes of one class. -/
  | bytes (accepted : ByteClass) (times : Repeat) (next : Option NodeId)
  /-- A second copy of what a slot has captured. -/
  | backreference (slot : Nat) (next : Option NodeId)
  | groupHead (slot : Nat) (times : Repeat) (alternatives : List NodeId) (tail : NodeId)
  | groupTail (slot : Nat) (head : NodeId) (next : Option NodeId)
  /-- The end of the line, which is also the end of its chain. -/
  | endAnchor
deriving DecidableEq, Inhabited

/-- Nodes, the node to start from (none for a pattern without items) and the
number of capture slots. The slot of a group is its number less one. -/
structure Program where
  nodes : Array Node
  root : Option NodeId
  slots : Nat
deriving DecidableEq, Inhabited

end ByteRegex
