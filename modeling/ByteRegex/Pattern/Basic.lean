/-!
# Patterns

A pattern is a sequence of items. An item stands for one byte (a literal, any
byte, one of several), for a group of alternative sequences, for a second copy
of what a group captured, or for the end of the line; a quantifier wraps an
item. Groups are numbered from 1 in the order in which they open, and a number
that no group carries is allowed: such a reference never matches.

The type also holds trees that no pattern text stands for, such as a quantifier
on a quantifier or an end anchor inside a group. What becomes of those is
decided when the tree is laid out as a graph.
-/

namespace ByteRegex

/-- How often the item before it may occur. -/
inductive Quantifier where
  /-- At most once, written `?`. -/
  | optional
  /-- Any number of times, written `*`. -/
  | star
  /-- At least once, written `+`. -/
  | plus
deriving DecidableEq, Repr

/-- One element of a pattern. -/
inductive Item where
  | byte (value : UInt8)
  /-- Any one byte, written `.`. -/
  | any
  /-- One byte that is written here or, if negated, one that is not. -/
  | oneOf (written : List UInt8) (negated : Bool)
  | quantified (quantifier : Quantifier) (inner : Item)
  | group (number : Nat) (alternatives : List (List Item))
  /-- The text that the group of this number captured last. -/
  | backreference (number : Nat)
  /-- The end of the line, written `$`. -/
  | endAnchor
deriving Inhabited, Repr

namespace Item

/-- Whether a quantifier written after this item applies to it; after any other
item the quantifier's byte is a literal. -/
def isQuantifiable : Item → Bool
  | byte _ | any | oneOf _ _ | group _ _ => true
  | quantified _ _ | backreference _ | endAnchor => false

def isEndAnchor : Item → Bool
  | endAnchor => true
  | _ => false

end Item

/-- A sequence of items, whether it is tied to the start of the line, and how
many groups it has. -/
structure Pattern where
  matchStart : Bool
  items : List Item
  groups : Nat
deriving Inhabited, Repr

/-- Whether the pattern is tied to the end of the line. -/
def Pattern.matchEnd (p : Pattern) : Bool :=
  p.items.getLast?.any Item.isEndAnchor

end ByteRegex
