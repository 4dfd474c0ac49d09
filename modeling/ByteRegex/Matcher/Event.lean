import ByteRegex.Log.Level

/-!
# Events of a match

What a matcher does on its way is told as events. They are values, so that an
attempt can be followed without any text being made; `Event.message` words
them. Groups and backreferences are told by group number, one more than their
slot.
-/

namespace ByteRegex

/-- How many nodes may be under way at once in one attempt. -/
def maxDepth : Nat := 4096

inductive Event where
  /-- A repeated class accepted `length` bytes. -/
  | run (length position : Nat)
  /-- A backreference met a slot that holds nothing. -/
  | unsetReference (slot position : Nat)
  /-- A group is about to try the alternative of this index. -/
  | alternative (slot index position : Nat)
  /-- An optional group is passed over. -/
  | skipped (slot position : Nat)
  /-- A path was given up for being too deep, the first one of its attempt. -/
  | abandoned (position : Nat)
deriving DecidableEq, Repr

namespace Event

def level : Event → Level
  | abandoned _ => .warn
  | run _ _ | unsetReference _ _ | alternative _ _ _ | skipped _ _ => .trace

/-- The words of an event. Numbers have no upper end here. The slot of a backreference need not be
one that a table has, and the highest that fits in a machine word has no group number above it: a
build that checks its sums breaks off where this event is worded, if events of its level are
admitted at all. Such a slot is outside the model. No graph that is laid out has it, for there
every slot is one below a number. -/
def message : Event → String
  | run length position => s!"run of {length} at {position}"
  | unsetReference slot position =>
    s!"backreference \\{slot + 1} at {position}: group has not matched"
  | alternative slot index position => s!"group {slot + 1} alternative {index} at {position}"
  | skipped slot position => s!"group {slot + 1} skipped at {position}"
  | abandoned position =>
    s!"match at {position} nested deeper than {maxDepth} levels, abandoning path"

end Event

end ByteRegex
