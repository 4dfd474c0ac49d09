/-!
# Pattern errors

Why a text is no pattern. Offsets count the bytes before the offending one,
from the start of the pattern text, a leading `^` included.
-/

namespace ByteRegex

inductive PatternError where
  | empty
  /-- The class that opens at this offset is never closed. -/
  | unterminatedClass (offset : Nat)
  /-- The parenthesis or bar at this offset has no partner. -/
  | unbalancedGroup (offset : Nat)
deriving DecidableEq, Repr

namespace PatternError

def message : PatternError → String
  | empty => "pattern must contain at least one character"
  | unterminatedClass offset => s!"unterminated character class starting at offset {offset}"
  | unbalancedGroup offset => s!"unbalanced group at offset {offset}"

/-- The offset of the offending byte, where there is one. -/
def offset? : PatternError → Option Nat
  | empty => none
  | unterminatedClass offset | unbalancedGroup offset => some offset

end PatternError

end ByteRegex
