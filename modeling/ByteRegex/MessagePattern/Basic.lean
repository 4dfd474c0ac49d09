import ByteRegex.MessagePattern.Automaton
import ByteRegex.MessagePattern.Meaning
import ByteRegex.MessagePattern.Occurrence
import ByteRegex.MessagePattern.Reader

/-!
# Message patterns

Log filters select messages by a pattern. These patterns are richer than those
the program matches lines against: they are about characters and not bytes, and
know counted repetitions, flags, named classes and conditions on words. They
cannot refer back, and a message either has a piece that matches or not.

A pattern whose automaton would take too much memory is refused. The size is
that of its states, as they would be laid out for a machine with 64-bit words.

The dialect, its limits and the words of its refusals are those of the library
that reads such patterns for the log. They are written out so that the command
answers as a whole, and no theorem is about them.
-/

namespace ByteRegex

/-- A pattern for messages. -/
structure MessagePattern where
  shape : MessagePattern.Shape

namespace MessagePattern

/-- Why a text is refused as a message pattern. -/
inductive Refusal where
  | defective (d : Defect)
  /-- It asks for words in the sense of Unicode. -/
  | undecidable
  | tooLarge
deriving DecidableEq, Repr

def Refusal.message (text : String) : Refusal → String
  | defective d => d.report text
  | undecidable => "error building NFA"
  | tooLarge => s!"Compiled regex exceeds size limit of {Layout.limit} bytes."

def ofString (text : String) : Except Refusal MessagePattern :=
  match (Tree.ofString text).bind fun tree => tree.shape {} with
  | .error d => .error (.defective d)
  | .ok (shape, _) =>
    if (shape.automaton? .forward).isNone then .error .tooLarge
    else if shape.needsUnicodeWords then .error .undecidable
    else if (shape.automaton? .backward).isNone then .error .tooLarge
    else .ok { shape }

/-- Whether the pattern matches somewhere in a message. -/
def isFoundIn (p : MessagePattern) (message : String) : Bool :=
  p.shape.occursIn message.toList.toArray

end MessagePattern

end ByteRegex
