import ByteRegex.ByteSet
import ByteRegex.Text.Quoted

/-!
# Showing sets of bytes

A set is shown by its members in ascending order, each in printable ASCII, and
all of them as one quoted text. A backslash that stems from a byte is therefore
written twice.
-/

namespace ByteRegex

def ByteSet.display (s : ByteSet) : String :=
  let members := String.ofList (s.toList.flatMap escapeByte)
  s!"ByteSet({quote members})"

end ByteRegex
