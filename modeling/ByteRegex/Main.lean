import ByteRegex.Command.Basic

/-!
# The program

Reads the first line of the standard input, if it is needed at all, and does
what the command answers.
-/

namespace ByteRegex

/-- Reads up to the first newline or to the end of the stream; a few bytes
after the newline may be read too. -/
partial def readInput (stream : IO.FS.Stream) (before : ByteArray) : IO ByteArray := do
  let chunk ← stream.read 4096
  if chunk.isEmpty then return before
  let bytes := before ++ chunk
  if chunk.toList.contains '\n'.toUInt8 then return bytes
  readInput stream bytes

end ByteRegex

open ByteRegex in
def main (arguments : List String) : IO UInt32 := do
  let arguments := arguments.map fun a => a.toUTF8.toList
  let filter ← IO.getEnv "MYGREP_DEBUG_LOG"
  let input ←
    match Request.ofArguments arguments with
    | .ok (.search _) => readInput (← IO.getStdin) .empty
    | _ => pure .empty
  let response := Command.respond arguments input.toList filter
  (← IO.getStdout).putStr response.stdout
  (← IO.getStderr).putStr response.stderr
  return response.code.toUInt32
