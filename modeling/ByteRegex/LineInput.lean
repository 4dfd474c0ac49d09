/-!
# Reading lines

Input is a list of bytes, of which a line takes the piece up to and including
the first newline, or all that is left. `readLine` gives the line and the input
after it, so that reading another line continues where this one ended.

A line is given without its ending: all newlines and carriage returns at its
end are dropped, however many there are, and none before its last other byte.
-/

namespace ByteRegex

def isLineEnding (b : UInt8) : Bool :=
  b == '\n'.toUInt8 || b == '\r'.toUInt8

/-- The line without the newlines and carriage returns at its end. -/
def trimLineEnding (line : List UInt8) : List UInt8 :=
  (line.reverse.dropWhile isLineEnding).reverse

/-- The bytes up to and including the first newline, and the bytes after it. -/
def splitLine (input : List UInt8) : List UInt8 × List UInt8 :=
  match input.span (· != '\n'.toUInt8) with
  | (piece, []) => (piece, [])
  | (piece, newline :: rest) => (piece ++ [newline], rest)

/-- The first line of the input and the input after it. Where nothing is left,
the line is empty. -/
def readLine (input : List UInt8) : List UInt8 × List UInt8 :=
  let (piece, rest) := splitLine input
  (trimLineEnding piece, rest)

/-- The lines that `count` reads give, one after the other. -/
def readLines : (count : Nat) → List UInt8 → List (List UInt8)
  | 0, _ => []
  | count + 1, input =>
    let (line, rest) := readLine input
    line :: readLines count rest

end ByteRegex
