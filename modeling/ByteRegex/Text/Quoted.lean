import ByteRegex.Text.GraphemeExtend
import ByteRegex.Text.Printable

/-!
# Quoted text

Two ways to write what may not be legible. `quote` puts a text between double
quotes: a backslash goes before a quote and before itself, the usual control
characters get a letter, and everything else that is not legible on its own is
written by code point. `escapeByte` writes one byte in printable ASCII.
-/

namespace ByteRegex

/-- How a character is written between double quotes. A single quote needs no
backslash there. -/
def escapeChar (c : Char) : List Char :=
  if c = '\x00' then ['\\', '0']
  else if c = '\t' then ['\\', 't']
  else if c = '\r' then ['\\', 'r']
  else if c = '\n' then ['\\', 'n']
  else if c = '"' ∨ c = '\\' then ['\\', c]
  else if ' ' ≤ c ∧ c ≤ '~' then [c]
  else if isGraphemeExtend c ∨ ¬ isPrintable c then
    ['\\', 'u', '\x7b'] ++ Nat.toDigits 16 c.toNat ++ ['\x7d']
  else [c]

/-- The text between double quotes. -/
def quote (text : String) : String :=
  String.ofList (['"'] ++ text.toList.flatMap escapeChar ++ ['"'])

/-- How a byte is written in printable ASCII: as itself, with a backslash, or
by its two hexadecimal digits. -/
def escapeByte (b : UInt8) : List Char :=
  let c := Char.ofUInt8 b
  if c = '\t' then ['\\', 't']
  else if c = '\r' then ['\\', 'r']
  else if c = '\n' then ['\\', 'n']
  else if c = '\'' ∨ c = '"' ∨ c = '\\' then ['\\', c]
  else if ' ' ≤ c ∧ c ≤ '~' then [c]
  else ['\\', 'x', Nat.digitChar (b.toNat / 16), Nat.digitChar (b.toNat % 16)]

end ByteRegex
