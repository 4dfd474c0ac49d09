/-!
# Reading UTF-8

Bytes are read as UTF-8 text by a decoder that takes one byte at a time. What
is not UTF-8 is read as U+FFFD: one for each longest run of bytes that begins a
character but does not complete it, and one for each byte that begins none.
Surrogates, overlong forms and values above U+10FFFF are excluded by the range
of the second byte.

`Utf8.decodeLossy` always answers; `Utf8.decode?` answers only where nothing
had to be replaced.
-/

namespace ByteRegex.Utf8

/-- A character read in part: how many bytes are missing, the bits so far, and
the range of the byte that has to come next. -/
structure Begun where
  missing : Nat
  bits : Nat
  low : UInt8 := 0x80
  high : UInt8 := 0xBF
deriving DecidableEq

/-- What a byte is at the start of a character. -/
inductive Lead where
  | complete (c : Char)
  | begins (p : Begun)
  | invalid
deriving DecidableEq

def Lead.ofByte (b : UInt8) : Lead :=
  if b < 0x80 then .complete (Char.ofUInt8 b)
  else if b < 0xC2 then .invalid
  else if b < 0xE0 then .begins { missing := 1, bits := b.toNat % 32 }
  else if b < 0xF0 then
    .begins {
      missing := 2
      bits := b.toNat % 16
      low := if b = 0xE0 then 0xA0 else 0x80
      high := if b = 0xED then 0x9F else 0xBF }
  else if b < 0xF5 then
    .begins {
      missing := 3
      bits := b.toNat % 8
      low := if b = 0xF0 then 0x90 else 0x80
      high := if b = 0xF4 then 0x8F else 0xBF }
  else .invalid

/-- The character being read, the text before it, latest character first, and
whether nothing was replaced so far. -/
structure Decoder where
  begun : Option Begun := none
  text : List Char := []
  sound : Bool := true
deriving DecidableEq

namespace Decoder

def replacement : Char := '\uFFFD'

/-- Gives up the character being read, if there is one. -/
def abandon (d : Decoder) : Decoder :=
  match d.begun with
  | none => d
  | some _ => { begun := none, text := replacement :: d.text, sound := false }

/-- Reads a byte at the start of a character. -/
def start (d : Decoder) (b : UInt8) : Decoder :=
  match Lead.ofByte b with
  | .complete c => { d with text := c :: d.text }
  | .begins p => { d with begun := some p }
  | .invalid => { d with text := replacement :: d.text, sound := false }

def push (d : Decoder) (b : UInt8) : Decoder :=
  match d.begun with
  | none => d.start b
  | some p =>
    if p.low ≤ b ∧ b ≤ p.high then
      let bits := p.bits * 64 + b.toNat % 64
      if p.missing = 1 then { d with begun := none, text := Char.ofNat bits :: d.text }
      else { d with begun := some { missing := p.missing - 1, bits } }
    else d.abandon.start b

end Decoder

/-- The decoder after all bytes, with nothing pending. -/
def run (bytes : List UInt8) : Decoder :=
  (bytes.foldl Decoder.push {}).abandon

def decodeLossy (bytes : List UInt8) : String :=
  String.ofList (run bytes).text.reverse

/-- The text of bytes that are UTF-8. -/
def decode? (bytes : List UInt8) : Option String :=
  if (run bytes).sound then some (String.ofList (run bytes).text.reverse) else none

end ByteRegex.Utf8
