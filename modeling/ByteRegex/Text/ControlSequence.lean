import ByteRegex.Text.Utf8

/-!
# Control sequences

A terminal obeys control sequences instead of showing them. Where text does not
go to a terminal they are left out, so that only what would be shown remains.
The scanner follows the states that a terminal goes through while it reads a
sequence; a sequence that is never completed swallows what comes after it. Of
the control characters only blanks are kept. A blank in the middle of a sequence
interrupts it: what follows is shown, until a byte that cannot be shown takes
the sequence up again.

So the library does that the log is shown with. Of its rules, which are written
out for the command alone, only `keep_eq_self` is proved: printable ASCII is
left as it is.
-/

namespace ByteRegex.ControlSequence

def isBetween (low high b : UInt8) : Bool :=
  low ≤ b && b ≤ high

/-- The control characters that are kept. -/
def isKeptControl (b : UInt8) : Bool :=
  b == 0x09 || b == 0x0A || b == 0x0C || b == 0x0D

/-- For the first byte of a character that is shown, how many bytes it has to
come. -/
def bytesToCome? (b : UInt8) : Option Nat :=
  if isKeptControl b || isBetween 0x20 0x7E b then some 0
  else if isBetween 0xC2 0xDF b then some 1
  else if isBetween 0xE0 0xEF b then some 2
  else if isBetween 0xF0 0xF4 b then some 3
  else none

/-- Where a terminal stands within a sequence. -/
inductive Stage where
  | escape
  | escapeIntermediate
  | entry
  | parameter
  | intermediate
  | ignored
  | deviceEntry
  | deviceParameter
  | deviceIntermediate
  | deviceIgnored
  | deviceData
  /-- An operating system command. -/
  | command
  /-- A string that no terminal shows. -/
  | hidden
deriving DecidableEq, Repr

namespace Stage

/-- Whether a control character takes effect in the middle of the sequence. -/
def executes : Stage → Bool
  | escape | escapeIntermediate | entry | parameter | intermediate | ignored => true
  | _ => false

/-- The stage that a byte leads to; `none` after the last byte of the
sequence. -/
def next? (s : Stage) (b : UInt8) : Option Stage :=
  let isIntermediate := isBetween 0x20 0x2F b
  let isParameter := isBetween 0x30 0x3F b
  let isPrivate := isBetween 0x3C 0x3F b
  let isFinal := isBetween 0x40 0x7E b
  match s with
  | escape =>
    if isIntermediate then some escapeIntermediate
    else if b = '['.toUInt8 then some entry
    else if b = ']'.toUInt8 then some command
    else if b = 'P'.toUInt8 then some deviceEntry
    else if b = 'X'.toUInt8 ∨ b = '^'.toUInt8 ∨ b = '_'.toUInt8 then some hidden
    else if isParameter ∨ isFinal then none
    else some escape
  | escapeIntermediate => if isParameter ∨ isFinal then none else some escapeIntermediate
  | entry =>
    if isIntermediate then some intermediate
    else if isParameter then some parameter
    else if isFinal then none
    else some entry
  | parameter =>
    if isIntermediate then some intermediate
    else if isPrivate then some ignored
    else if isFinal then none
    else some parameter
  | intermediate =>
    if isParameter then some ignored
    else if isFinal then none
    else some intermediate
  | ignored => if isFinal then none else some ignored
  | deviceEntry =>
    if isIntermediate then some deviceIntermediate
    else if isParameter then some deviceParameter
    else if isFinal then some deviceData
    else some deviceEntry
  | deviceParameter =>
    if isIntermediate then some deviceIntermediate
    else if isPrivate then some deviceIgnored
    else if isFinal then some deviceData
    else some deviceParameter
  | deviceIntermediate =>
    if isParameter then some deviceIgnored
    else if isFinal then some deviceData
    else some deviceIntermediate
  | deviceIgnored => if b = 0x9C then none else some deviceIgnored
  | deviceData => if b = 0x9C then none else some deviceData
  | hidden => if b = 0x9C then none else some hidden
  | command => if b = 0x07 then none else some command

end Stage

/-- What a terminal is about to read. -/
inductive State where
  | ground
  /-- The rest of a character, of this many bytes. -/
  | character (missing : Nat)
  | within (stage : Stage)
  /-- Text after a blank that interrupted a sequence at a stage. -/
  | interrupted (stage : Stage)
deriving DecidableEq, Repr

namespace State

/-- Outside any sequence after its last byte, and else within it. -/
def ofStage? : Option Stage → State
  | none => ground
  | some stage => within stage

/-- What a byte leads to in the middle of a sequence, and whether it is kept. -/
def advance (stage : Stage) (b : UInt8) : State × Bool :=
  if stage.executes && isKeptControl b then (interrupted stage, true)
  else (ofStage? (stage.next? b), false)

/-- What a byte leads to, and whether it is kept. Two control characters cancel
any sequence, and one begins a new one. -/
def step (s : State) (b : UInt8) : State × Bool :=
  if b = 0x18 ∨ b = 0x1A then (ground, false)
  else if b = 0x1B then (within .escape, false)
  else
    match s with
    | character missing => (if missing ≤ 1 then ground else character (missing - 1), true)
    | within stage => advance stage b
    | ground =>
      match bytesToCome? b with
      | some 0 => (ground, true)
      | some (n + 1) => (character (n + 1), true)
      | none => (ground, false)
    | interrupted stage =>
      match bytesToCome? b with
      | some 0 => (interrupted stage, true)
      | some (n + 1) => (character (n + 1), true)
      | none => advance stage b

end State

/-- A state and the bytes kept so far, latest first. -/
structure Scanner where
  state : State := .ground
  kept : List UInt8 := []
deriving DecidableEq

def Scanner.push (s : Scanner) (b : UInt8) : Scanner :=
  match s.state.step b with
  | (next, true) => { state := next, kept := b :: s.kept }
  | (next, false) => { s with state := next }

/-- The bytes that do not belong to control sequences. -/
def keep (bytes : List UInt8) : List UInt8 :=
  (bytes.foldl Scanner.push {}).kept.reverse

/-- The text without its control sequences. -/
def strip (text : String) : String :=
  Utf8.decodeLossy (keep text.toUTF8.toList)

theorem State.step_ground {b : UInt8} (h : isBetween 0x20 0x7E b = true) :
    ground.step b = (ground, true) := by
  have hb : 0x20 ≤ b.toNat := by
    simp [isBetween, UInt8.le_iff_toNat_le] at h
    exact h.1
  have ne_of_lt {c : UInt8} (hc : c.toNat < 0x20) : b ≠ c := by
    rintro rfl
    omega
  simp [step, bytesToCome?, h, ne_of_lt (c := 0x18) (by decide), ne_of_lt (c := 0x1A) (by decide),
    ne_of_lt (c := 0x1B) (by decide)]

theorem foldl_push_ground {bytes : List UInt8} (h : ∀ b ∈ bytes, isBetween 0x20 0x7E b = true)
    (kept : List UInt8) :
    bytes.foldl Scanner.push { kept } = { kept := bytes.reverse ++ kept } := by
  induction bytes generalizing kept with
  | nil => rfl
  | cons b rest ih =>
    rw [List.foldl_cons, Scanner.push, State.step_ground (h b (by simp))]
    simp [ih fun c hc => h c (by simp [hc])]

/-- Printable ASCII is left as it is. -/
theorem keep_eq_self {bytes : List UInt8} (h : ∀ b ∈ bytes, isBetween 0x20 0x7E b = true) :
    keep bytes = bytes := by
  simp [keep, foldl_push_ground h]

end ByteRegex.ControlSequence
