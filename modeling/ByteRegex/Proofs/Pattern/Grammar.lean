import ByteRegex.Proofs.Pattern.Reads

/-!
# A grammar of patterns

A second way to read a pattern: by rules that call each other, one for each kind
of item. A rule is given what is left of a text. It reads a value from the front
of it, or it declines, and then another rule may be tried at the same place, or it
fails, and then so does the whole text, whatever rules are left to try. A sequence
is read by one rule as often as it does not decline, so a sequence never says what
stopped it; that is found out by whoever finds something behind it that should not
be there.

Groups are numbered by a count that all rules share. What a rule has counted stays
counted also if it declines.
-/

namespace ByteRegex

namespace Grammar

/-- What a rule makes of what is left of a text. -/
inductive Answer (α : Type) where
  /-- A value, what is left behind it, and the groups counted so far. -/
  | done (value : α) (rest : List UInt8) (groups : Nat)
  /-- No value begins here that this rule reads. -/
  | declined (rest : List UInt8) (groups : Nat)
  /-- The text is no pattern, because of what begins here. -/
  | failed (rest : List UInt8) (cause : Nat → PatternError)

def Rule (α : Type) :=
  List UInt8 → Nat → Answer α

def Answer.andThen {α β : Type} (a : Answer α) (f : α → Rule β) : Answer β :=
  match a with
  | .done value rest groups => f value rest groups
  | .declined rest groups => .declined rest groups
  | .failed rest cause => .failed rest cause

instance : Monad Rule where
  pure value := fun input groups => .done value input groups
  bind p f := fun input groups => (p input groups).andThen f

/-! ## Rules from rules -/

namespace Rule

variable {α : Type}

/-- The second rule, where the first one declines. -/
def orElse (p q : Rule α) : Rule α := fun input groups =>
  match p input groups with
  | .declined _ groups => q input groups
  | a => a

/-- Declines never, but reads nothing where `p` declines. -/
def optional (p : Rule α) : Rule (Option α) := fun input groups =>
  match p input groups with
  | .done value rest groups => .done (some value) rest groups
  | .declined _ groups => .done none input groups
  | .failed rest cause => .failed rest cause

/-- Reads as many values as `p` reads in a row. It declines if one of them takes
nothing from the text, since there would be no end of them. -/
def many (p : Rule α) : Rule (List α) := fun input groups =>
  match p input groups with
  | .done value rest groups =>
    if rest.length < input.length then
      (many p rest groups).andThen fun others => pure (value :: others)
    else .declined input groups
  | .declined _ groups => .done [] input groups
  | .failed rest cause => .failed rest cause
termination_by input => input.length

/-- Fails where `p` declines, because of what begins at `start`. -/
def orFail (p : Rule α) (start : List UInt8) (cause : Nat → PatternError) : Rule α :=
  fun input groups =>
    match p input groups with
    | .done value rest groups => .done value rest groups
    | _ => .failed start cause

/-- Declines where the value that `p` reads does not pass a test. -/
def verify (p : Rule α) (test : α → Bool) : Rule α := fun input groups =>
  match p input groups with
  | .done value rest counted =>
    if test value then .done value rest counted else .declined input counted
  | a => a

end Rule

/-! ## Bytes -/

def anyByte : Rule UInt8 := fun input groups =>
  match input with
  | b :: rest => .done b rest groups
  | [] => .declined [] groups

def byte (c : Char) : Rule UInt8 :=
  anyByte.verify (· == c.toUInt8)

/-- The bytes before the first `c`, all if there is none. -/
def bytesUpTo (c : Char) : Rule (List UInt8) := fun input groups =>
  .done (input.takeWhile (· ≠ c.toUInt8)) (input.dropWhile (· ≠ c.toUInt8)) groups

def endOfText : Rule Unit := fun input groups =>
  match input with
  | [] => .done () [] groups
  | b :: rest => .declined (b :: rest) groups

/-- The number of the next group, which is counted. -/
def newGroup : Rule Nat := fun input groups =>
  .done (groups + 1) input (groups + 1)

/-! ## Items -/

/-- The alternatives behind the first one, given the rule for an alternative. -/
def laterBranches (sequence : Rule (List Item)) : Rule (List (List Item)) :=
  (do
    let _ ← byte '|'
    sequence : Rule (List Item)).many

def group (sequence : Rule (List Item)) : Rule Item := fun start groups =>
  (do
    let _ ← byte '('
    let number ← newGroup
    let first ← sequence
    let others ← laterBranches sequence
    let _ ← (byte ')').orFail start .unbalancedGroup
    return .group number (first :: others) : Rule Item) start groups

def charClass : Rule Item := fun start groups =>
  (do
    let _ ← byte '['
    let caret ← (byte '^').optional
    let written ← bytesUpTo ']'
    let _ ← (byte ']').orFail start .unterminatedClass
    return .oneOf written caret.isSome : Rule Item) start groups

def escaped : Rule Item := do
  let _ ← byte '\\'
  match ← anyByte.optional with
  | none => return .byte '\\'.toUInt8
  | some b => return .ofEscaped b

def dot : Rule Item := do
  let _ ← byte '.'
  return .any

def endAnchor : Rule Item := do
  let _ ← byte '$'
  endOfText
  return .endAnchor

/-- Any byte is a literal where no other rule reads it, but for the two that end
a sequence. -/
def literal : Rule Item := do
  let b ← anyByte.verify fun b => b != ')'.toUInt8 && b != '|'.toUInt8
  return .byte b

def atom (sequence : Rule (List Item)) : Rule Item :=
  (group sequence).orElse (charClass.orElse (escaped.orElse (dot.orElse
    (endAnchor.orElse literal))))

def mark (c : Char) (q : Quantifier) : Rule Quantifier := do
  let _ ← byte c
  return q

def quantifier : Rule Quantifier :=
  (mark '*' .star).orElse ((mark '+' .plus).orElse (mark '?' .optional))

def quantified (sequence : Rule (List Item)) : Rule Item := do
  let base ← atom sequence
  if base.isQuantifiable then
    match ← quantifier.optional with
    | some q => return .quantified q base
    | none => return base
  else return base

/-- Items with fewer than `depth` groups inside each other. -/
def sequence : (depth : Nat) → Rule (List Item)
  | 0 => fun input groups => .declined input groups
  | depth + 1 => (quantified (sequence depth)).many

/-! ## Texts -/

/-- Reads the last bytes, `body`, of a text of `size` bytes. They hold fewer groups
inside each other than bytes. -/
def patternFrom (matchStart : Bool) (size : Nat) (body : List UInt8) :
    Except PatternError Pattern :=
  match sequence (body.length + 1) body 0 with
  | .done items [] groups => .ok { matchStart, items, groups }
  | .done _ rest _ | .declined rest _ => .error (.unbalancedGroup (size - rest.length))
  | .failed rest cause => .error (cause (size - rest.length))

def pattern : List UInt8 → Except PatternError Pattern
  | [] => .error .empty
  | b :: rest =>
    if b = '^'.toUInt8 then patternFrom true (b :: rest).length rest
    else patternFrom false (b :: rest).length (b :: rest)

/-! ## Equations of rules -/

section Bytes

variable {α β : Type} {p q : Rule α} {f : α → Rule β} {input rest : List UInt8} {groups : Nat}

theorem bind_of_done {a : α} {counted : Nat} (h : p input groups = .done a rest counted) :
    (p >>= f) input groups = f a rest counted := by
  change (p input groups).andThen f = _
  rw [h]
  rfl

theorem bind_of_declined {counted : Nat} (h : p input groups = .declined rest counted) :
    (p >>= f) input groups = .declined rest counted := by
  change (p input groups).andThen f = _
  rw [h]
  rfl

theorem bind_of_failed {cause : Nat → PatternError} (h : p input groups = .failed rest cause) :
    (p >>= f) input groups = .failed rest cause := by
  change (p input groups).andThen f = _
  rw [h]
  rfl

theorem orElse_of_declined {counted : Nat} (h : p input groups = .declined rest counted) :
    (p.orElse q) input groups = q input counted := by
  rw [Rule.orElse, h]

theorem many_of_done {a : α} {counted : Nat} (h : p input groups = .done a rest counted)
    (hshorter : rest.length < input.length) :
    p.many input groups = (p.many rest counted).andThen fun others => pure (a :: others) := by
  rw [Rule.many, h]
  exact if_pos hshorter

theorem many_of_declined {counted : Nat} (h : p input groups = .declined rest counted) :
    p.many input groups = .done [] input counted := by
  rw [Rule.many, h]

theorem many_of_failed {cause : Nat → PatternError} (h : p input groups = .failed rest cause) :
    p.many input groups = .failed rest cause := by
  rw [Rule.many, h]

variable {c : Char} {s : Sign} {b : UInt8}

theorem byte_self : byte c (c.toUInt8 :: rest) groups = .done c.toUInt8 rest groups := by
  simp [byte, Rule.verify, anyByte]

theorem byte_of_ne (h : b ≠ c.toUInt8) :
    byte c (b :: rest) groups = .declined (b :: rest) groups := by
  simp [byte, Rule.verify, anyByte, h]

theorem byte_of_other_sign (hc : s.byte? = some c.toUInt8) (h : Sign.ofByte b ≠ s) :
    byte c (b :: rest) groups = .declined (b :: rest) groups :=
  byte_of_ne fun heq => h ((Sign.ofByte_eq_iff hc).mpr heq)

/-- Where there is no byte left, no item is read. -/
theorem atom_nil (sequence : Rule (List Item)) :
    atom sequence [] groups = .declined [] groups := rfl

/-- A rule for items that begin with a sign declines where there is no such sign. -/
theorem bind_byte_of_other_sign {f : UInt8 → Rule β} (hc : s.byte? = some c.toUInt8)
    (h : Sign.ofByte b ≠ s) :
    (byte c >>= f) (b :: rest) groups = .declined (b :: rest) groups :=
  bind_of_declined (byte_of_other_sign hc h)

theorem group_of_other_sign {sequence : Rule (List Item)} (h : Sign.ofByte b ≠ .openGroup) :
    group sequence (b :: rest) groups = .declined (b :: rest) groups :=
  bind_byte_of_other_sign rfl h

theorem charClass_of_other_sign (h : Sign.ofByte b ≠ .openClass) :
    charClass (b :: rest) groups = .declined (b :: rest) groups :=
  bind_byte_of_other_sign rfl h

theorem escaped_of_other_sign (h : Sign.ofByte b ≠ .escape) :
    escaped (b :: rest) groups = .declined (b :: rest) groups :=
  bind_byte_of_other_sign rfl h

theorem dot_of_other_sign (h : Sign.ofByte b ≠ .dot) :
    dot (b :: rest) groups = .declined (b :: rest) groups :=
  bind_byte_of_other_sign rfl h

theorem endAnchor_of_other_sign (h : Sign.ofByte b ≠ .dollar) :
    endAnchor (b :: rest) groups = .declined (b :: rest) groups :=
  bind_byte_of_other_sign rfl h

/-- Before the end of a text a dollar is no anchor. -/
theorem endAnchor_of_not_last (b : UInt8) :
    endAnchor ('$'.toUInt8 :: b :: rest) groups = .declined (b :: rest) groups :=
  (bind_of_done byte_self).trans (bind_of_declined rfl)

theorem literal_of_end (h : Sign.ofByte b = .closeGroup ∨ Sign.ofByte b = .bar) :
    literal (b :: rest) groups = .declined (b :: rest) groups := by
  refine bind_of_declined ?_
  rcases h with h | h
  · obtain rfl := (Sign.ofByte_eq_iff rfl).mp h
    rfl
  · obtain rfl := (Sign.ofByte_eq_iff rfl).mp h
    rfl

theorem literal_of_sign (hclose : Sign.ofByte b ≠ .closeGroup) (hbar : Sign.ofByte b ≠ .bar) :
    literal (b :: rest) groups = .done (.byte b) rest groups := by
  have hb : b ≠ ')'.toUInt8 := fun heq => hclose ((Sign.ofByte_eq_iff rfl).mpr heq)
  have hb' : b ≠ '|'.toUInt8 := fun heq => hbar ((Sign.ofByte_eq_iff rfl).mpr heq)
  refine bind_of_done (a := b) ?_
  simp [Rule.verify, anyByte, hb, hb']

end Bytes

theorem quantifier_of_other_sign {b : UInt8} {rest : List UInt8} {groups : Nat}
    (h : ∀ q, Sign.ofByte b ≠ .quantifier q) :
    quantifier (b :: rest) groups = .declined (b :: rest) groups := by
  have hmark : ∀ {c : Char} {q : Quantifier},
      (Sign.quantifier q).byte? = some c.toUInt8 →
        mark c q (b :: rest) groups = .declined (b :: rest) groups :=
    fun {_ q} hc => bind_byte_of_other_sign hc (h q)
  rw [quantifier, orElse_of_declined (hmark rfl), orElse_of_declined (hmark rfl), hmark rfl]

/-- A quantifier is read where one comes next. -/
theorem optional_quantifier (input : List UInt8) (groups : Nat) :
    (∃ b rest q, input = b :: rest ∧ Sign.ofByte b = .quantifier q ∧
      quantifier.optional input groups = .done (some q) rest groups) ∨
    ((∀ b ∈ input.head?, ∀ q, Sign.ofByte b ≠ .quantifier q) ∧
      quantifier.optional input groups = .done none input groups) := by
  cases input with
  | nil =>
      refine .inr ⟨fun b hb => ?_, rfl⟩
      cases hb
  | cons b rest =>
      by_cases h : ∃ q, Sign.ofByte b = .quantifier q
      · obtain ⟨q, hsign⟩ := h
        refine .inl ⟨b, rest, q, rfl, hsign, ?_⟩
        cases q with
        | optional | star | plus =>
            obtain rfl := (Sign.ofByte_eq_iff rfl).mp hsign
            rfl
      · have hnone : ∀ q, Sign.ofByte b ≠ .quantifier q := fun q hq => h ⟨q, hq⟩
        refine .inr ⟨fun c hc => ?_, ?_⟩
        · obtain rfl : b = c := Option.some.inj hc
          exact hnone
        · rw [Rule.optional, quantifier_of_other_sign hnone]

end Grammar

end ByteRegex
