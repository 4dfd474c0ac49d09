import ByteRegex.Pattern.Reader

/-!
# What reading a byte does

`Draft.Reads` has one constructor for each thing that a byte can do to a draft,
with the condition under which it does it. Whatever holds of every draft is
proved over these cases, and `feed_keeps` carries it through a text. Only at its
last byte can a text put an end anchor, so for what an end anchor would break
there is `feed_keeps_but_last`.
-/

namespace ByteRegex

/-! ## Signs -/

namespace Sign

/-- The byte that a sign is written as; a plain byte may be any other. -/
def byte? : Sign → Option UInt8
  | openGroup => some '('.toUInt8
  | closeGroup => some ')'.toUInt8
  | bar => some '|'.toUInt8
  | openClass => some '['.toUInt8
  | escape => some '\\'.toUInt8
  | dot => some '.'.toUInt8
  | dollar => some '$'.toUInt8
  | quantifier .optional => some '?'.toUInt8
  | quantifier .star => some '*'.toUInt8
  | quantifier .plus => some '+'.toUInt8
  | plain => none

theorem byte?_eq_none_iff {sign : Sign} : sign.byte? = none ↔ sign = plain := by
  cases sign with
  | quantifier q => cases q <;> simp [byte?]
  | _ => simp [byte?]

/-- All signs are ASCII. -/
theorem toNat_lt_of_byte? {sign : Sign} {b : UInt8} (h : sign.byte? = some b) :
    b.toNat < 0x80 := by
  cases sign with
  | quantifier q =>
      cases q <;> cases h <;> decide
  | plain => cases h
  | _ =>
      cases h
      decide

/-- A sign can be told from its byte. -/
theorem ofByte_eq_of_byte? {sign : Sign} {b : UInt8} (h : sign.byte? = some b) :
    ofByte b = sign := by
  cases sign with
  | quantifier q =>
      cases q <;> cases h <;> decide
  | plain => cases h
  | _ =>
      cases h
      decide

/-- The byte can be told from its sign. -/
theorem byte?_ofByte (b : UInt8) : (ofByte b).byte? = none ∨ (ofByte b).byte? = some b := by
  unfold ofByte
  iterate 10
    refine iteInduction (motive := fun sign => byte? sign = none ∨ byte? sign = some b)
      (fun h => .inr (congrArg some h.symm)) fun _ => ?_
  exact .inl rfl

theorem ofByte_eq_iff {sign : Sign} {c : UInt8} (h : sign.byte? = some c) {b : UInt8} :
    ofByte b = sign ↔ b = c := by
  constructor
  · rintro rfl
    rcases byte?_ofByte b with hnone | hsome
    · rw [hnone] at h
      cases h
    · exact Option.some.inj (hsome.symm.trans h)
  · rintro rfl
    exact ofByte_eq_of_byte? h

end Sign

/-! ## Bytes -/

namespace Draft

/-- There is nothing that a quantifier could apply to. -/
def Settled (d : Draft) : Prop :=
  ∀ item ∈ d.items.head?, item.isQuantifiable = false

/-- What the byte `b` at `offset` may make of a draft. -/
inductive Reads (d : Draft) (offset : Nat) (b : UInt8) (isLast : Bool) : Draft → Prop
  | openGroup (phase : d.phase = .plain) (sign : Sign.ofByte b = .openGroup) :
      Reads d offset b isLast (d.openGroup offset)
  | closeGroup (phase : d.phase = .plain) (sign : Sign.ofByte b = .closeGroup)
      (g : OpenGroup) (outer : List OpenGroup) (enclosing : d.enclosing = g :: outer) :
      Reads d offset b isLast
        { d with
          items := .group g.number (d.items.reverse :: g.branches).reverse :: g.before
          enclosing := outer }
  | nextBranch (phase : d.phase = .plain) (sign : Sign.ofByte b = .bar)
      (g : OpenGroup) (outer : List OpenGroup) (enclosing : d.enclosing = g :: outer) :
      Reads d offset b isLast
        { d with
          items := []
          enclosing := { g with branches := d.items.reverse :: g.branches } :: outer }
  | openClass (phase : d.phase = .plain) (sign : Sign.ofByte b = .openClass) :
      Reads d offset b isLast { d with phase := .classStart offset }
  | escape (phase : d.phase = .plain) (sign : Sign.ofByte b = .escape) :
      Reads d offset b isLast { d with phase := .escaped }
  | any (phase : d.phase = .plain) (sign : Sign.ofByte b = .dot) :
      Reads d offset b isLast (d.push .any)
  | endAnchor (phase : d.phase = .plain) (sign : Sign.ofByte b = .dollar)
      (last : isLast = true) : Reads d offset b isLast (d.push .endAnchor)
  | quantify (phase : d.phase = .plain) (q : Quantifier)
      (sign : Sign.ofByte b = .quantifier q) (item : Item) (earlier : List Item)
      (items : d.items = item :: earlier) (applies : item.isQuantifiable = true) :
      Reads d offset b isLast { d with items := .quantified q item :: earlier }
  | literal (phase : d.phase = .plain)
      (sign : Sign.ofByte b = .plain ∨ (Sign.ofByte b = .dollar ∧ isLast = false) ∨
        ∃ q, Sign.ofByte b = .quantifier q ∧ d.Settled) :
      Reads d offset b isLast (d.push (.byte b))
  | escaped (phase : d.phase = .escaped) : Reads d offset b isLast (d.push (.ofEscaped b))
  | negate (opened : Nat) (phase : d.phase = .classStart opened) (caret : b = '^'.toUInt8) :
      Reads d offset b isLast { d with phase := .classBody opened true [] }
  | emptyClass (opened : Nat) (phase : d.phase = .classStart opened)
      (bracket : b = ']'.toUInt8) : Reads d offset b isLast (d.push (.oneOf [] false))
  | firstMember (opened : Nat) (phase : d.phase = .classStart opened)
      (caret : b ≠ '^'.toUInt8) (bracket : b ≠ ']'.toUInt8) :
      Reads d offset b isLast { d with phase := .classBody opened false [b] }
  | endClass (opened : Nat) (negated : Bool) (written : List UInt8)
      (phase : d.phase = .classBody opened negated written) (bracket : b = ']'.toUInt8) :
      Reads d offset b isLast (d.push (.oneOf written.reverse negated))
  | member (opened : Nat) (negated : Bool) (written : List UInt8)
      (phase : d.phase = .classBody opened negated written) (bracket : b ≠ ']'.toUInt8) :
      Reads d offset b isLast { d with phase := .classBody opened negated (b :: written) }

/-- A quantifier applies to the latest item, or there is none it applies to. -/
theorem quantify_cases (d : Draft) (q : Quantifier) (b : UInt8) :
    (d.Settled ∧ d.quantify q b = d.push (.byte b)) ∨
      ∃ item earlier, d.items = item :: earlier ∧ item.isQuantifiable = true ∧
        d.quantify q b = { d with items := .quantified q item :: earlier } := by
  unfold quantify Settled
  cases hitems : d.items with
  | nil => simp
  | cons item earlier =>
      cases happlies : item.isQuantifiable with
      | false => simp [happlies]
      | true =>
          right
          exact ⟨item, earlier, rfl, happlies, by simp [happlies]⟩

theorem step_classStart {d : Draft} {opened : Nat} (hphase : d.phase = .classStart opened)
    (offset : Nat) (b : UInt8) (isLast : Bool) :
    d.step offset b isLast =
      if b = '^'.toUInt8 then .ok { d with phase := .classBody opened true [] }
      else if b = ']'.toUInt8 then .ok (d.push (.oneOf [] false))
      else .ok { d with phase := .classBody opened false [b] } := by
  simp only [step, hphase]

theorem step_classBody {d : Draft} {opened : Nat} {negated : Bool} {seen : List UInt8}
    (hphase : d.phase = .classBody opened negated seen) (offset : Nat) (b : UInt8)
    (isLast : Bool) :
    d.step offset b isLast =
      if b = ']'.toUInt8 then .ok (d.push (.oneOf seen.reverse negated))
      else .ok { d with phase := .classBody opened negated (b :: seen) } := by
  simp only [step, hphase]

theorem reads_of_step_plain {d d' : Draft} {offset : Nat} {b : UInt8} {isLast : Bool}
    (hphase : d.phase = .plain) (h : d.step offset b isLast = .ok d') :
    d.Reads offset b isLast d' := by
  unfold step at h
  rw [hphase] at h
  dsimp only at h
  cases hsign : Sign.ofByte b with
  | openGroup =>
      rw [hsign] at h
      cases h
      exact .openGroup hphase hsign
  | closeGroup =>
      rw [hsign] at h
      unfold closeGroup? at h
      cases henclosing : d.enclosing with
      | nil => simp [henclosing] at h
      | cons g outer =>
          simp only [henclosing] at h
          cases h
          exact .closeGroup hphase hsign g outer henclosing
  | bar =>
      rw [hsign] at h
      unfold nextBranch? at h
      cases henclosing : d.enclosing with
      | nil => simp [henclosing] at h
      | cons g outer =>
          simp only [henclosing] at h
          cases h
          exact .nextBranch hphase hsign g outer henclosing
  | openClass =>
      rw [hsign] at h
      cases h
      exact .openClass hphase hsign
  | escape =>
      rw [hsign] at h
      cases h
      exact .escape hphase hsign
  | dot =>
      rw [hsign] at h
      cases h
      exact .any hphase hsign
  | dollar =>
      rw [hsign] at h
      cases isLast with
      | true =>
          cases h
          exact .endAnchor hphase hsign rfl
      | false =>
          cases h
          exact .literal hphase (.inr (.inl ⟨hsign, rfl⟩))
  | quantifier q =>
      rw [hsign] at h
      cases h
      rcases d.quantify_cases q b with ⟨hsettled, heq⟩ | ⟨item, earlier, hitems, happlies, heq⟩
      · rw [heq]
        exact .literal hphase (.inr (.inr ⟨q, hsign, hsettled⟩))
      · rw [heq]
        exact .quantify hphase q hsign item earlier hitems happlies
  | plain =>
      rw [hsign] at h
      cases h
      exact .literal hphase (.inl hsign)

theorem reads_of_step {d d' : Draft} {offset : Nat} {b : UInt8} {isLast : Bool}
    (h : d.step offset b isLast = .ok d') : d.Reads offset b isLast d' := by
  cases hphase : d.phase with
  | plain => exact reads_of_step_plain hphase h
  | escaped =>
      unfold step at h
      rw [hphase] at h
      cases h
      exact .escaped hphase
  | classStart opened =>
      rw [step_classStart hphase] at h
      by_cases hcaret : b = '^'.toUInt8
      · rw [if_pos hcaret] at h
        cases h
        exact .negate opened hphase hcaret
      · rw [if_neg hcaret] at h
        by_cases hbracket : b = ']'.toUInt8
        · rw [if_pos hbracket] at h
          cases h
          exact .emptyClass opened hphase hbracket
        · rw [if_neg hbracket] at h
          cases h
          exact .firstMember opened hphase hcaret hbracket
  | classBody opened negated written =>
      rw [step_classBody hphase] at h
      by_cases hbracket : b = ']'.toUInt8
      · rw [if_pos hbracket] at h
        cases h
        exact .endClass opened negated written hphase hbracket
      · rw [if_neg hbracket] at h
        cases h
        exact .member opened negated written hphase hbracket

/-- What a `$` at the end of a text makes of a draft. -/
theorem Reads.dollar_cases {d d' : Draft} {offset : Nat}
    (h : d.Reads offset '$'.toUInt8 true d') :
    (d.phase = .plain ∧ d' = d.push .endAnchor) ∨
      (d.phase = .escaped ∧ d' = d.push (.byte '$'.toUInt8)) ∨
      ∃ opened negated written, d'.phase = .classBody opened negated written := by
  have hsign : Sign.ofByte '$'.toUInt8 = .dollar := by decide
  cases h with
  | openGroup phase sign | closeGroup phase sign | nextBranch phase sign | openClass phase sign
  | escape phase sign | any phase sign =>
      rw [hsign] at sign
      cases sign
  | endAnchor phase => exact .inl ⟨phase, rfl⟩
  | quantify phase q sign =>
      rw [hsign] at sign
      cases sign
  | literal phase sign => simp [hsign] at sign
  | escaped phase => exact .inr (.inl ⟨phase, rfl⟩)
  | negate opened phase caret => exact absurd caret (by decide)
  | emptyClass opened phase bracket => exact absurd bracket (by decide)
  | firstMember opened => exact .inr (.inr ⟨opened, false, _, rfl⟩)
  | endClass opened negated written phase bracket => exact absurd bracket (by decide)
  | member opened negated written => exact .inr (.inr ⟨opened, negated, _, rfl⟩)

/-- Reading a first byte and then the others. -/
theorem feed_cons_eq_ok {d d' : Draft} {offset : Nat} {b : UInt8} {rest : List UInt8} :
    d.feed offset (b :: rest) = .ok d' ↔
      ∃ d₁, d.step offset b rest.isEmpty = .ok d₁ ∧ d₁.feed (offset + 1) rest = .ok d' := by
  rw [feed_cons]
  cases hstep : d.step offset b rest.isEmpty with
  | error e => simp [Except.bind]
  | ok d₁ => simp [Except.bind]

/-- What every byte keeps, a text keeps. -/
theorem feed_keeps {P : Draft → Prop}
    (hkeep : ∀ d offset b isLast d', P d → d.Reads offset b isLast d' → P d')
    {d d' : Draft} {offset : Nat} {bytes : List UInt8} (hd : P d)
    (h : d.feed offset bytes = .ok d') : P d' := by
  induction bytes generalizing d offset with
  | nil =>
      cases h
      exact hd
  | cons b rest ih =>
      obtain ⟨d₁, hstep, hrest⟩ := feed_cons_eq_ok.mp h
      exact ih (hkeep d offset b rest.isEmpty d₁ hd (reads_of_step hstep)) hrest

/-- What every byte but the last keeps, of the draft and of the bytes read so
far, holds before the last byte is read. -/
theorem feed_keeps_but_last {P : List UInt8 → Draft → Prop}
    (hkeep : ∀ seen d offset b d', P seen d → d.Reads offset b false d' → P (seen ++ [b]) d')
    (seen : List UInt8) {d d' : Draft} {offset : Nat} {bytes : List UInt8} (hd : P seen d)
    (hbytes : bytes ≠ []) (h : d.feed offset bytes = .ok d') :
    ∃ before b d₁ last, bytes = before ++ [b] ∧ P (seen ++ before) d₁ ∧
      d₁.Reads last b true d' := by
  induction bytes generalizing seen d offset with
  | nil => exact absurd rfl hbytes
  | cons b rest ih =>
      obtain ⟨d₁, hstep, hrest⟩ := feed_cons_eq_ok.mp h
      cases rest with
      | nil =>
          cases hrest
          refine ⟨[], b, d, offset, rfl, ?_, reads_of_step hstep⟩
          rwa [List.append_nil]
      | cons c others =>
          obtain ⟨before, last, d₂, at₂, hsplit, hkept, hreads⟩ :=
            ih (seen ++ [b]) (hkeep seen d offset b d₁ hd (reads_of_step hstep)) (by simp) hrest
          refine ⟨b :: before, last, d₂, at₂, by rw [hsplit, List.cons_append], ?_, hreads⟩
          rwa [List.append_assoc] at hkept

end Draft

end ByteRegex
