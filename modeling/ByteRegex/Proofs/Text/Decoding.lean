import ByteRegex.Text.Utf8
import ByteRegex.Proofs.Text.Encoding

/-!
# Reading what was written

The decoder reads the bytes of a character as that character, whatever it has read
before. So it reads the bytes of a text as the text, and nothing is replaced.
-/

namespace ByteRegex.Utf8

namespace Lead

theorem ofByte_one {c : Char} (h : c.toNat < 0x80) :
    ofByte (UInt8.ofNat c.toNat) = .complete c := by
  have hbyte : (UInt8.ofNat c.toNat).toNat = c.toNat := toNat_ofNat (by omega)
  have hchar : Char.ofUInt8 (UInt8.ofNat c.toNat) = c := by
    apply Char.ext
    apply UInt32.toNat_inj.mp
    change (UInt8.ofNat c.toNat).toUInt32.toNat = c.toNat
    rw [UInt8.toNat_toUInt32, hbyte]
  unfold ofByte
  simp only [UInt8.lt_iff_toNat_lt, hbyte]
  rw [if_pos (by simpa using h), hchar]

theorem ofByte_two {b : UInt8} (hlow : 0xC2 ≤ b.toNat) (hhigh : b.toNat < 0xE0) :
    ofByte b = .begins { missing := 1, bits := b.toNat % 32 } := by
  unfold ofByte
  simp only [UInt8.lt_iff_toNat_lt]
  rw [if_neg (by simp; omega), if_neg (by simp; omega), if_pos (by simpa using hhigh)]

theorem ofByte_three {b : UInt8} (hlow : 0xE0 ≤ b.toNat) (hhigh : b.toNat < 0xF0) :
    ofByte b = .begins {
      missing := 2
      bits := b.toNat % 16
      low := if b = 0xE0 then 0xA0 else 0x80
      high := if b = 0xED then 0x9F else 0xBF } := by
  unfold ofByte
  simp only [UInt8.lt_iff_toNat_lt]
  rw [if_neg (by simp; omega), if_neg (by simp; omega), if_neg (by simp; omega),
    if_pos (by simpa using hhigh)]

theorem ofByte_four {b : UInt8} (hlow : 0xF0 ≤ b.toNat) (hhigh : b.toNat < 0xF5) :
    ofByte b = .begins {
      missing := 3
      bits := b.toNat % 8
      low := if b = 0xF0 then 0x90 else 0x80
      high := if b = 0xF4 then 0x8F else 0xBF } := by
  unfold ofByte
  simp only [UInt8.lt_iff_toNat_lt]
  rw [if_neg (by simp; omega), if_neg (by simp; omega), if_neg (by simp; omega),
    if_neg (by simp; omega), if_pos (by simpa using hhigh)]

end Lead

namespace Decoder

variable {d : Decoder} {p : Begun} {b : UInt8}

theorem push_begins (hd : d.begun = none) (h : Lead.ofByte b = .begins p) :
    d.push b = { d with begun := some p } := by
  unfold push start
  rw [hd, h]

/-- A byte in the range of the one that has to come next is taken. -/
theorem push_next (hd : d.begun = some p) (hmissing : p.missing ≠ 1)
    (hlow : p.low.toNat ≤ b.toNat) (hhigh : b.toNat ≤ p.high.toNat) :
    d.push b = { d with
      begun := some { missing := p.missing - 1, bits := p.bits * 64 + b.toNat % 64 } } := by
  unfold push
  rw [hd]
  dsimp only
  rw [if_pos ⟨UInt8.le_iff_toNat_le.mpr hlow, UInt8.le_iff_toNat_le.mpr hhigh⟩, if_neg hmissing]

/-- The last byte of a character completes it. -/
theorem push_last (hd : d.begun = some p) (hmissing : p.missing = 1)
    (hlow : p.low.toNat ≤ b.toNat) (hhigh : b.toNat ≤ p.high.toNat) {c : Char}
    (hbits : p.bits * 64 + b.toNat % 64 = c.toNat) :
    d.push b = { d with begun := none, text := c :: d.text } := by
  unfold push
  rw [hd]
  dsimp only
  rw [if_pos ⟨UInt8.le_iff_toNat_le.mpr hlow, UInt8.le_iff_toNat_le.mpr hhigh⟩, if_pos hmissing,
    hbits, Char.ofNat_toNat]

/-- A character of three bytes is neither overlong nor a surrogate. -/
theorem second_of_three {c : Char} {x y : UInt8} (hlow : 0x800 ≤ c.toNat)
    (hx : x.toNat = c.toNat / 4096 + 0xE0) (hy : y.toNat = c.toNat / 64 % 64 + 0x80) :
    (if x = 0xE0 then 0xA0 else 0x80 : UInt8).toNat ≤ y.toNat ∧
      y.toNat ≤ (if x = 0xED then 0x9F else 0xBF : UInt8).toNat := by
  have hvalid := char_valid c
  constructor
  · by_cases h : x = 0xE0
    · rw [h] at hx
      rw [if_pos h, hy]
      simp at hx ⊢
      omega
    · rw [if_neg h, hy]
      exact Nat.le_add_left _ _
  · by_cases h : x = 0xED
    · rw [h] at hx
      rw [if_pos h, hy]
      simp at hx ⊢
      omega
    · rw [if_neg h, hy]
      simp
      omega

/-- A character of four bytes is not overlong and no more than the greatest one. -/
theorem second_of_four {c : Char} {x y : UInt8} (hlow : 0x10000 ≤ c.toNat)
    (hx : x.toNat = c.toNat / 262144 + 0xF0) (hy : y.toNat = c.toNat / 4096 % 64 + 0x80) :
    (if x = 0xF0 then 0x90 else 0x80 : UInt8).toNat ≤ y.toNat ∧
      y.toNat ≤ (if x = 0xF4 then 0x8F else 0xBF : UInt8).toNat := by
  have hvalid := char_valid c
  constructor
  · by_cases h : x = 0xF0
    · rw [h] at hx
      rw [if_pos h, hy]
      simp at hx ⊢
      omega
    · rw [if_neg h, hy]
      exact Nat.le_add_left _ _
  · by_cases h : x = 0xF4
    · rw [h] at hx
      rw [if_pos h, hy]
      simp at hx ⊢
      omega
    · rw [if_neg h, hy]
      simp
      omega

/-- The bytes of a character are read as the character. -/
theorem foldl_push_char (hd : d.begun = none) (c : Char) :
    (String.utf8EncodeChar c).foldl push d = { d with text := c :: d.text } := by
  rcases utf8EncodeChar_cases c with ⟨hone, hbytes⟩ | ⟨x, y, hbytes, hlow, hhigh, hx, hy⟩ |
    ⟨x, y, z, hbytes, hlow, hhigh, hx, hy, hz⟩ | ⟨x, y, z, u, hbytes, hlow, hhigh, hx, hy, hz, hu⟩
  · rw [hbytes, List.foldl_cons, List.foldl_nil]
    unfold push start
    rw [hd, Lead.ofByte_one hone]
  · rw [hbytes, List.foldl_cons, List.foldl_cons, List.foldl_nil,
      push_begins hd (Lead.ofByte_two (by omega) (by omega)),
      push_last (c := c) rfl rfl (by simp; omega) (by simp; omega) (by simp; omega)]
    simp [hd]
  · obtain ⟨hleast, hgreatest⟩ := second_of_three hlow hx hy
    rw [hbytes, List.foldl_cons, List.foldl_cons, List.foldl_cons, List.foldl_nil,
      push_begins hd (Lead.ofByte_three (by omega) (by omega)),
      push_next (b := y) rfl (by simp) hleast hgreatest,
      push_last (c := c) rfl rfl (by simp; omega) (by simp; omega) (by simp; omega)]
    simp [hd]
  · obtain ⟨hleast, hgreatest⟩ := second_of_four hlow hx hy
    rw [hbytes, List.foldl_cons, List.foldl_cons, List.foldl_cons, List.foldl_cons, List.foldl_nil,
      push_begins hd (Lead.ofByte_four (by omega) (by omega)),
      push_next (b := y) rfl (by simp) hleast hgreatest,
      push_next (b := z) rfl (by simp) (by simp; omega) (by simp; omega),
      push_last (c := c) rfl rfl (by simp; omega) (by simp; omega) (by simp; omega)]
    simp [hd]

/-- The bytes of a text are read as the text. -/
theorem foldl_push_chars (hd : d.begun = none) (cs : List Char) :
    (cs.flatMap String.utf8EncodeChar).foldl push d =
      { d with text := cs.reverse ++ d.text } := by
  induction cs generalizing d with
  | nil => rfl
  | cons c rest ih =>
      have hrest := ih (d := { d with text := c :: d.text }) hd
      rw [List.flatMap_cons, List.foldl_append, foldl_push_char hd, hrest, List.reverse_cons,
        List.append_assoc, List.singleton_append]

end Decoder

/-- Nothing is replaced in the bytes of a text. -/
theorem run_chars (cs : List Char) :
    run (cs.flatMap String.utf8EncodeChar) = { text := cs.reverse } := by
  rw [run, Decoder.foldl_push_chars rfl cs, List.append_nil]
  rfl

theorem decodeLossy_chars (cs : List Char) :
    decodeLossy (cs.flatMap String.utf8EncodeChar) = String.ofList cs := by
  rw [decodeLossy, run_chars, List.reverse_reverse]

theorem decode?_chars (cs : List Char) :
    decode? (cs.flatMap String.utf8EncodeChar) = some (String.ofList cs) := by
  rw [decode?, run_chars, if_pos rfl, List.reverse_reverse]

end ByteRegex.Utf8
