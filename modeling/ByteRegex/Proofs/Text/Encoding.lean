/-!
# Texts as bytes

The bytes of a text are those of its characters, one after another, so no two
texts have the same bytes and only the empty one has none.
-/

namespace ByteRegex

/-- A loop over an array of bytes yields what is left of the array. -/
theorem toList_loop_eq (bytes : ByteArray) (i : Nat) (seen : List UInt8) :
    ByteArray.toList.loop bytes i seen = seen.reverse ++ bytes.data.toList.drop i := by
  fun_induction ByteArray.toList.loop bytes i seen with
  | case1 i seen h ih =>
      have hsize : i < bytes.data.toList.length := h
      have hbyte : bytes.get! i = bytes.data.toList[i] := by
        rw [Array.getElem_toList]
        exact getElem!_pos bytes.data i h
      rw [ih, List.reverse_cons, List.append_assoc, List.singleton_append,
        List.drop_eq_getElem_cons hsize, hbyte]
  | case2 i seen h =>
      have hsize : bytes.data.toList.length ≤ i := Nat.le_of_not_lt h
      rw [List.drop_of_length_le hsize, List.append_nil]

theorem byteArray_toList (bytes : ByteArray) : bytes.toList = bytes.data.toList := by
  rw [ByteArray.toList, toList_loop_eq]
  rfl

/-- The bytes of a text are the bytes of its characters. -/
theorem toUTF8_toList (text : String) :
    text.toUTF8.toList = text.toList.flatMap String.utf8EncodeChar := by
  rw [byteArray_toList, String.toUTF8_eq_toByteArray, ← String.utf8Encode_toList,
    List.utf8Encode, List.toList_data_toByteArray]

theorem toUTF8_toList_injective {s t : String} (h : s.toUTF8.toList = t.toUTF8.toList) :
    s = t := by
  rw [byteArray_toList, byteArray_toList, Array.toList_inj] at h
  exact String.toByteArray_inj.mp (ByteArray.ext h)

theorem toUTF8_toList_eq_nil_iff {text : String} : text.toUTF8.toList = [] ↔ text = "" := by
  constructor
  · intro h
    exact toUTF8_toList_injective (h.trans (toUTF8_toList "").symm)
  · rintro rfl
    exact toUTF8_toList ""

/-! ## The bytes of a character -/

/-- The value of a byte that is given as a number below 256. -/
theorem toNat_ofNat {n : Nat} (h : n < 256) : (UInt8.ofNat n).toNat = n := by
  rw [UInt8.toNat_ofNat']
  exact Nat.mod_eq_of_lt h

/-- The values that are characters: none from 0xD800 to 0xDFFF, and none from
0x110000 on. -/
theorem char_valid (c : Char) : c.toNat < 0xD800 ∨ 0xDFFF < c.toNat ∧ c.toNat < 0x110000 :=
  c.valid

/-- A character is one byte below 0x80, or two to four bytes that are not. -/
theorem utf8EncodeChar_cases (c : Char) :
    (c.toNat < 0x80 ∧ String.utf8EncodeChar c = [UInt8.ofNat c.toNat]) ∨
    (∃ x y, String.utf8EncodeChar c = [x, y] ∧ 0x80 ≤ c.toNat ∧ c.toNat < 0x800 ∧
      x.toNat = c.toNat / 64 + 0xC0 ∧ y.toNat = c.toNat % 64 + 0x80) ∨
    (∃ x y z, String.utf8EncodeChar c = [x, y, z] ∧ 0x800 ≤ c.toNat ∧ c.toNat < 0x10000 ∧
      x.toNat = c.toNat / 4096 + 0xE0 ∧ y.toNat = c.toNat / 64 % 64 + 0x80 ∧
      z.toNat = c.toNat % 64 + 0x80) ∨
    (∃ x y z u, String.utf8EncodeChar c = [x, y, z, u] ∧ 0x10000 ≤ c.toNat ∧
      c.toNat < 0x110000 ∧ x.toNat = c.toNat / 262144 + 0xF0 ∧
      y.toNat = c.toNat / 4096 % 64 + 0x80 ∧ z.toNat = c.toNat / 64 % 64 + 0x80 ∧
      u.toNat = c.toNat % 64 + 0x80) := by
  have hvalid := char_valid c
  rw [String.utf8EncodeChar, show c.val.toNat = c.toNat from rfl]
  by_cases hone : c.toNat ≤ 0x7F
  · exact .inl ⟨by omega, if_pos hone⟩
  · rw [if_neg hone]
    by_cases htwo : c.toNat ≤ 0x7FF
    · rw [if_pos htwo]
      refine .inr (.inl ⟨_, _, rfl, by omega, by omega, ?_, ?_⟩)
      · rw [toNat_ofNat (by omega)]
        omega
      · exact toNat_ofNat (by omega)
    · rw [if_neg htwo]
      by_cases hthree : c.toNat ≤ 0xFFFF
      · rw [if_pos hthree]
        refine .inr (.inr (.inl ⟨_, _, _, rfl, by omega, by omega, ?_, ?_, ?_⟩))
        · rw [toNat_ofNat (by omega)]
          omega
        · exact toNat_ofNat (by omega)
        · exact toNat_ofNat (by omega)
      · rw [if_neg hthree]
        refine .inr (.inr (.inr ⟨_, _, _, _, rfl, by omega, by omega, ?_, ?_, ?_, ?_⟩))
        · rw [toNat_ofNat (by omega)]
          omega
        · exact toNat_ofNat (by omega)
        · exact toNat_ofNat (by omega)
        · exact toNat_ofNat (by omega)

/-- An ASCII byte is a character. -/
theorem utf8EncodeChar_ofNat {b : UInt8} (h : b.toNat < 0x80) :
    String.utf8EncodeChar (Char.ofNat b.toNat) = [b] := by
  have hchar : (Char.ofNat b.toNat).toNat = b.toNat := by
    rw [Char.ofNat, dif_pos (Or.inl (by omega))]
    rfl
  rcases utf8EncodeChar_cases (Char.ofNat b.toNat) with ⟨_, hbytes⟩ | ⟨_, _, _, hlow, _⟩ |
    ⟨_, _, _, _, hlow, _⟩ | ⟨_, _, _, _, _, hlow, _⟩
  · rw [hbytes, hchar, UInt8.ofNat_toNat]
  · omega
  · omega
  · omega

/-- A character is one ASCII byte, or all of its bytes are not ASCII. -/
theorem utf8EncodeChar_ascii_or (c : Char) :
    (∃ b, String.utf8EncodeChar c = [b] ∧ b.toNat < 0x80) ∨
      String.utf8EncodeChar c ≠ [] ∧ ∀ b ∈ String.utf8EncodeChar c, 0x80 ≤ b.toNat := by
  rcases utf8EncodeChar_cases c with ⟨hone, hbytes⟩ | ⟨x, y, hbytes, _, _, hx, hy⟩ |
    ⟨x, y, z, hbytes, _, _, hx, hy, hz⟩ | ⟨x, y, z, u, hbytes, _, _, hx, hy, hz, hu⟩
  · refine .inl ⟨_, hbytes, ?_⟩
    rw [toNat_ofNat (by omega)]
    exact hone
  · right
    simp only [hbytes, List.forall_mem_cons]
    exact ⟨List.cons_ne_nil _ _, by omega, by omega, by simp⟩
  · right
    simp only [hbytes, List.forall_mem_cons]
    exact ⟨List.cons_ne_nil _ _, by omega, by omega, by omega, by simp⟩
  · right
    simp only [hbytes, List.forall_mem_cons]
    exact ⟨List.cons_ne_nil _ _, by omega, by omega, by omega, by omega, by simp⟩

end ByteRegex
