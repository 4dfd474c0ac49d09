import ByteRegex.Proofs.Spelling.Display
import ByteRegex.Proofs.Tokens.Scan

/-!
# The characters of a spelling

A pattern is read byte by byte, so a character of several bytes falls apart: its bytes
become literals of their own or members of a class, and a backslash in front of it
escapes the first of them only. In the spelling they stand together again. All that a
spelling adds to a text or leaves out is ASCII, be it an escape, a bracket, a bar or a
quantifier, so its bytes beyond ASCII are those of the text in the same order. This is
seen on the tokens, which the tree and the text have in common: `Token.verbatim` are the
bytes that a token takes over from the text. As a spelling is UTF-8, the same bytes
beyond ASCII make up the same characters.
-/

namespace ByteRegex

/-- The bytes that are not ASCII. -/
def highBytes (bytes : List UInt8) : List UInt8 :=
  bytes.filter fun b => 0x80 ≤ b.toNat

/-- The characters of a text that are not ASCII. -/
def wideChars (cs : List Char) : List Char :=
  cs.filter fun c => 0x80 ≤ c.toNat

@[simp] theorem highBytes_nil : highBytes [] = [] := rfl

@[simp] theorem highBytes_append (xs ys : List UInt8) :
    highBytes (xs ++ ys) = highBytes xs ++ highBytes ys :=
  List.filter_append ..

theorem highBytes_cons (b : UInt8) (rest : List UInt8) :
    highBytes (b :: rest) = highBytes [b] ++ highBytes rest := by
  rw [← highBytes_append, List.singleton_append]

theorem wideChars_cons (c : Char) (rest : List Char) :
    wideChars (c :: rest) = (if 0x80 ≤ c.toNat then [c] else []) ++ wideChars rest := by
  unfold wideChars
  rw [List.filter_cons]
  split <;> simp_all

theorem highBytes_of_high {bytes : List UInt8} (h : ∀ b ∈ bytes, 0x80 ≤ b.toNat) :
    highBytes bytes = bytes :=
  List.filter_eq_self.mpr fun b hb => decide_eq_true (h b hb)

theorem highBytes_cons_ascii {b : UInt8} (h : b.toNat < 0x80) (rest : List UInt8) :
    highBytes (b :: rest) = highBytes rest := by
  rw [highBytes, List.filter_cons_of_neg (by simpa using h)]
  rfl

theorem IsText.isValidUTF8 {bytes : List UInt8} (h : IsText bytes) :
    bytes.toByteArray.IsValidUTF8 := by
  obtain ⟨cs, rfl⟩ := h
  exact ⟨cs, rfl⟩

/-- The bytes of a text are read without replacing any. -/
theorem IsText.decode?_eq {bytes : List UInt8} (h : IsText bytes) :
    Utf8.decode? bytes = some (Utf8.decodeLossy bytes) := by
  obtain ⟨cs, rfl⟩ := h
  rw [Utf8.decode?_chars, Utf8.decodeLossy_chars]

/-! ## Characters and their bytes -/

/-- Of the bytes of a character all are beyond ASCII, as the character is, or none. -/
theorem highBytes_char (c : Char) :
    highBytes (String.utf8EncodeChar c) =
      if 0x80 ≤ c.toNat then String.utf8EncodeChar c else [] := by
  rcases utf8EncodeChar_cases c with ⟨hone, hbytes⟩ | ⟨x, y, hbytes, hlow, _, hx, hy⟩ |
    ⟨x, y, z, hbytes, hlow, _, hx, hy, hz⟩ | ⟨x, y, z, u, hbytes, hlow, _, hx, hy, hz, hu⟩
  · rw [if_neg (Nat.not_le.mpr hone), hbytes]
    refine highBytes_cons_ascii ?_ []
    rw [toNat_ofNat (by omega)]
    exact hone
  · rw [if_pos hlow, hbytes]
    refine highBytes_of_high ?_
    simp only [List.forall_mem_cons]
    exact ⟨by omega, by omega, by simp⟩
  · rw [if_pos (by omega), hbytes]
    refine highBytes_of_high ?_
    simp only [List.forall_mem_cons]
    exact ⟨by omega, by omega, by omega, by simp⟩
  · rw [if_pos (by omega), hbytes]
    refine highBytes_of_high ?_
    simp only [List.forall_mem_cons]
    exact ⟨by omega, by omega, by omega, by omega, by simp⟩

/-- The bytes of a text beyond ASCII are those of its characters beyond ASCII. -/
theorem highBytes_chars (cs : List Char) :
    highBytes (cs.flatMap String.utf8EncodeChar) =
      (wideChars cs).flatMap String.utf8EncodeChar := by
  induction cs with
  | nil => rfl
  | cons c rest ih =>
      rw [List.flatMap_cons, highBytes_append, ih, highBytes_char, wideChars_cons,
        List.flatMap_append]
      split <;> simp

/-- Texts with the same bytes beyond ASCII have the same characters there. -/
theorem wideChars_eq_of_highBytes {s t : String}
    (h : highBytes s.toUTF8.toList = highBytes t.toUTF8.toList) :
    wideChars s.toList = wideChars t.toList := by
  rw [toUTF8_toList, toUTF8_toList, highBytes_chars, highBytes_chars] at h
  have hdecoded := congrArg Utf8.decodeLossy h
  rw [Utf8.decodeLossy_chars, Utf8.decodeLossy_chars] at hdecoded
  exact String.ofList_injective hdecoded

/-! ## The bytes that tokens take over -/

/-- The bytes that a token takes over from the text as they are. -/
def Token.verbatim : Token → List UInt8
  | .byte b => [b]
  | .oneOf written _ => written
  | .openGroup _ | .closeGroup | .bar | .any | .backreference _ | .endAnchor | .quantifier _ => []

/-- The bytes beyond ASCII that tokens take over. -/
def tokensHighBytes (tokens : List Token) : List UInt8 :=
  highBytes (tokens.flatMap Token.verbatim)

@[simp] theorem tokensHighBytes_nil : tokensHighBytes [] = [] := rfl

@[simp] theorem tokensHighBytes_append (xs ys : List Token) :
    tokensHighBytes (xs ++ ys) = tokensHighBytes xs ++ tokensHighBytes ys := by
  rw [tokensHighBytes, List.flatMap_append, highBytes_append]
  rfl

theorem tokensHighBytes_cons (t : Token) (rest : List Token) :
    tokensHighBytes (t :: rest) = highBytes t.verbatim ++ tokensHighBytes rest := by
  rw [tokensHighBytes, List.flatMap_cons, highBytes_append]
  rfl

/-! ## The tokens of a text -/

theorem highBytes_skipCaret (bytes : List UInt8) :
    highBytes (skipCaret bytes) = highBytes bytes := by
  rcases skipCaret_cases bytes with hcaret | ⟨hnone, _⟩
  · conv => rhs; rw [hcaret, highBytes_cons_ascii (by decide)]
  · rw [hnone]

theorem highBytes_verbatim_ofEscaped (b : UInt8) :
    highBytes (Token.ofEscaped b).verbatim = highBytes [b] := by
  unfold Token.ofEscaped
  split_ifs with hd hw hdigit
  · rw [hd]
    decide
  · rw [hw]
    decide
  · have hnine : b.toNat ≤ 57 := hdigit.2
    exact (highBytes_cons_ascii (by omega) []).symm
  · rfl

/-- A byte with a meaning of its own is ASCII. -/
theorem highBytes_verbatim_ofByte (previous : Option Token) (opened : Nat) (b : UInt8)
    (isLast : Bool) :
    highBytes (Token.ofByte previous opened b isLast).verbatim = highBytes [b] := by
  by_cases hhigh : 0x80 ≤ b.toNat
  · rw [Token.ofByte_of_plain (Draft.sign_of_high hhigh)]
    rfl
  · have hascii : highBytes [b] = [] := highBytes_cons_ascii (Nat.not_le.mp hhigh) []
    have hverbatim : (Token.ofByte previous opened b isLast).verbatim = [] ∨
        (Token.ofByte previous opened b isLast).verbatim = [b] := by
      unfold Token.ofByte
      cases quantifierOf? b <;> split_ifs <;> simp [Token.verbatim]
    rcases hverbatim with hnone | hbyte
    · rw [hnone, hascii, highBytes_nil]
    · rw [hbyte]

theorem highBytes_classToken (bytes : List UInt8) :
    highBytes (classToken bytes).1.verbatim ++ highBytes (classToken bytes).2 =
      highBytes bytes := by
  -- What is dropped behind the members is the bracket that ends them, if there is one.
  have hbracket : highBytes ((skipCaret bytes).dropWhile (· ≠ ']'.toUInt8)).tail =
      highBytes ((skipCaret bytes).dropWhile (· ≠ ']'.toUInt8)) := by
    cases hdrop : (skipCaret bytes).dropWhile (· ≠ ']'.toUInt8) with
    | nil => rfl
    | cons b rest =>
        have hb : b = ']'.toUInt8 := by
          have hfirst := List.head?_dropWhile_not (· ≠ ']'.toUInt8) (skipCaret bytes)
          rw [hdrop] at hfirst
          simpa using hfirst
        rw [hb, List.tail_cons, highBytes_cons_ascii (by decide)]
  change highBytes ((skipCaret bytes).takeWhile (· ≠ ']'.toUInt8)) ++
    highBytes ((skipCaret bytes).dropWhile (· ≠ ']'.toUInt8)).tail = _
  rw [hbracket, ← highBytes_append, List.takeWhile_append_dropWhile, highBytes_skipCaret]

theorem highBytes_escapeToken (bytes : List UInt8) :
    highBytes (escapeToken bytes).1.verbatim ++ highBytes (escapeToken bytes).2 =
      highBytes bytes := by
  cases bytes with
  | nil => decide
  | cons b rest =>
      rw [escapeToken, highBytes_verbatim_ofEscaped, ← highBytes_cons]

/-- A token takes over what is not ASCII among its bytes. -/
theorem highBytes_nextToken (previous : Option Token) (opened : Nat) (b : UInt8)
    (rest : List UInt8) :
    highBytes (nextToken previous opened b rest).1.verbatim ++
      highBytes (nextToken previous opened b rest).2 = highBytes (b :: rest) := by
  unfold nextToken
  split_ifs with hclass hescape
  · rw [highBytes_classToken, hclass, highBytes_cons_ascii (by decide)]
  · rw [highBytes_escapeToken, hescape, highBytes_cons_ascii (by decide)]
  · rw [highBytes_verbatim_ofByte, ← highBytes_cons]

theorem tokensHighBytes_textTokens (previous : Option Token) (opened : Nat)
    (bytes : List UInt8) : tokensHighBytes (textTokens previous opened bytes) = highBytes bytes := by
  induction previous, opened, bytes using textTokens.induct with
  | case1 previous opened =>
      rw [textTokens]
      rfl
  | case2 previous opened b rest ih =>
      rw [textTokens_cons, tokensHighBytes_cons, ih, highBytes_nextToken]

/-! ## The tokens of a tree -/

theorem highBytes_spellByte (b : UInt8) : highBytes (spellByte b) = highBytes [b] := by
  unfold spellByte
  split
  next => exact highBytes_cons_ascii (by decide) [b]
  next => rfl

theorem highBytes_spellTimes (times : Repeat) : highBytes times.spell = [] := by
  cases times <;> decide

/-- However a class is spelled, its bytes beyond ASCII are kept. -/
theorem highBytes_spellClass (written : List UInt8) (negated : Bool) :
    highBytes (ByteClass.ofWritten written negated).spell = highBytes written := by
  unfold ByteClass.spell
  rw [ByteClass.written_ofWritten, ByteClass.inverted_ofWritten]
  split
  next => decide
  next b => exact highBytes_spellByte b
  next =>
    have hcaret : highBytes (if negated then ['^'.toUInt8] else []) = [] := by
      split <;> rfl
    have hclose : highBytes [']'.toUInt8] = [] := by decide
    split
    next hdigits =>
      rw [hdigits.2]
      decide
    next =>
      split
      next hword =>
        rw [hword.2]
        decide
      next =>
        rw [List.append_assoc, List.append_assoc, List.singleton_append,
          highBytes_cons_ascii (by decide), highBytes_append, highBytes_append, hcaret, hclose,
          List.append_nil, List.nil_append]

theorem highBytes_intercalate : ∀ branches : List (List UInt8),
    highBytes (List.intercalate ['|'.toUInt8] branches) = highBytes branches.flatten
  | [] => rfl
  | [bytes] => by
      rw [List.intercalate_singleton, List.flatten_singleton]
  | bytes :: more :: rest => by
      have hbar : highBytes ['|'.toUInt8] = [] := by decide
      rw [List.intercalate_cons_cons, highBytes_append, highBytes_append, hbar, List.append_nil,
        highBytes_intercalate (more :: rest), ← highBytes_append]
      rfl

mutual

theorem Item.highBytes_spell : ∀ (item : Item) (times : Repeat), item.Readable →
    highBytes (item.spell times) = tokensHighBytes item.tokens
  | .byte b, times, _ => by
      rw [Item.spell, highBytes_append, highBytes_spellTimes, List.append_nil]
      exact highBytes_spellByte b
  | .any, times, _ => by
      rw [Item.spell, highBytes_append, highBytes_spellTimes]
      rfl
  | .oneOf written negated, times, _ => by
      rw [Item.spell, highBytes_append, highBytes_spellTimes, List.append_nil,
        highBytes_spellClass, Item.tokens, tokensHighBytes_cons, tokensHighBytes_nil,
        List.append_nil]
      rfl
  | .quantified q inner, times, hread => by
      rw [Item.Readable] at hread
      rw [Item.spell, Item.highBytes_spell inner q.times hread.2, Item.tokens,
        tokensHighBytes_append]
      exact (List.append_nil _).symm
  | .group number alternatives, times, hread => by
      rw [Item.Readable] at hread
      rw [Item.spell, highBytes_append, highBytes_spellTimes, List.append_nil, spellBranches,
        highBytes_append, highBytes_append, highBytes_intercalate,
        branchesHighBytes_spell alternatives hread.2, Item.tokens, tokensHighBytes_cons,
        tokensHighBytes_append]
      rfl
  | .backreference number, times, hread => by
      rw [Item.Readable] at hread
      have hdigit : (UInt8.ofNat (48 + number)).toNat < 0x80 := by
        rw [toNat_ofNat (by omega)]
        omega
      rw [Item.spell, (spellReference_eq hread.1 hread.2).1, highBytes_cons_ascii (by decide),
        highBytes_cons_ascii hdigit]
      rfl
  | .endAnchor, _, hread => hread.elim

theorem itemsHighBytes_spell : ∀ items : List Item, itemsReadable items →
    highBytes (itemsSpell items) = tokensHighBytes (itemsTokens items)
  | [], _ => rfl
  | item :: rest, hread => by
      rw [itemsReadable_cons] at hread
      rw [itemsSpell_cons, itemsTokens_cons, highBytes_append, tokensHighBytes_append,
        Item.highBytes_spell item .once hread.1, itemsHighBytes_spell rest hread.2]

theorem branchesHighBytes_spell : ∀ branches : List (List Item), branchesReadable branches →
    highBytes (branchesSpell branches).flatten = tokensHighBytes (branchesTokens branches)
  | [], _ => rfl
  | items :: rest, hread => by
      have hbar : tokensHighBytes (if rest.isEmpty then [] else [Token.bar]) = [] := by
        split <;> rfl
      rw [branchesReadable_cons] at hread
      rw [branchesSpell_cons, List.flatten_cons, highBytes_append, branchesTokens_cons,
        tokensHighBytes_append, tokensHighBytes_append, hbar, List.append_nil,
        itemsHighBytes_spell items hread.1, branchesHighBytes_spell rest hread.2]

end

/-- The bytes of a spelling beyond ASCII are those of the text that was read. -/
theorem Pattern.highBytes_spell {bytes : List UInt8} {p : Pattern} (h : ofBytes bytes = .ok p) :
    highBytes p.spell = highBytes bytes := by
  have hstart : highBytes (if p.matchStart then ['^'.toUInt8] else []) = [] := by
    split <;> rfl
  have hitems : highBytes (itemsSpell p.items) = tokensHighBytes (itemsTokens p.items) := by
    obtain ⟨items, hread, heq | heq⟩ := (readable_of_ofBytes h).items
    · rw [heq]
      exact itemsHighBytes_spell items hread
    · rw [heq, itemsSpell_append, itemsTokens_append, highBytes_append, tokensHighBytes_append,
        itemsHighBytes_spell items hread]
      rfl
  rw [Pattern.spell, highBytes_append, hstart, List.nil_append, hitems, tokens_of_ofBytes h,
    tokensOf, tokensHighBytes_textTokens, highBytes_skipCaret]

/-- Whatever is read as a pattern compiles, and the spelling of its graph is UTF-8. So is the
whole spelling, which may have a `^` in front: nothing of it is replaced when it is displayed, and
its bytes are the bytes of the display. The characters beyond ASCII are those of the pattern text,
each of them whole and in its place among the others. -/
theorem display_keeps_characters_whole (text : String) (p : Pattern)
    (h : Pattern.ofString text = .ok p) :
    ∃ r graph bytes, Regex.compile text = .ok r ∧
      r.program.spell? = some graph ∧ graph.toByteArray.IsValidUTF8 ∧
      r.spell? = some bytes ∧ bytes.toByteArray.IsValidUTF8 ∧
      Utf8.decode? bytes = some r.display ∧ r.display.toUTF8.toList = bytes ∧
      wideChars r.display.toList = wideChars text.toList := by
  have hread := Pattern.readable_of_ofBytes h
  obtain ⟨program, hprogram⟩ := Pattern.exists_toProgram_of_ofBytes h
  have hcompile := Regex.compile_of_ofString h hprogram
  have hspell := Regex.spell?_eq (r := ⟨program, p.matchStart, p.matchEnd⟩) hread hprogram rfl
  have htext := Pattern.isText_spell h
  have hdisplay := Regex.display_toUTF8 hspell htext
  refine ⟨_, itemsSpell p.items, p.spell, hcompile, hread.spell?_eq hprogram,
    (Pattern.isText_itemsSpell h).isValidUTF8, hspell, htext.isValidUTF8, ?_, hdisplay, ?_⟩
  · rw [htext.decode?_eq, Regex.display, hspell]
  · exact wideChars_eq_of_highBytes (by rw [hdisplay, Pattern.highBytes_spell h])

/-- An escaped character loses its escape, which stands before its first byte, and a
quantifier stays behind its last. -/
theorem display_keeps_characters_whole_escaped :
    ∃ p r graph bytes, Pattern.ofString "^\\é+([^日本]|\\\\ß?)*\\1$" = .ok p ∧
      Regex.compile "^\\é+([^日本]|\\\\ß?)*\\1$" = .ok r ∧
      r.program.spell? = some graph ∧ graph.toByteArray.IsValidUTF8 ∧
      r.spell? = some bytes ∧ bytes.toByteArray.IsValidUTF8 ∧
      Utf8.decode? bytes = some r.display ∧ r.display.toUTF8.toList = bytes ∧
      r.display = "^é+([^日本]|\\\\ß?)*\\1$" ∧
      wideChars r.display.toList = ['é', '日', '本', 'ß'] := by
  let p : Pattern := ⟨true, [
    .byte 0xC3, .quantified .plus (.byte 0xA9),
    .quantified .star (.group 1 [[.oneOf [0xE6, 0x97, 0xA5, 0xE6, 0x9C, 0xAC] true],
      [.byte 92, .byte 0xC3, .quantified .optional (.byte 0x9F)]]),
    .backreference 1, .endAnchor], 1⟩
  have hread : Pattern.ofString "^\\é+([^日本]|\\\\ß?)*\\1$" = .ok p :=
    (Pattern.ofString_eq _).trans rfl
  obtain ⟨r, graph, bytes, hr, hgraph, hvalid, hspell, hwhole, hdecoded, hbytes, hwide⟩ :=
    display_keeps_characters_whole _ p hread
  have hcompile := Regex.compile_of_ofString hread rfl
  refine ⟨p, r, graph, bytes, hread, hr, hgraph, hvalid, hspell, hwhole, hdecoded, hbytes, ?_,
    hwide.trans (by decide +kernel)⟩
  rw [hr] at hcompile
  rw [Except.ok.inj hcompile]
  decide +kernel

end ByteRegex
