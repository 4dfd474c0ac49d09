import ByteRegex.Proofs.Spelling.Text
import ByteRegex.Proofs.Text.Decoding
import ByteRegex.Regex

/-!
# The display of a regular expression

What is displayed is a text that compiles to the graph it was made from, so the
display is a normal form: of all texts with one graph it is the same text. Two
things are left to show besides what is known of trees. A spelling begins with
`^` only if the pattern is tied to the start of the line, and it is empty only
then too.
-/

namespace ByteRegex

/-! ## The first byte -/

theorem spellByte_head (b : UInt8) : ∃ c rest, spellByte b = c :: rest ∧ c ≠ '^'.toUInt8 := by
  unfold spellByte
  split
  next => exact ⟨_, _, rfl, by decide⟩
  next hescape =>
    refine ⟨b, [], rfl, ?_⟩
    rintro rfl
    exact hescape (by decide)

/-- No item is spelled with a `^` in front, where it could be taken for the tie to
the start of the line. -/
theorem Item.spell_head : ∀ (item : Item) (times : Repeat),
    ∃ c rest, item.spell times = c :: rest ∧ c ≠ '^'.toUInt8
  | .byte b, times => by
      obtain ⟨c, rest, hspell, hc⟩ := spellByte_head b
      refine ⟨c, rest ++ times.spell, ?_, hc⟩
      rw [Item.spell, ← List.cons_append, ← hspell]
      rfl
  | .any, times => ⟨'.'.toUInt8, times.spell, rfl, by decide⟩
  | .oneOf written negated, times => by
      have hclass : ∃ c rest, (ByteClass.ofWritten written negated).spell = c :: rest ∧
          c ≠ '^'.toUInt8 := by
        rcases ByteClass.spell_cases written negated with ⟨hspell, _⟩ | ⟨b, _, hspell, _⟩ |
          ⟨hspell, _⟩ | ⟨hspell, _⟩ | ⟨hspell, _⟩
        · exact ⟨_, _, hspell, by decide⟩
        · rw [hspell]
          exact spellByte_head b
        · exact ⟨_, _, hspell, by decide⟩
        · exact ⟨_, _, hspell, by decide⟩
        · exact ⟨_, _, hspell, by decide⟩
      obtain ⟨c, rest, hspell, hc⟩ := hclass
      refine ⟨c, rest ++ times.spell, ?_, hc⟩
      rw [Item.spell, hspell, List.cons_append]
  | .quantified q inner, times => by
      rw [Item.spell]
      exact Item.spell_head inner q.times
  | .group number alternatives, times => ⟨'('.toUInt8, _, rfl, by decide⟩
  | .backreference number, times => ⟨'\\'.toUInt8, _, rfl, by decide⟩
  | .endAnchor, _ => ⟨'$'.toUInt8, [], rfl, by decide⟩

/-! ## Texts that are not empty -/

/-- After a byte there is an item, or something is open. -/
theorem Draft.Reads.not_blank {d d' : Draft} {offset : Nat} {b : UInt8} {isLast : Bool}
    (h : d.Reads offset b isLast d') :
    d'.items ≠ [] ∨ d'.enclosing ≠ [] ∨ d'.phase ≠ .plain := by
  cases h with
  | openGroup | nextBranch => exact .inr (.inl (List.cons_ne_nil _ _))
  | openClass | escape | negate | firstMember | member => exact .inr (.inr (by simp))
  | closeGroup | any | endAnchor | quantify | literal | escaped | emptyClass | endClass =>
      exact .inl (List.cons_ne_nil _ _)

/-- Only a text that is tied to the start of the line can have no items. -/
theorem Pattern.items_ne_nil {bytes : List UInt8} {p : Pattern} (h : ofBytes bytes = .ok p)
    (hstart : p.matchStart = false) : p.items ≠ [] := by
  obtain ⟨offset, body, d, _, hbody, hfeed, hfinish, _⟩ := ofBytes_eq_ok h
  obtain ⟨_, b, d₁, last, _, _, hreads⟩ := Draft.feed_keeps_but_last (P := fun _ _ => True)
    (fun _ _ _ _ _ _ _ => trivial) [] trivial (hbody hstart) hfeed
  obtain ⟨henclosing, hitems⟩ := Draft.finish_eq_ok hfinish
  rcases hitems with ⟨hphase, hitems⟩ | ⟨_, hitems⟩
  · rcases hreads.not_blank with hne | hne | hne
    · rw [hitems]
      simpa using hne
    · exact absurd henclosing hne
    · exact absurd hphase hne
  · rw [hitems]
    simp

/-! ## Whole patterns -/

namespace Pattern

/-- The spelling of a whole tree is read to its end. -/
theorem Readable.feed_spell {p : Pattern} (hread : p.Readable) (offset : Nat) :
    ∃ d, ({} : Draft).feed offset (itemsSpell p.items) = .ok d ∧
      d.finish = .ok (itemsNormal p.items) ∧ d.groups = p.groups := by
  have hnumbers : Consecutive (({} : Draft).groups + 1) (itemsNumbers p.items) := by
    rw [hread.numbers, Consecutive, List.length_range']
  have hgroups : (itemsNumbers p.items).length = p.groups := by
    rw [hread.numbers, List.length_range']
  obtain ⟨items, hitems, heq | heq⟩ := hread.items
  · rw [heq] at hnumbers hgroups ⊢
    have hfeed := feed_itemsSpell items {} offset [] hitems rfl hnumbers
    rw [List.append_nil, Draft.feed_nil] at hfeed
    refine ⟨_, hfeed, ?_, ?_⟩
    · simp [Draft.finish, Draft.pushAll]
    · simp [Draft.pushAll, hgroups]
  · have hanchor : itemsNumbers [Item.endAnchor] = [] := rfl
    rw [heq, itemsNumbers_append, hanchor, List.append_nil] at hnumbers hgroups
    have hfeed := feed_itemsSpell items {} offset ['$'.toUInt8] hitems rfl hnumbers
    rw [Draft.feed_dollar_last rfl] at hfeed
    have hspell : itemsSpell p.items = itemsSpell items ++ ['$'.toUInt8] := by
      rw [heq, itemsSpell_append]
      rfl
    refine ⟨_, hspell ▸ hfeed, ?_, ?_⟩
    · have hlast : itemsNormal [Item.endAnchor] = [.endAnchor] := rfl
      rw [heq, itemsNormal_append, hlast]
      simp [Draft.finish, Draft.push, Draft.pushAll]
    · simp [Draft.push, Draft.pushAll, hgroups]

/-- The spelling of a whole pattern is read as a pattern with the same graph. -/
theorem Readable.ofBytes_spell {p : Pattern} (hread : p.Readable)
    (hitems : p.matchStart = false → p.items ≠ []) :
    ofBytes p.spell = .ok p.normal := by
  unfold spell
  cases hstart : p.matchStart with
  | true =>
      obtain ⟨d, hfeed, hfinish, hgroups⟩ := hread.feed_spell 1
      rw [if_pos rfl, List.singleton_append, ofBytes_cons, if_pos rfl, readFrom_eq_ok]
      exact ⟨d, hfeed, hfinish, hstart, hgroups.symm⟩
  | false =>
      obtain ⟨d, hfeed, hfinish, hgroups⟩ := hread.feed_spell 0
      rw [if_neg Bool.false_ne_true, List.nil_append]
      cases hpattern : p.items with
      | nil => exact absurd hpattern (hitems hstart)
      | cons item rest =>
          obtain ⟨c, others, hspell, hc⟩ := Item.spell_head item .once
          rw [hpattern, itemsSpell_cons, hspell, List.cons_append] at hfeed
          rw [itemsSpell_cons, hspell, List.cons_append, ofBytes_cons, if_neg hc, readFrom_eq_ok]
          exact ⟨d, hfeed, hfinish, hstart, hgroups.symm⟩

/-- Both patterns have the same graph. -/
theorem Readable.toProgram_normal {p : Pattern} (hread : p.Readable)
    (hnormal : p.normal.Readable) : p.normal.toProgram = p.toProgram := by
  rw [toProgram_eq_ok hread.shapeFault?_eq_none, toProgram_eq_ok hnormal.shapeFault?_eq_none]
  unfold normal entryOf
  rw [itemsNodes_normal, isEmpty_itemsNormal]

end Pattern

namespace Regex

/-- The graph of a pattern is spelled as the pattern is. -/
theorem spell?_eq {r : Regex} {p : Pattern} (hread : p.Readable)
    (hprogram : p.toProgram = .ok r.program) (hstart : r.matchStart = p.matchStart) :
    r.spell? = some p.spell := by
  rw [spell?, hread.spell?_eq hprogram, hstart]
  rfl

/-- Nothing is replaced when a spelling is shown as text. -/
theorem display_toUTF8 {r : Regex} {bytes : List UInt8} (hspell : r.spell? = some bytes)
    (htext : IsText bytes) : r.display.toUTF8.toList = bytes := by
  obtain ⟨cs, rfl⟩ := htext
  have hdisplay : r.display = String.ofList cs := by
    unfold display
    rw [hspell]
    exact Utf8.decodeLossy_chars cs
  rw [hdisplay, toUTF8_toList, String.toList_ofList]

/-- Whatever compiles is displayed as the spelling of its graph. -/
theorem display_of_compile {text : String} {r : Regex} (h : compile text = .ok r) :
    ∃ bytes, r.spell? = some bytes ∧ r.display.toUTF8.toList = bytes := by
  obtain ⟨p, hread, hprogram, hstart, _⟩ := compile_eq_ok h
  have hspell := spell?_eq (Pattern.readable_of_ofBytes hread) hprogram hstart
  exact ⟨p.spell, hspell, display_toUTF8 hspell (Pattern.isText_spell hread)⟩

/-- What is displayed compiles to what it was displayed from. -/
theorem compile_display {text : String} {r : Regex} (h : compile text = .ok r) :
    compile r.display = .ok r := by
  obtain ⟨p, htext, hprogram, hstart, hend⟩ := compile_eq_ok h
  have hread := Pattern.readable_of_ofBytes htext
  have hspell := spell?_eq hread hprogram hstart
  have hnormal := hread.ofBytes_spell (Pattern.items_ne_nil htext)
  have hdisplay : Pattern.ofString r.display = .ok p.normal := by
    rw [Pattern.ofString, display_toUTF8 hspell (Pattern.isText_spell htext), hnormal]
  have hgraph : p.normal.toProgram = .ok r.program := by
    rw [hread.toProgram_normal (Pattern.readable_of_ofBytes hnormal), hprogram]
  rw [compile_of_ofString hdisplay hgraph, Pattern.matchEnd_normal, ← hend]
  exact congrArg _ (by rw [Pattern.normal, ← hstart])

end Regex

/-- Every text that compiles to `r` has a spelling, and the spelling compiles to
`r` again: the same nodes, root, slots and ends. So two texts that compile
have the same spelling if and only if they compile to the same value. -/
theorem display_is_normal_form (text : String) (r : Regex) (h : Regex.compile text = .ok r) :
    (∃ bytes, r.spell? = some bytes ∧ r.display.toUTF8.toList = bytes) ∧
      Regex.compile r.display = .ok r ∧
      ∀ (other : String) (s : Regex), Regex.compile other = .ok s →
        (r.display = s.display ↔ r = s) := by
  refine ⟨Regex.display_of_compile h, Regex.compile_display h, ?_⟩
  intro other s hs
  constructor
  · intro heq
    have hback := Regex.compile_display h
    rw [heq, Regex.compile_display hs] at hback
    exact (Except.ok.inj hback).symm
  · intro heq
    rw [heq]

/-- A class of one byte loses its brackets and the negated empty class becomes a
dot, so the second text is the normal form of the first. -/
theorem display_is_normal_form_classes :
    ∃ r s, Regex.compile "([a]|\\[)*é[^]\\1$" = .ok r ∧
      Regex.compile "(a|\\[)*é.\\1$" = .ok s ∧ r.display = "(a|\\[)*é.\\1$" ∧
      Regex.compile r.display = .ok r ∧ r = s := by
  let items (member wild : Item) : List Item :=
    [.quantified .star (.group 1 [[member], [.byte 91]]), .byte 0xC3, .byte 0xA9, wild,
      .backreference 1, .endAnchor]
  have hfirst : Pattern.ofString "([a]|\\[)*é[^]\\1$" =
      .ok ⟨false, items (.oneOf [97] false) (.oneOf [] true), 1⟩ :=
    (Pattern.ofString_eq _).trans rfl
  have hsecond : Pattern.ofString "(a|\\[)*é.\\1$" =
      .ok ⟨false, items (.byte 97) .any, 1⟩ :=
    (Pattern.ofString_eq _).trans rfl
  have hr := Regex.compile_of_ofString hfirst rfl
  have hs := Regex.compile_of_ofString hsecond rfl
  obtain ⟨_, hback, hsame⟩ := display_is_normal_form _ _ hr
  refine ⟨_, _, hr, hs, by decide +kernel, hback, (hsame _ _ hs).mp (by decide +kernel)⟩

end ByteRegex
