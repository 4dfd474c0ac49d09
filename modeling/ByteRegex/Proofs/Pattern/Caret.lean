import ByteRegex.Proofs.Pattern.Readable
import ByteRegex.Proofs.Text.Encoding

/-!
# A `^` before a text

Where a text stands makes a difference only for what is wrong with it: the reader keeps the offsets
of the groups and classes that are open, but only to report them. So a text that is a pattern is
read in the same way behind a `^`, which ties the pattern to the start of the line.
-/

namespace ByteRegex

/-- The same place within an item of a text that begins `k` bytes later. -/
def Phase.moved (k : Nat) : Phase → Phase
  | .plain => .plain
  | .escaped => .escaped
  | .classStart opened => .classStart (k + opened)
  | .classBody opened negated written => .classBody (k + opened) negated written

/-- The same group in a text that begins `k` bytes later. -/
def OpenGroup.moved (k : Nat) (g : OpenGroup) : OpenGroup :=
  { g with opened := k + g.opened }

namespace Draft

/-- The same draft of a text that begins `k` bytes later. -/
def moved (k : Nat) (d : Draft) : Draft :=
  { d with phase := d.phase.moved k, enclosing := d.enclosing.map (OpenGroup.moved k) }

/-- What a byte may make of a draft is what it does make of it. -/
theorem Reads.step_eq {d d' : Draft} {offset : Nat} {b : UInt8} {isLast : Bool}
    (h : d.Reads offset b isLast d') : d.step offset b isLast = .ok d' := by
  unfold step
  cases h with
  | openGroup phase sign | openClass phase sign | escape phase sign | any phase sign =>
      simp only [phase, sign]
  | closeGroup phase sign g outer enclosing => simp only [phase, sign, closeGroup?, enclosing]
  | nextBranch phase sign g outer enclosing => simp only [phase, sign, nextBranch?, enclosing]
  | endAnchor phase sign last => simp only [phase, sign, last, if_true]
  | quantify phase q sign item earlier items applies =>
      simp only [phase, sign, Draft.quantify, items, applies, if_true]
  | literal phase sign =>
      rcases sign with sign | ⟨sign, last⟩ | ⟨q, sign, settled⟩
      · simp only [phase, sign]
      · simp [phase, sign, last]
      · rcases d.quantify_cases q b with ⟨_, hpush⟩ | ⟨item, earlier, items, applies, _⟩
        · simp only [phase, sign, hpush]
        · rw [settled item (by rw [items]; rfl)] at applies
          cases applies
  | escaped phase => simp only [phase]
  | negate opened phase caret => simp only [phase, caret, if_true]
  | emptyClass opened phase bracket =>
      have hcaret : ']'.toUInt8 ≠ '^'.toUInt8 := by decide
      simp only [phase, bracket, hcaret, if_false, if_true]
  | firstMember opened phase caret bracket => simp only [phase, caret, bracket, if_false]
  | endClass opened negated written phase bracket => simp only [phase, bracket, if_true]
  | member opened negated written phase bracket => simp only [phase, bracket, if_false]

/-- A byte does the same to the draft of a text that begins later. -/
theorem Reads.moved {d d' : Draft} {offset : Nat} {b : UInt8} {isLast : Bool}
    (h : d.Reads offset b isLast d') (k : Nat) :
    (d.moved k).Reads (k + offset) b isLast (d'.moved k) := by
  have hphase : ∀ {phase : Phase}, d.phase = phase → (d.moved k).phase = phase.moved k :=
    congrArg (Phase.moved k)
  have henclosing : ∀ {enclosing : List OpenGroup}, d.enclosing = enclosing →
      (d.moved k).enclosing = enclosing.map (OpenGroup.moved k) :=
    congrArg (List.map (OpenGroup.moved k))
  cases h with
  | openGroup phase sign => exact .openGroup (hphase phase) sign
  | closeGroup phase sign g outer enclosing =>
      exact .closeGroup (hphase phase) sign (g.moved k) _ (henclosing enclosing)
  | nextBranch phase sign g outer enclosing =>
      exact .nextBranch (hphase phase) sign (g.moved k) _ (henclosing enclosing)
  | openClass phase sign => exact .openClass (hphase phase) sign
  | escape phase sign => exact .escape (hphase phase) sign
  | any phase sign => exact .any (hphase phase) sign
  | endAnchor phase sign last => exact .endAnchor (hphase phase) sign last
  | quantify phase q sign item earlier items applies =>
      exact .quantify (hphase phase) q sign item earlier items applies
  | literal phase sign => exact .literal (hphase phase) sign
  | escaped phase => exact .escaped (hphase phase)
  | negate opened phase caret => exact .negate (k + opened) (hphase phase) caret
  | emptyClass opened phase bracket => exact .emptyClass (k + opened) (hphase phase) bracket
  | firstMember opened phase caret bracket =>
      exact .firstMember (k + opened) (hphase phase) caret bracket
  | endClass opened negated written phase bracket =>
      exact .endClass (k + opened) negated written (hphase phase) bracket
  | member opened negated written phase bracket =>
      exact .member (k + opened) negated written (hphase phase) bracket

theorem feed_moved (k : Nat) {d d' : Draft} {offset : Nat} {bytes : List UInt8}
    (h : d.feed offset bytes = .ok d') :
    (d.moved k).feed (k + offset) bytes = .ok (d'.moved k) := by
  induction bytes generalizing d offset with
  | nil =>
      cases h
      rfl
  | cons b rest ih =>
      obtain ⟨d₁, hstep, hrest⟩ := feed_cons_eq_ok.mp h
      exact feed_cons_eq_ok.mpr ⟨_, ((reads_of_step hstep).moved k).step_eq, ih hrest⟩

/-- The items of a text do not depend on where it begins. -/
theorem finish_moved (k : Nat) {d : Draft} {items : List Item} (h : d.finish = .ok items) :
    (d.moved k).finish = .ok items := by
  obtain ⟨henclosing, ⟨hphase, rfl⟩ | ⟨hphase, rfl⟩⟩ := finish_eq_ok h
  · simp [finish, moved, Phase.moved, hphase, henclosing]
  · simp [finish, moved, Phase.moved, hphase, henclosing]

end Draft

/-- A text that is read as a pattern from one offset on is read as one from any later offset. -/
theorem Pattern.readFrom_moved (k : Nat) {start start' : Bool} {offset : Nat} {body : List UInt8}
    {p : Pattern} (h : readFrom start offset body = .ok p) :
    readFrom start' (k + offset) body = .ok { p with matchStart := start' } := by
  obtain ⟨d, hfeed, hfinish, -, hgroups⟩ := readFrom_eq_ok.mp h
  exact readFrom_eq_ok.mpr
    ⟨d.moved k, Draft.feed_moved k hfeed, Draft.finish_moved k hfinish, rfl, hgroups⟩

theorem toUTF8_toList_caret (text : String) :
    ("^" ++ text).toUTF8.toList = '^'.toUInt8 :: text.toUTF8.toList := by
  rw [toUTF8_toList, toUTF8_toList, String.toList_append, List.flatMap_append]
  rfl

/-- With a `^` before it, the text of a pattern that is not tied to the start of the line is the
text of the same pattern, tied to the start of the line. -/
theorem Pattern.ofString_caret {text : String} {p : Pattern} (h : ofString text = .ok p)
    (hstart : text.toUTF8.toList.head? ≠ some '^'.toUInt8) :
    ofString ("^" ++ text) = .ok { p with matchStart := true } := by
  unfold ofString at h ⊢
  rw [toUTF8_toList_caret, ofBytes_cons, if_pos rfl]
  generalize text.toUTF8.toList = bytes at h hstart ⊢
  cases bytes with
  | nil => cases h
  | cons b rest =>
      have hcaret : b ≠ '^'.toUInt8 := fun hb => hstart (congrArg some hb)
      rw [ofBytes_cons, if_neg hcaret] at h
      exact readFrom_moved 1 h

end ByteRegex
