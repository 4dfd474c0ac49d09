import ByteRegex.Proofs.Pattern.Descent
import ByteRegex.Proofs.Text.Encoding

/-!
# Which texts are patterns

Whether a text is a pattern, and what is wrong with it if it is not, can be told
without making any item of it: by a scan that skips escaped bytes and classes and
keeps the offsets of the parentheses that are open. The reader reports what the
scan reports, which is the first problem from the left; a parenthesis that is
still open at the end is reported last, and of several the one opened latest.
-/

namespace ByteRegex

/-- The offset of the byte before `rest` in a text of `size` bytes. -/
def offsetBefore (size : Nat) (rest : List UInt8) : Nat :=
  size - (rest.length + 1)

/-- The first problem of a text of `size` bytes of which `bytes` are left, when
the parentheses at the offsets `opened` are open, latest first. -/
def scan (size : Nat) (opened : List Nat) (bytes : List UInt8) : Option PatternError :=
  match bytes with
  | [] =>
    match opened with
    | [] => none
    | last :: _ => some (.unbalancedGroup last)
  | b :: rest =>
    if b = '\\'.toUInt8 then scan size opened rest.tail
    else if b = '['.toUInt8 then
      match _ : behindClass? rest with
      | some behind => scan size opened behind
      | none => some (.unterminatedClass (offsetBefore size rest))
    else if b = '('.toUInt8 then scan size (offsetBefore size rest :: opened) rest
    else if b = ')'.toUInt8 then
      match opened with
      | [] => some (.unbalancedGroup (offsetBefore size rest))
      | _ :: outer => scan size outer rest
    else if b = '|'.toUInt8 ∧ opened = [] then
      some (.unbalancedGroup (offsetBefore size rest))
    else scan size opened rest
termination_by bytes.length
decreasing_by
  · rw [List.length_tail, List.length_cons]
    omega
  · exact Nat.lt_succ_of_lt (length_behindClass? ‹_›)
  all_goals simp

section Equations

variable {size : Nat} {opened : List Nat} {rest : List UInt8}

theorem scan_class {behind : List UInt8} (h : behindClass? rest = some behind) :
    scan size opened ('['.toUInt8 :: rest) = scan size opened behind := by
  rw [scan.eq_def]
  simp only [show ¬ '['.toUInt8 = '\\'.toUInt8 by decide, if_false, if_true]
  split
  next behind' hbehind => rw [Option.some.inj (h.symm.trans hbehind)]
  next hnone =>
    rw [h] at hnone
    cases hnone

theorem scan_unterminated (h : behindClass? rest = none) :
    scan size opened ('['.toUInt8 :: rest) =
      some (.unterminatedClass (offsetBefore size rest)) := by
  rw [scan.eq_def]
  simp only [show ¬ '['.toUInt8 = '\\'.toUInt8 by decide, if_false, if_true]
  split
  next behind hbehind =>
    rw [h] at hbehind
    cases hbehind
  next => rfl

theorem scan_openGroup : scan size opened ('('.toUInt8 :: rest) =
    scan size (offsetBefore size rest :: opened) rest := by
  rw [scan.eq_def]
  rfl

theorem scan_closeGroup_nil : scan size [] (')'.toUInt8 :: rest) =
    some (.unbalancedGroup (offsetBefore size rest)) := by
  rw [scan.eq_def]
  rfl

theorem scan_closeGroup_cons {last : Nat} {outer : List Nat} :
    scan size (last :: outer) (')'.toUInt8 :: rest) = scan size outer rest := by
  rw [scan.eq_def]
  rfl

theorem scan_bar_nil : scan size [] ('|'.toUInt8 :: rest) =
    some (.unbalancedGroup (offsetBefore size rest)) := by
  rw [scan.eq_def]
  rfl

theorem scan_skipped {b : UInt8} (hbackslash : b ≠ '\\'.toUInt8) (hbracket : b ≠ '['.toUInt8)
    (hopen : b ≠ '('.toUInt8) (hclose : b ≠ ')'.toUInt8)
    (hbar : ¬ (b = '|'.toUInt8 ∧ opened = [])) :
    scan size opened (b :: rest) = scan size opened rest := by
  rw [scan.eq_def]
  simp only [hbackslash, hbracket, hopen, hclose, hbar, if_false]

end Equations

/-- The problem of a whole text, if it has one. -/
def scanText (bytes : List UInt8) : Option PatternError :=
  if bytes = [] then some .empty else scan bytes.length [] (skipCaret bytes)

/-! ## The reader and the scan -/

namespace Draft

/-- The problem that a text of `size` bytes leads to if `bytes` are left of it. -/
def problem? (d : Draft) (size : Nat) (bytes : List UInt8) : Option PatternError :=
  match d.result size bytes with
  | .error e => some e
  | .ok _ => none

theorem problem?_congr {d d' : Draft} {size : Nat} {bytes rest : List UInt8}
    (h : d.result size bytes = d'.result size rest) :
    d.problem? size bytes = d'.problem? size rest := by
  unfold problem?
  rw [h]

theorem problem?_of_error {d : Draft} {size : Nat} {bytes : List UInt8} {e : PatternError}
    (h : d.result size bytes = .error e) : d.problem? size bytes = some e := by
  unfold problem?
  rw [h]

theorem problem?_nil {d : Draft} (hplain : d.phase = .plain) (size : Nat) :
    d.problem? size [] = scan size (d.enclosing.map (·.opened)) [] := by
  unfold problem?
  rw [result_nil hplain, scan.eq_def]
  cases d.enclosing <;> rfl

/-- A byte without a role in the scan is read without opening or closing anything. -/
theorem exists_step_of_skipped {d : Draft} (hplain : d.phase = .plain) {b : UInt8}
    (hbackslash : b ≠ '\\'.toUInt8) (hbracket : b ≠ '['.toUInt8) (hopen : b ≠ '('.toUInt8)
    (hclose : b ≠ ')'.toUInt8) (hbar : ¬ (b = '|'.toUInt8 ∧ d.enclosing.map (·.opened) = []))
    (offset : Nat) (isLast : Bool) :
    ∃ next, d.step offset b isLast = .ok next ∧ next.phase = .plain ∧
      next.enclosing.map (·.opened) = d.enclosing.map (·.opened) := by
  unfold step
  rw [hplain]
  dsimp only
  cases hsign : Sign.ofByte b with
  | openGroup => exact absurd ((Sign.ofByte_eq_iff rfl).mp hsign) hopen
  | closeGroup => exact absurd ((Sign.ofByte_eq_iff rfl).mp hsign) hclose
  | openClass => exact absurd ((Sign.ofByte_eq_iff rfl).mp hsign) hbracket
  | escape => exact absurd ((Sign.ofByte_eq_iff rfl).mp hsign) hbackslash
  | bar =>
      rw [(Sign.ofByte_eq_iff rfl).mp hsign] at hbar
      cases henclosing : d.enclosing with
      | nil => simp [henclosing] at hbar
      | cons g outer =>
          refine ⟨{ d with
            items := []
            enclosing := { g with branches := d.items.reverse :: g.branches } :: outer },
            ?_, hplain, rfl⟩
          simp only [nextBranch?, henclosing]
  | quantifier q =>
      refine ⟨_, rfl, ?_⟩
      rcases d.quantify_cases q b with ⟨_, heq⟩ | ⟨item, earlier, _, _, heq⟩
      · rw [heq]
        exact ⟨rfl, rfl⟩
      · rw [heq]
        exact ⟨hplain, rfl⟩
  | dot | dollar | plain => exact ⟨_, rfl, rfl, rfl⟩

/-- The induction is that of the scan; what the draft holds besides the open
parentheses plays no part. -/
theorem problem?_eq_scan (size : Nat) (opened : List Nat) (bytes : List UInt8) {d : Draft}
    (hplain : d.phase = .plain) (hopened : d.enclosing.map (·.opened) = opened)
    (hsize : bytes.length ≤ size) : d.problem? size bytes = scan size opened bytes := by
  induction opened, bytes using scan.induct size generalizing d with
  | case1 => rw [← hopened, problem?_nil hplain]
  | case2 last tail => rw [← hopened, problem?_nil hplain]
  | case3 opened rest ih =>
      rw [scan.eq_def]
      simp only [if_true]
      cases rest with
      | nil =>
          rw [problem?_congr (result_backslash_last hplain), problem?_nil rfl, ← hopened]
          rfl
      | cons b others =>
          rw [problem?_congr (result_escape hplain hsize)]
          refine ih rfl hopened ?_
          simp only [List.length_cons] at hsize
          exact Nat.le_of_succ_le (Nat.le_of_succ_le hsize)
  | case4 opened rest behind hbehind hne ih =>
      rw [scan_class hbehind]
      obtain ⟨written, negated, hclass, hrest⟩ := exists_class_of_behindClass? hbehind
      rw [problem?_congr (result_class hplain hclass hsize hrest)]
      have hshorter := length_behindClass? hbehind
      rw [List.length_cons] at hsize
      exact ih rfl hopened (by omega)
  | case5 opened rest hbehind hne =>
      rw [scan_unterminated hbehind]
      exact problem?_of_error (result_unterminated hplain (no_bracket_of_behindClass? hbehind))
  | case6 opened rest hne hne' ih =>
      rw [scan_openGroup, problem?_congr (result_openGroup hplain hsize)]
      refine ih hplain ?_ (Nat.le_of_succ_le hsize)
      rw [← hopened]
      rfl
  | case7 rest _ _ _ =>
      rw [scan_closeGroup_nil]
      exact problem?_of_error
        (result_unbalanced hplain (List.map_eq_nil_iff.mp hopened) (.inl (by decide)) rest)
  | case8 rest last tail _ _ _ ih =>
      obtain ⟨g, outer, henclosing, _, htail⟩ := List.map_eq_cons_iff.mp hopened
      have hclose := result_of_feed_cons hsize
        fun offset => feed_closeGroup hplain henclosing offset rest
      rw [scan_closeGroup_cons, problem?_congr hclose]
      exact ih hplain htail (Nat.le_of_succ_le hsize)
  | case9 opened b rest h₁ h₂ h₃ h₄ hbar =>
      obtain ⟨rfl, rfl⟩ := hbar
      rw [scan_bar_nil]
      exact problem?_of_error
        (result_unbalanced hplain (List.map_eq_nil_iff.mp hopened) (.inr (by decide)) rest)
  | case10 opened b rest h₁ h₂ h₃ h₄ hbar ih =>
      rw [← hopened] at hbar
      obtain ⟨next, hstep, hnext, hsame⟩ :=
        exists_step_of_skipped hplain h₁ h₂ h₃ h₄ hbar (size - (b :: rest).length) rest.isEmpty
      have hread : d.result size (b :: rest) = next.result size rest := by
        refine result_of_feed (by rw [feed, hstep]) ?_
        rw [List.length_cons] at hsize ⊢
        omega
      rw [problem?_congr hread, scan_skipped h₁ h₂ h₃ h₄ (hopened ▸ hbar)]
      exact ih hnext (hsame.trans hopened) (Nat.le_of_succ_le hsize)

end Draft

/-! ## Whole texts -/

/-- The scan of what is left of a text never finds that the text is empty. -/
theorem scan_ne_empty (size : Nat) (opened : List Nat) (bytes : List UInt8) :
    scan size opened bytes ≠ some .empty := by
  induction opened, bytes using scan.induct size with
  | case1 => simp [scan.eq_def]
  | case2 => simp [scan.eq_def]
  | case3 opened rest ih =>
      rw [scan.eq_def]
      exact ih
  | case4 opened rest behind hbehind _ ih =>
      rw [scan_class hbehind]
      exact ih
  | case5 opened rest hbehind =>
      rw [scan_unterminated hbehind]
      simp
  | case6 opened rest _ _ ih =>
      rw [scan_openGroup]
      exact ih
  | case7 rest =>
      rw [scan_closeGroup_nil]
      simp
  | case8 rest last tail _ _ _ ih =>
      rw [scan_closeGroup_cons]
      exact ih
  | case9 opened b rest _ _ _ _ hbar =>
      obtain ⟨rfl, rfl⟩ := hbar
      rw [scan_bar_nil]
      simp
  | case10 opened b rest h₁ h₂ h₃ h₄ hbar ih =>
      rw [scan_skipped h₁ h₂ h₃ h₄ hbar]
      exact ih

namespace Pattern

theorem ofBytes_eq_error {bytes : List UInt8} {e : PatternError} :
    ofBytes bytes = .error e ↔ scanText bytes = some e := by
  by_cases hbytes : bytes = []
  · rw [hbytes, ofBytes, scanText, if_pos rfl]
    exact ⟨fun h => congrArg some (Except.error.inj h), fun h => congrArg _ (Option.some.inj h)⟩
  · have hscan := Draft.problem?_eq_scan bytes.length [] (skipCaret bytes) (d := {}) rfl rfl
      (length_skipCaret_le bytes)
    rw [ofBytes_eq_result hbytes, scanText, if_neg hbytes, ← hscan, Draft.problem?]
    cases ({} : Draft).result bytes.length (skipCaret bytes) <;> simp

end Pattern

/-- Only the empty text has the problem of being empty. -/
theorem scanText_eq_empty_iff {bytes : List UInt8} : scanText bytes = some .empty ↔ bytes = [] := by
  unfold scanText
  by_cases h : bytes = []
  · simp [h]
  · simp [h, scan_ne_empty]

/-- A text is read as the grammar reads it. It is a pattern if the scan finds no
problem, and else the first problem that the scan meets is the one that is reported. -/
theorem ofString_reports_scan (text : String) :
    Pattern.ofString text = Grammar.pattern text.toUTF8.toList ∧
      (Pattern.ofString text = .error .empty ↔ text = "") ∧
      (∀ e, Pattern.ofString text = .error e ↔ scanText text.toUTF8.toList = some e) ∧
      ((∃ p, Pattern.ofString text = .ok p) ↔ scanText text.toUTF8.toList = none) := by
  have herror : ∀ e, Pattern.ofString text = .error e ↔ scanText text.toUTF8.toList = some e :=
    fun _ => Pattern.ofBytes_eq_error
  refine ⟨(Grammar.pattern_eq_ofBytes _).symm, ?_, herror, ?_⟩
  · rw [herror, scanText_eq_empty_iff, toUTF8_toList_eq_nil_iff]
  · cases hread : Pattern.ofString text with
    | error e =>
        rw [(herror e).mp hread]
        simp
    | ok p =>
        cases hscan : scanText text.toUTF8.toList with
        | none => simp
        | some e =>
            rw [(herror e).mpr hscan] at hread
            cases hread

end ByteRegex
