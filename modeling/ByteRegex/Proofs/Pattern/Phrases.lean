import ByteRegex.Proofs.Pattern.Readable

/-!
# Reading what comes next

What a draft becomes when a whole phrase is read: an escaped byte, a class from
bracket to bracket, a parenthesis, a quantifier. The phrase may be followed by
anything, so texts that are put together from phrases are read phrase by phrase.
-/

namespace ByteRegex

namespace Draft

/-- The draft with more items, in which `n` groups have been opened and closed. -/
def pushAll (d : Draft) (items : List Item) (n : Nat) : Draft :=
  { d with phase := .plain, items := items.reverse ++ d.items, groups := d.groups + n }

theorem pushAll_pushAll (d : Draft) (xs ys : List Item) (n m : Nat) :
    (d.pushAll xs n).pushAll ys m = d.pushAll (xs ++ ys) (n + m) := by
  simp [pushAll, Nat.add_assoc]

theorem feed_congr {d d' : Draft} {offset offset' : Nat} (hd : d = d')
    (hoffset : offset = offset') (rest : List UInt8) :
    d.feed offset rest = d'.feed offset' rest := by
  rw [hd, hoffset]

/-- A byte that does the same at the end of a text and before. -/
theorem feed_of_step {d next : Draft} {offset : Nat} {b : UInt8}
    (h : ∀ isLast, d.step offset b isLast = .ok next) (rest : List UInt8) :
    d.feed offset (b :: rest) = next.feed (offset + 1) rest := by
  rw [feed, h]

theorem feed_of_step_error {d : Draft} {offset : Nat} {b : UInt8} {e : PatternError}
    (h : ∀ isLast, d.step offset b isLast = .error e) (rest : List UInt8) :
    d.feed offset (b :: rest) = .error e := by
  rw [feed, h]

section Plain

variable {d : Draft} (hplain : d.phase = .plain)
include hplain

theorem feed_openGroup (offset : Nat) (rest : List UInt8) :
    d.feed offset ('('.toUInt8 :: rest) = (d.openGroup offset).feed (offset + 1) rest := by
  have hsign : Sign.ofByte '('.toUInt8 = .openGroup := by decide
  refine feed_of_step (fun isLast => ?_) rest
  simp only [step, hplain, hsign]

theorem feed_closeGroup {g : OpenGroup} {outer : List OpenGroup}
    (henclosing : d.enclosing = g :: outer) (offset : Nat) (rest : List UInt8) :
    d.feed offset (')'.toUInt8 :: rest) =
      { d with
        items := .group g.number (d.items.reverse :: g.branches).reverse :: g.before
        enclosing := outer }.feed (offset + 1) rest := by
  have hsign : Sign.ofByte ')'.toUInt8 = .closeGroup := by decide
  refine feed_of_step (fun isLast => ?_) rest
  simp only [step, hplain, hsign, closeGroup?, henclosing]

theorem feed_bar {g : OpenGroup} {outer : List OpenGroup}
    (henclosing : d.enclosing = g :: outer) (offset : Nat) (rest : List UInt8) :
    d.feed offset ('|'.toUInt8 :: rest) =
      { d with
        items := []
        enclosing := { g with branches := d.items.reverse :: g.branches } :: outer }.feed
          (offset + 1) rest := by
  have hsign : Sign.ofByte '|'.toUInt8 = .bar := by decide
  refine feed_of_step (fun isLast => ?_) rest
  simp only [step, hplain, hsign, nextBranch?, henclosing]

theorem feed_dot (offset : Nat) (rest : List UInt8) :
    d.feed offset ('.'.toUInt8 :: rest) = (d.push .any).feed (offset + 1) rest := by
  have hsign : Sign.ofByte '.'.toUInt8 = .dot := by decide
  refine feed_of_step (fun isLast => ?_) rest
  simp only [step, hplain, hsign]

theorem feed_literal {b : UInt8} (hsign : Sign.ofByte b = .plain) (offset : Nat)
    (rest : List UInt8) :
    d.feed offset (b :: rest) = (d.push (.byte b)).feed (offset + 1) rest := by
  refine feed_of_step (fun isLast => ?_) rest
  simp only [step, hplain, hsign]

theorem feed_backslash (offset : Nat) (rest : List UInt8) :
    d.feed offset ('\\'.toUInt8 :: rest) = { d with phase := .escaped }.feed (offset + 1) rest := by
  have hsign : Sign.ofByte '\\'.toUInt8 = .escape := by decide
  refine feed_of_step (fun isLast => ?_) rest
  simp only [step, hplain, hsign]

/-- A backslash and the byte that it escapes. -/
theorem feed_escape (offset : Nat) (b : UInt8) (rest : List UInt8) :
    d.feed offset ('\\'.toUInt8 :: b :: rest) =
      (d.push (.ofEscaped b)).feed (offset + 2) rest := by
  rw [feed_backslash hplain, feed_of_step fun _ => rfl]
  rfl

theorem feed_quantifier {b : UInt8} {q : Quantifier} (hsign : Sign.ofByte b = .quantifier q)
    {item : Item} {earlier : List Item} (hitems : d.items = item :: earlier)
    (happlies : item.isQuantifiable = true) (offset : Nat) (rest : List UInt8) :
    d.feed offset (b :: rest) =
      { d with items := .quantified q item :: earlier }.feed (offset + 1) rest := by
  refine feed_of_step (fun isLast => ?_) rest
  simp [step, hplain, hsign, quantify, hitems, happlies]

/-- A quantifier with nothing to apply to. -/
theorem feed_settled (hsettled : d.Settled) {b : UInt8} {q : Quantifier}
    (hsign : Sign.ofByte b = .quantifier q) (offset : Nat) (rest : List UInt8) :
    d.feed offset (b :: rest) = (d.push (.byte b)).feed (offset + 1) rest := by
  refine feed_of_step (fun isLast => ?_) rest
  simp only [step, hplain, hsign]
  rcases d.quantify_cases q b with ⟨_, hpush⟩ | ⟨item, earlier, hitems, happlies, _⟩
  · rw [hpush]
  · rw [hsettled item (by rw [hitems]; rfl)] at happlies
    cases happlies

theorem feed_dollar (offset : Nat) {rest : List UInt8} (hrest : rest ≠ []) :
    d.feed offset ('$'.toUInt8 :: rest) =
      (d.push (.byte '$'.toUInt8)).feed (offset + 1) rest := by
  have hsign : Sign.ofByte '$'.toUInt8 = .dollar := by decide
  have hlast : rest.isEmpty = false := by simpa using hrest
  simp [feed, step, hplain, hsign, hlast]

theorem feed_dollar_last (offset : Nat) :
    d.feed offset ['$'.toUInt8] = .ok (d.push .endAnchor) := by
  have hsign : Sign.ofByte '$'.toUInt8 = .dollar := by decide
  simp [feed, step, hplain, hsign]

theorem feed_openClass (offset : Nat) (rest : List UInt8) :
    d.feed offset ('['.toUInt8 :: rest) =
      { d with phase := .classStart offset }.feed (offset + 1) rest := by
  have hsign : Sign.ofByte '['.toUInt8 = .openClass := by decide
  refine feed_of_step (fun isLast => ?_) rest
  simp only [step, hplain, hsign]

end Plain

/-! ## Classes -/

/-- Inside a class every byte but `]` is a member. -/
theorem feed_members {d : Draft} {opened : Nat} {negated : Bool} {seen written : List UInt8}
    (hphase : d.phase = .classBody opened negated seen) (hopen : ']'.toUInt8 ∉ written)
    (offset : Nat) (rest : List UInt8) :
    d.feed offset (written ++ rest) =
      { d with phase := .classBody opened negated (written.reverse ++ seen) }.feed
        (offset + written.length) rest := by
  induction written generalizing d offset seen with
  | nil => simp [← hphase]
  | cons b others ih =>
      rw [List.mem_cons, not_or] at hopen
      have hstep : ∀ isLast, d.step offset b isLast =
          .ok { d with phase := .classBody opened negated (b :: seen) } := by
        intro isLast
        rw [step_classBody hphase, if_neg (Ne.symm hopen.1)]
      rw [List.cons_append, feed_of_step hstep, ih rfl hopen.2]
      simp [Nat.add_assoc, Nat.add_comm 1]

/-- The members of a class and the bracket that ends it. -/
theorem feed_classBody {d : Draft} {opened : Nat} {negated : Bool} {seen written : List UInt8}
    (hphase : d.phase = .classBody opened negated seen) (hopen : ']'.toUInt8 ∉ written)
    (offset : Nat) (rest : List UInt8) :
    d.feed offset (written ++ ']'.toUInt8 :: rest) =
      (d.push (.oneOf (seen.reverse ++ written) negated)).feed
        (offset + written.length + 1) rest := by
  rw [feed_members hphase hopen, feed_of_step fun _ => by rw [step_classBody rfl, if_pos rfl]]
  simp [push]

/-- A class that is written between brackets. -/
theorem feed_class {d : Draft} (hplain : d.phase = .plain) {written : List UInt8}
    {negated : Bool} (hclass : ClassBytes written negated) (offset : Nat) (rest : List UInt8) :
    d.feed offset ('['.toUInt8 :: ((if negated then ['^'.toUInt8] else []) ++ written ++
      ']'.toUInt8 :: rest)) =
      (d.push (.oneOf written negated)).feed
        (offset + 1 + (if negated then 1 else 0) + written.length + 1) rest := by
  obtain ⟨hopen, hcaret⟩ := hclass
  rw [List.append_assoc, feed_openClass hplain]
  cases negated with
  | true =>
      simp only [if_true, List.singleton_append]
      rw [feed_of_step fun _ => by rw [step_classStart rfl, if_pos rfl],
        feed_classBody rfl hopen]
      rfl
  | false =>
      simp only [Bool.false_eq_true, if_false, List.nil_append]
      cases written with
      | nil =>
          rw [List.nil_append, feed_of_step fun _ => by
            rw [step_classStart rfl, if_neg (by decide), if_pos rfl]]
          rfl
      | cons b others =>
          rw [List.mem_cons, not_or] at hopen
          have hb : b ≠ '^'.toUInt8 := fun h => hcaret rfl (by rw [h]; rfl)
          rw [List.cons_append, feed_of_step fun _ => by
            rw [step_classStart rfl, if_neg hb, if_neg (Ne.symm hopen.1)],
            feed_classBody rfl hopen.2, List.length_cons,
            show offset + 1 + 0 + (others.length + 1) + 1 =
              offset + 1 + 1 + others.length + 1 by omega]
          rfl

end Draft

end ByteRegex
