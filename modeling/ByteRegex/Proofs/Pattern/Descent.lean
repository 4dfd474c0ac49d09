import ByteRegex.Proofs.Pattern.Grammar
import ByteRegex.Proofs.Pattern.Results

/-!
# The grammar and the reader

The rules of the grammar and the reader make the same of every text: the same
pattern, or the same error at the same offset. A rule that is done with a value
leaves the reader where it would be with the items of that value and what is left
of the text; a rule that fails names the error that the reader ends with, and it
makes no difference that the reader goes on to the end of the text before it does.
A rule that declines has read nothing, and a sequence never declines, so no error
is lost by trying other rules and none is put in the place of another.
-/

namespace ByteRegex

/-! ## Drafts -/

namespace Draft

/-- Between items, and not before a quantifier that would apply to the latest. -/
def Ready (d : Draft) (rest : List UInt8) : Prop :=
  d.phase = .plain ∧ ∀ b ∈ rest.head?, ∀ q, Sign.ofByte b = .quantifier q → d.Settled

/-- The draft inside a group that opens at `opened`, behind the alternatives
`earlier` and the items `items`, with `n` groups inside. -/
def inside (d : Draft) (opened : Nat) (earlier : List (List Item)) (items : List Item)
    (n : Nat) : Draft where
  items := items.reverse
  enclosing := ⟨d.groups + 1, opened, d.items, earlier.reverse⟩ :: d.enclosing
  groups := d.groups + 1 + n

section Inside

variable {d : Draft} {opened : Nat} {earlier : List (List Item)} {items : List Item} {n : Nat}

theorem openGroup_eq_inside (hplain : d.phase = .plain) :
    d.openGroup opened = d.inside opened [] [] 0 := by
  simp [openGroup, inside, hplain]

theorem inside_pushAll (more : List Item) (m : Nat) :
    (d.inside opened earlier items n).pushAll more m =
      d.inside opened earlier (items ++ more) (n + m) := by
  simp [pushAll, inside, Nat.add_assoc]

theorem ready_inside_nil (rest : List UInt8) : (d.inside opened earlier [] n).Ready rest :=
  ⟨rfl, fun _ _ _ _ item hitem => by cases hitem⟩

theorem feed_inside_bar (offset : Nat) (rest : List UInt8) :
    (d.inside opened earlier items n).feed offset ('|'.toUInt8 :: rest) =
      (d.inside opened (earlier ++ [items]) [] n).feed (offset + 1) rest := by
  rw [feed_bar rfl rfl]
  refine feed_congr ?_ rfl rest
  simp [inside]

theorem feed_inside_closeGroup (offset : Nat) (rest : List UInt8) :
    (d.inside opened earlier items n).feed offset (')'.toUInt8 :: rest) =
      (d.pushAll [.group (d.groups + 1) (earlier ++ [items])] (1 + n)).feed (offset + 1) rest := by
  rw [feed_closeGroup rfl rfl]
  refine feed_congr ?_ rfl rest
  simp [inside, pushAll, Nat.add_assoc]

theorem result_inside_nil (size : Nat) :
    (d.inside opened earlier items n).result size [] = .error (.unbalancedGroup opened) := rfl

end Inside

end Draft

namespace Grammar

/-! ## What rules read -/

/-- The bytes behind a sequence: none are left, or the next one ends it. -/
def Stops : List UInt8 → Prop
  | [] => True
  | b :: _ => Sign.ofByte b = .closeGroup ∨ Sign.ofByte b = .bar

/-- What a rule for one item makes of `input`, and what the reader does from `d`.
Of an item and what is left behind it, `after` is known. -/
inductive ReadsOne (size : Nat) (d : Draft) (input : List UInt8)
    (after : Item → List UInt8 → Prop) : Answer Item → Prop
  | item {item : Item} {rest : List UInt8} {n : Nat} (known : after item rest)
      (shorter : rest.length < input.length)
      (result : d.result size input = (d.pushAll [item] n).result size rest) :
      ReadsOne size d input after (.done item rest (d.groups + n))
  | stopped {rest : List UInt8} (stops : Stops input) :
      ReadsOne size d input after (.declined rest d.groups)
  | failed {rest : List UInt8} {cause : Nat → PatternError}
      (result : d.result size input = .error (cause (size - rest.length))) :
      ReadsOne size d input after (.failed rest cause)

/-- What a rule for a sequence makes of `input`, and what the reader does from `d`. -/
inductive ReadsAll (size : Nat) (d : Draft) (input : List UInt8) : Answer (List Item) → Prop
  | items {items : List Item} {rest : List UInt8} {n : Nat} (stops : Stops rest)
      (noLonger : rest.length ≤ input.length)
      (result : d.result size input = (d.pushAll items n).result size rest) :
      ReadsAll size d input (.done items rest (d.groups + n))
  | failed {rest : List UInt8} {cause : Nat → PatternError}
      (result : d.result size input = .error (cause (size - rest.length))) :
      ReadsAll size d input (.failed rest cause)

/-- An item whose rule does not decline is what the first of several rules reads. -/
theorem ReadsOne.orElse {size : Nat} {d : Draft} {input : List UInt8}
    {after : Item → List UInt8 → Prop} {p : Rule Item}
    (h : ReadsOne size d input after (p input d.groups)) (hinput : ¬ Stops input) (q : Rule Item) :
    ReadsOne size d input after ((p.orElse q) input d.groups) := by
  rw [Rule.orElse]
  generalize p input d.groups = answer at h
  cases h with
  | item known shorter result => exact .item known shorter result
  | stopped stops => exact absurd stops hinput
  | failed result => exact .failed result

/-- No quantifier comes next that would apply to the item. -/
def Final (item : Item) (rest : List UInt8) : Prop :=
  ∀ b ∈ rest.head?, ∀ q, Sign.ofByte b = .quantifier q → item.isQuantifiable = false

theorem Final.ready {item : Item} {rest : List UInt8} (h : Final item rest) (d : Draft) (n : Nat) :
    (d.pushAll [item] n).Ready rest := by
  refine ⟨rfl, fun b hb q hq latest hlatest => ?_⟩
  obtain rfl : item = latest := Option.some.inj hlatest
  exact h b hb q hq

/-- As many items as there are in a row. -/
theorem many_readsAll {size bound : Nat} {p : Rule Item}
    (hone : ∀ (d : Draft) (input : List UInt8), input.length < bound → input.length ≤ size →
      d.Ready input → ReadsOne size d input Final (p input d.groups))
    (d : Draft) (input : List UInt8) (hbound : input.length < bound) (hsize : input.length ≤ size)
    (hready : d.Ready input) : ReadsAll size d input (p.many input d.groups) := by
  have hread := hone d input hbound hsize hready
  generalize hanswer : p input d.groups = answer at hread
  cases hread with
  | @item item rest n known shorter result =>
      have hrest := many_readsAll hone (d.pushAll [item] n) rest (by omega) (by omega)
        (known.ready d n)
      change ReadsAll size _ rest (p.many rest (d.groups + n)) at hrest
      rw [many_of_done hanswer shorter]
      generalize p.many rest (d.groups + n) = others at hrest
      cases hrest with
      | items stops noLonger result' =>
          rw [Draft.pushAll_pushAll] at result'
          have hlength := Nat.le_trans noLonger (Nat.le_of_lt shorter)
          exact Nat.add_assoc _ _ _ ▸ .items stops hlength (result.trans result')
      | failed result' => exact .failed (result.trans result')
  | stopped stops =>
      rw [many_of_declined hanswer]
      refine .items (n := 0) stops (Nat.le_refl _) ?_
      simp [Draft.pushAll, ← hready.1]
  | failed result =>
      rw [many_of_failed hanswer]
      exact .failed result
termination_by input.length

/-! ## Items -/

theorem optional_caret (bytes : List UInt8) (groups : Nat) :
    ∃ caret : Option UInt8,
      (byte '^').optional bytes groups = .done caret (skipCaret bytes) groups ∧
        (caret.isSome = true ↔ bytes.head? = some '^'.toUInt8) := by
  cases bytes with
  | nil => exact ⟨none, rfl, by simp⟩
  | cons b others =>
      by_cases hb : b = '^'.toUInt8
      · refine ⟨some b, ?_, by simp [hb]⟩
        simp [Rule.optional, byte, Rule.verify, anyByte, skipCaret, hb]
      · refine ⟨none, ?_, by simpa using hb⟩
        simp [Rule.optional, byte_of_ne hb, skipCaret, hb]

section Items

variable {size : Nat} {d : Draft}

/-- A byte that stands for itself where no other rule reads it. -/
theorem literal_reads {b : UInt8} {rest : List UInt8} (hclose : Sign.ofByte b ≠ .closeGroup)
    (hbar : Sign.ofByte b ≠ .bar) (hsize : rest.length + 1 ≤ size)
    (hfeed : ∀ offset, d.feed offset (b :: rest) = (d.push (.byte b)).feed (offset + 1) rest) :
    ReadsOne size d (b :: rest) (fun _ _ => True) (literal (b :: rest) d.groups) := by
  rw [literal_of_sign hclose hbar]
  exact .item (n := 0) trivial (Nat.lt_succ_self _) (Draft.result_of_feed_cons hsize hfeed)

variable (hplain : d.phase = .plain)
include hplain

theorem charClass_reads (bytes : List UInt8) (hsize : bytes.length + 1 ≤ size) :
    ReadsOne size d ('['.toUInt8 :: bytes) (fun _ _ => True)
      (charClass ('['.toUInt8 :: bytes) d.groups) := by
  obtain ⟨caret, hcaret, hnegated⟩ := optional_caret bytes d.groups
  have hopen : charClass ('['.toUInt8 :: bytes) d.groups =
      ((do
        let _ ← (byte ']').orFail ('['.toUInt8 :: bytes) .unterminatedClass
        return .oneOf ((skipCaret bytes).takeWhile (· ≠ ']'.toUInt8)) caret.isSome : Rule Item))
          ((skipCaret bytes).dropWhile (· ≠ ']'.toUInt8)) d.groups :=
    (bind_of_done byte_self).trans ((bind_of_done hcaret).trans (bind_of_done rfl))
  rw [hopen]
  rcases class_cases bytes with
    ⟨written, negated, behind, hclass, hnegated', hbytes, hskip, _⟩ | ⟨hmem, _⟩
  · rw [hskip, takeWhile_bracket hclass.1, dropWhile_bracket hclass.1]
    have hclose : (byte ']').orFail ('['.toUInt8 :: bytes) .unterminatedClass
        (']'.toUInt8 :: behind) d.groups = .done ']'.toUInt8 behind d.groups := by
      rw [Rule.orFail, byte_self]
    have hflag : caret.isSome = negated := Bool.eq_iff_iff.mpr (hnegated.trans hnegated'.symm)
    rw [bind_of_done hclose, hflag]
    refine .item (n := 0) trivial ?_ ?_
    · rw [hbytes]
      simp only [List.length_cons, List.length_append]
      omega
    · exact Draft.result_class hplain hclass hsize hbytes
  · rw [dropWhile_of_no_bracket hmem]
    exact .failed (Draft.result_unterminated hplain hmem)

theorem escaped_reads (bytes : List UInt8) (hsize : bytes.length + 1 ≤ size) :
    ReadsOne size d ('\\'.toUInt8 :: bytes) (fun _ _ => True)
      (escaped ('\\'.toUInt8 :: bytes) d.groups) := by
  cases bytes with
  | nil => exact .item (n := 0) trivial (by simp) (Draft.result_backslash_last hplain)
  | cons b rest =>
      have hread : escaped ('\\'.toUInt8 :: b :: rest) d.groups =
          .done (.ofEscaped b) rest d.groups :=
        (bind_of_done byte_self).trans (bind_of_done rfl)
      rw [hread]
      exact .item (n := 0) trivial (by simp only [List.length_cons]; omega)
        (Draft.result_escape hplain hsize)

theorem dot_reads (rest : List UInt8) (hsize : rest.length + 1 ≤ size) :
    ReadsOne size d ('.'.toUInt8 :: rest) (fun _ _ => True)
      (dot ('.'.toUInt8 :: rest) d.groups) := by
  have hread : dot ('.'.toUInt8 :: rest) d.groups = .done .any rest d.groups :=
    bind_of_done byte_self
  rw [hread]
  exact .item (n := 0) trivial (Nat.lt_succ_self _)
    (Draft.result_of_feed_cons hsize fun offset => Draft.feed_dot hplain offset rest)

theorem endAnchor_reads :
    ReadsOne size d ['$'.toUInt8] (fun _ _ => True) (endAnchor ['$'.toUInt8] d.groups) := by
  have hread : endAnchor ['$'.toUInt8] d.groups = .done .endAnchor [] d.groups :=
    (bind_of_done byte_self).trans (bind_of_done rfl)
  rw [hread]
  refine .item (n := 0) trivial (Nat.lt_succ_self 0) ?_
  exact Draft.result_of_feed
    ((Draft.feed_dollar_last hplain _).trans (Draft.feed_nil _ size).symm) rfl

end Items

/-! ## Groups -/

/-- The rule `sequence` reads what the reader does, of texts shorter than `bound`. -/
def Follows (sequence : Rule (List Item)) (size bound : Nat) : Prop :=
  ∀ (d : Draft) (input : List UInt8), input.length < bound → input.length ≤ size →
    d.Ready input → ReadsAll size d input (sequence input d.groups)

/-- What the rule for the later alternatives of a group makes of `input`, and what
the reader comes to, if that is `before`. The group has `branches` so far. -/
inductive ReadsBranches (size : Nat) (d : Draft) (opened : Nat) (branches : List (List Item))
    (input : List UInt8) (before : Except PatternError (List Item × Nat)) :
    Answer (List (List Item)) → Prop
  | branches {others earlier : List (List Item)} {last : List Item} {rest : List UInt8} {n : Nat}
      (all : branches ++ others = earlier ++ [last])
      (stops : rest = [] ∨ ∃ behind, rest = ')'.toUInt8 :: behind)
      (noLonger : rest.length ≤ input.length)
      (result : before = (d.inside opened earlier last n).result size rest) :
      ReadsBranches size d opened branches input before (.done others rest (d.groups + 1 + n))
  | failed {rest : List UInt8} {cause : Nat → PatternError}
      (result : before = .error (cause (size - rest.length))) :
      ReadsBranches size d opened branches input before (.failed rest cause)

theorem laterBranches_reads {sequence : Rule (List Item)} {size bound : Nat}
    (hsequence : Follows sequence size bound) (d : Draft) (opened : Nat)
    (earlier : List (List Item)) (items : List Item) (n : Nat) (input : List UInt8)
    (hstops : Stops input) (hbound : input.length ≤ bound) (hsize : input.length ≤ size) :
    ReadsBranches size d opened (earlier ++ [items]) input
      ((d.inside opened earlier items n).result size input)
      (laterBranches sequence input (d.groups + 1 + n)) := by
  cases input with
  | nil =>
      have hnone : laterBranches sequence [] (d.groups + 1 + n) = .done [] [] (d.groups + 1 + n) :=
        many_of_declined rfl
      rw [hnone]
      exact .branches (List.append_nil _) (.inl rfl) (Nat.le_refl 0) rfl
  | cons b rest =>
      rw [List.length_cons] at hbound hsize
      rcases hstops with hclose | hbar
      · rw [laterBranches,
          many_of_declined (bind_byte_of_other_sign (s := .bar) rfl (by rw [hclose]; decide))]
        obtain rfl := (Sign.ofByte_eq_iff rfl).mp hclose
        exact .branches (List.append_nil _) (.inr ⟨rest, rfl⟩) (Nat.le_refl _) rfl
      · obtain rfl := (Sign.ofByte_eq_iff rfl).mp hbar
        have hfeed : (d.inside opened earlier items n).result size ('|'.toUInt8 :: rest) =
            (d.inside opened (earlier ++ [items]) [] n).result size rest :=
          Draft.result_of_feed_cons hsize fun offset => Draft.feed_inside_bar offset rest
        have hread := hsequence (d.inside opened (earlier ++ [items]) [] n) rest (by omega)
          (by omega) (Draft.ready_inside_nil rest)
        rw [hfeed]
        generalize hanswer : sequence rest (d.groups + 1 + n) = answer
        change ReadsAll size _ rest (sequence rest (d.groups + 1 + n)) at hread
        rw [hanswer] at hread
        have hfirst := (bind_of_done (f := fun _ => sequence) (byte_self (c := '|'))).trans hanswer
        cases hread with
        | @items branch behind m stops noLonger result =>
            have hrest := laterBranches_reads hsequence d opened (earlier ++ [items]) branch (n + m)
              behind stops (by omega) (by omega)
            rw [laterBranches, ← Nat.add_assoc] at hrest
            rw [Draft.inside_pushAll, List.nil_append] at result
            rw [laterBranches, many_of_done hfirst (Nat.lt_succ_of_le noLonger)]
            change ReadsBranches _ _ _ _ _ _ (Answer.andThen (Rule.many _ behind
              (d.groups + 1 + n + m)) _)
            generalize Rule.many _ behind (d.groups + 1 + n + m) = others at hrest
            cases hrest with
            | branches all stops' noLonger' result' =>
                refine .branches ?_ stops' ?_ (result.trans result')
                · rw [← all, List.append_assoc (earlier ++ [items])]
                  rfl
                · exact Nat.le_trans noLonger' (Nat.le_succ_of_le noLonger)
            | failed result' => exact .failed (result.trans result')
        | failed result =>
            rw [laterBranches, many_of_failed hfirst]
            exact .failed result
termination_by input.length
decreasing_by
  subst_vars
  exact Nat.lt_succ_of_le ‹_›

/-- The end of a group that began at `start`, or of the text. -/
theorem closeGroup_reads {size : Nat} {d : Draft} {start rest : List UInt8}
    {earlier : List (List Item)} {last : List Item} {n : Nat}
    (hstops : rest = [] ∨ ∃ behind, rest = ')'.toUInt8 :: behind)
    (hsize : rest.length ≤ size) (hshorter : rest.length < start.length)
    (hresult : d.result size start =
      (d.inside (size - start.length) earlier last n).result size rest) :
    ReadsOne size d start (fun _ _ => True)
      ((do
        let _ ← (byte ')').orFail start .unbalancedGroup
        return .group (d.groups + 1) (earlier ++ [last]) : Rule Item) rest (d.groups + 1 + n)) := by
  rcases hstops with rfl | ⟨behind, rfl⟩
  · rw [bind_of_failed rfl]
    exact .failed (hresult.trans (Draft.result_inside_nil size))
  · have hclose : (byte ')').orFail start .unbalancedGroup (')'.toUInt8 :: behind)
        (d.groups + 1 + n) = .done ')'.toUInt8 behind (d.groups + 1 + n) := by
      rw [Rule.orFail, byte_self]
    rw [bind_of_done hclose]
    change ReadsOne _ _ _ _ (.done _ behind (d.groups + 1 + n))
    rw [Nat.add_assoc]
    refine .item trivial (Nat.lt_of_succ_lt hshorter) (hresult.trans ?_)
    exact Draft.result_of_feed_cons hsize fun offset => Draft.feed_inside_closeGroup offset behind

theorem group_reads {sequence : Rule (List Item)} {size bound : Nat}
    (hsequence : Follows sequence size bound) {d : Draft} (hplain : d.phase = .plain)
    (rest : List UInt8) (hbound : rest.length < bound) (hsize : rest.length + 1 ≤ size) :
    ReadsOne size d ('('.toUInt8 :: rest) (fun _ _ => True)
      (group sequence ('('.toUInt8 :: rest) d.groups) := by
  let start := '('.toUInt8 :: rest
  let opened := size - start.length
  have hstart : d.result size start = (d.inside opened [] [] 0).result size rest := by
    rw [← Draft.openGroup_eq_inside hplain]
    exact Draft.result_openGroup hplain hsize
  have hgroup : group sequence start d.groups =
      (do
        let first ← sequence
        let others ← laterBranches sequence
        let _ ← (byte ')').orFail start .unbalancedGroup
        return .group (d.groups + 1) (first :: others) : Rule Item) rest (d.groups + 1) :=
    (bind_of_done byte_self).trans (bind_of_done rfl)
  have hfirst := hsequence (d.inside opened [] [] 0) rest hbound (by omega)
    (Draft.ready_inside_nil rest)
  change ReadsAll size _ rest (sequence rest (d.groups + 1)) at hfirst
  change ReadsOne size d start _ (group sequence start d.groups)
  rw [hgroup]
  generalize hanswer : sequence rest (d.groups + 1) = answer at hfirst
  cases hfirst with
  | failed result =>
      rw [bind_of_failed hanswer]
      exact .failed (hstart.trans result)
  | @items first behind n stops noLonger result =>
      rw [Draft.inside_pushAll, List.nil_append, Nat.zero_add] at result
      have hothers := laterBranches_reads hsequence d opened [] first n behind stops (by omega)
        (by omega)
      rw [bind_of_done hanswer]
      change ReadsOne _ _ _ _ ((laterBranches sequence >>= _) behind (d.groups + 1 + n))
      generalize hbranches : laterBranches sequence behind (d.groups + 1 + n) = answer at hothers
      cases hothers with
      | failed result' =>
          rw [bind_of_failed hbranches]
          exact .failed (hstart.trans (result.trans result'))
      | @branches others earlier last left m all stops' noLonger' result' =>
          have hall : first :: others = earlier ++ [last] := all
          have hshorter : left.length < start.length :=
            Nat.lt_succ_of_le (Nat.le_trans noLonger' noLonger)
          rw [bind_of_done hbranches, hall]
          exact closeGroup_reads stops' (by omega) hshorter
            (hstart.trans (result.trans result'))

/-! ## All items -/

theorem not_stops_of_sign {b : UInt8} {rest : List UInt8} {sign : Sign} (h : Sign.ofByte b = sign)
    (hclose : sign ≠ .closeGroup) (hbar : sign ≠ .bar) : ¬ Stops (b :: rest) := by
  rintro (h' | h')
  · exact hclose (h.symm.trans h')
  · exact hbar (h.symm.trans h')

/-- The byte that comes next decides which rule reads the item. -/
theorem atom_reads {sequence : Rule (List Item)} {size bound : Nat}
    (hsequence : Follows sequence size bound) {d : Draft} {input : List UInt8}
    (hbound : input.length ≤ bound) (hsize : input.length ≤ size) (hready : d.Ready input) :
    ReadsOne size d input (fun _ _ => True) (atom sequence input d.groups) := by
  cases input with
  | nil =>
      rw [atom_nil]
      exact .stopped trivial
  | cons b rest =>
      have hplain := hready.1
      rw [List.length_cons] at hbound hsize
      by_cases hopenGroup : Sign.ofByte b = .openGroup
      · have hinput : ¬ Stops (b :: rest) := not_stops_of_sign hopenGroup (by decide) (by decide)
        obtain rfl := (Sign.ofByte_eq_iff rfl).mp hopenGroup
        exact (group_reads hsequence hplain rest hbound hsize).orElse hinput _
      rw [atom, orElse_of_declined (group_of_other_sign hopenGroup)]
      by_cases hopenClass : Sign.ofByte b = .openClass
      · have hinput : ¬ Stops (b :: rest) := not_stops_of_sign hopenClass (by decide) (by decide)
        obtain rfl := (Sign.ofByte_eq_iff rfl).mp hopenClass
        exact (charClass_reads hplain rest hsize).orElse hinput _
      rw [orElse_of_declined (charClass_of_other_sign hopenClass)]
      by_cases hescape : Sign.ofByte b = .escape
      · have hinput : ¬ Stops (b :: rest) := not_stops_of_sign hescape (by decide) (by decide)
        obtain rfl := (Sign.ofByte_eq_iff rfl).mp hescape
        exact (escaped_reads hplain rest hsize).orElse hinput _
      rw [orElse_of_declined (escaped_of_other_sign hescape)]
      by_cases hdot : Sign.ofByte b = .dot
      · have hinput : ¬ Stops (b :: rest) := not_stops_of_sign hdot (by decide) (by decide)
        obtain rfl := (Sign.ofByte_eq_iff rfl).mp hdot
        exact (dot_reads hplain rest hsize).orElse hinput _
      rw [orElse_of_declined (dot_of_other_sign hdot)]
      by_cases hdollar : Sign.ofByte b = .dollar
      · have hinput : ¬ Stops (b :: rest) := not_stops_of_sign hdollar (by decide) (by decide)
        obtain rfl := (Sign.ofByte_eq_iff rfl).mp hdollar
        cases rest with
        | nil => exact (endAnchor_reads hplain).orElse hinput _
        | cons c others =>
            rw [orElse_of_declined (endAnchor_of_not_last c)]
            exact literal_reads (by decide) (by decide) hsize
              fun offset => Draft.feed_dollar hplain offset (List.cons_ne_nil c others)
      rw [orElse_of_declined (endAnchor_of_other_sign hdollar)]
      cases hsign : Sign.ofByte b with
      | closeGroup =>
          rw [literal_of_end (.inl hsign)]
          exact .stopped (.inl hsign)
      | bar =>
          rw [literal_of_end (.inr hsign)]
          exact .stopped (.inr hsign)
      | quantifier q =>
          have hsettled := hready.2 b rfl q hsign
          exact literal_reads (by simp [hsign]) (by simp [hsign]) hsize
            fun offset => Draft.feed_settled hplain hsettled hsign offset rest
      | plain =>
          exact literal_reads (by simp [hsign]) (by simp [hsign]) hsize
            fun offset => Draft.feed_literal hplain hsign offset rest
      | openGroup => exact absurd hsign hopenGroup
      | openClass => exact absurd hsign hopenClass
      | escape => exact absurd hsign hescape
      | dot => exact absurd hsign hdot
      | dollar => exact absurd hsign hdollar

theorem quantified_reads {sequence : Rule (List Item)} {size bound : Nat}
    (hsequence : Follows sequence size bound) {d : Draft} {input : List UInt8}
    (hbound : input.length ≤ bound) (hsize : input.length ≤ size) (hready : d.Ready input) :
    ReadsOne size d input Final (quantified sequence input d.groups) := by
  have hatom := atom_reads hsequence hbound hsize hready
  rw [quantified]
  generalize hanswer : atom sequence input d.groups = answer at hatom
  cases hatom with
  | stopped stops =>
      rw [bind_of_declined hanswer]
      exact .stopped stops
  | failed result =>
      rw [bind_of_failed hanswer]
      exact .failed result
  | @item base rest n _ shorter result =>
      rw [bind_of_done hanswer]
      cases happlies : base.isQuantifiable with
      | false => exact .item (fun _ _ _ _ => happlies) shorter result
      | true =>
          rw [if_pos rfl]
          rcases optional_quantifier rest (d.groups + n) with
            ⟨b, behind, q, rfl, hsign, hread⟩ | ⟨hnone, hread⟩
          · rw [bind_of_done hread]
            rw [List.length_cons] at shorter
            have hfeed : (d.pushAll [base] n).result size (b :: behind) =
                (d.pushAll [.quantified q base] n).result size behind :=
              Draft.result_of_feed_cons (by omega)
                fun offset => Draft.feed_quantifier rfl hsign rfl happlies offset behind
            exact .item (fun _ _ _ _ => rfl) (by omega) (result.trans hfeed)
          · rw [bind_of_done hread]
            exact .item (fun b hb q hq => absurd hq (hnone b hb q)) shorter result

/-- More depth than there are bytes makes no difference: the reader has no limit. -/
theorem sequence_follows (size depth : Nat) : Follows (sequence depth) size depth := by
  induction depth with
  | zero => exact fun _ _ hbound => absurd hbound (Nat.not_lt_zero _)
  | succ depth ih =>
      exact many_readsAll fun d input hbound hsize hready =>
        quantified_reads ih (Nat.le_of_lt_succ hbound) hsize hready

/-! ## Texts -/

theorem patternFrom_eq (matchStart : Bool) {size : Nat} {body : List UInt8}
    (hsize : body.length ≤ size) :
    patternFrom matchStart size body =
      Pattern.readFrom matchStart (size - body.length) body := by
  have hsequence := sequence_follows size (body.length + 1) {} body (Nat.lt_succ_self _) hsize
    ⟨rfl, fun _ _ _ _ item hitem => nomatch hitem⟩
  rw [Pattern.readFrom_eq_result, patternFrom]
  change ReadsAll _ _ _ (sequence (body.length + 1) body 0) at hsequence
  generalize sequence (body.length + 1) body 0 = answer at hsequence
  cases hsequence with
  | failed result => rw [result]
  | @items items rest n stops noLonger result =>
      rw [result]
      cases rest with
      | nil =>
          rw [Draft.result_nil rfl]
          simp [Draft.pushAll]
      | cons b behind => rw [Draft.result_unbalanced rfl rfl stops]

/-- The grammar and the reader make the same of every text. -/
theorem pattern_eq_ofBytes (bytes : List UInt8) : pattern bytes = Pattern.ofBytes bytes := by
  cases bytes with
  | nil => rfl
  | cons b rest =>
      have hle : rest.length ≤ (b :: rest).length := Nat.le_succ _
      have hoffset : (b :: rest).length - rest.length = 1 := by
        rw [List.length_cons]
        omega
      rw [pattern, Pattern.ofBytes_cons, patternFrom_eq true hle, hoffset,
        patternFrom_eq false (Nat.le_refl _), Nat.sub_self]

end Grammar

end ByteRegex
