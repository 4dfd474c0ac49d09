import ByteRegex.Proofs.Graph.Faults
import ByteRegex.Proofs.Pattern.GroupNumbers
import ByteRegex.Proofs.Pattern.Reads
import ByteRegex.Proofs.Text.Encoding
import ByteRegex.Regex

/-!
# The trees that a text stands for

Not every tree is read from a text. `Pattern.readable_of_ofBytes` says what all
trees that are have in common: quantifiers apply to items that can be
quantified, references go to the groups 1 to 9, an end anchor is the last item of
all, and the groups are numbered from 1 on in the order in which they open.
Such a tree has no fault, so every text that is a pattern has a graph.
-/

namespace ByteRegex

/-- The bytes between the brackets of a class. The first `]` ends a class, and
only in a negated one a `^` can come first. -/
def ClassBytes (written : List UInt8) (negated : Bool) : Prop :=
  ']'.toUInt8 ∉ written ∧ (negated = false → written.head? ≠ some '^'.toUInt8)

mutual

/-- An item as it is read inside a text. -/
def Item.Readable : Item → Prop
  | .byte _ | .any => True
  | .oneOf written negated => ClassBytes written negated
  | .quantified _ inner => inner.isQuantifiable = true ∧ inner.Readable
  | .group _ alternatives => alternatives ≠ [] ∧ branchesReadable alternatives
  | .backreference number => 1 ≤ number ∧ number ≤ 9
  | .endAnchor => False

/-- A sequence of such items. -/
def itemsReadable : List Item → Prop
  | [] => True
  | item :: rest => item.Readable ∧ itemsReadable rest

/-- Alternatives of such items. -/
def branchesReadable : List (List Item) → Prop
  | [] => True
  | items :: rest => itemsReadable items ∧ branchesReadable rest

end

/-- A pattern as it is read from a text. -/
structure Pattern.Readable (p : Pattern) : Prop where
  items : ∃ items, itemsReadable items ∧ (p.items = items ∨ p.items = items ++ [.endAnchor])
  numbers : itemsNumbers p.items = List.range' 1 p.groups

@[simp] theorem itemsReadable_nil : itemsReadable [] := trivial

@[simp] theorem itemsReadable_cons {item : Item} {rest : List Item} :
    itemsReadable (item :: rest) ↔ item.Readable ∧ itemsReadable rest := by
  rw [itemsReadable]

@[simp] theorem branchesReadable_nil : branchesReadable [] := trivial

@[simp] theorem branchesReadable_cons {items : List Item} {rest : List (List Item)} :
    branchesReadable (items :: rest) ↔ itemsReadable items ∧ branchesReadable rest := by
  rw [branchesReadable]

theorem itemsReadable_append {xs ys : List Item} :
    itemsReadable (xs ++ ys) ↔ itemsReadable xs ∧ itemsReadable ys := by
  induction xs with
  | nil => simp
  | cons item rest ih => simp [ih, and_assoc]

theorem itemsReadable_reverse {xs : List Item} :
    itemsReadable xs.reverse ↔ itemsReadable xs := by
  induction xs with
  | nil => simp
  | cons item rest ih => simp [itemsReadable_append, ih, and_comm]

theorem branchesReadable_append {xs ys : List (List Item)} :
    branchesReadable (xs ++ ys) ↔ branchesReadable xs ∧ branchesReadable ys := by
  induction xs with
  | nil => simp
  | cons items rest ih => simp [ih, and_assoc]

theorem branchesReadable_reverse {xs : List (List Item)} :
    branchesReadable xs.reverse ↔ branchesReadable xs := by
  induction xs with
  | nil => simp
  | cons items rest ih => simp [branchesReadable_append, ih, and_comm]

/-! ## Readable trees have no fault -/

/-- An item inside a text never ends its chain. -/
theorem Item.Readable.endsChain_eq {item : Item} (h : item.Readable) :
    item.endsChain = false := by
  cases item with
  | endAnchor => exact h.elim
  | quantified q inner =>
      rw [Item.Readable] at h
      cases inner with
      | endAnchor => exact h.2.elim
      | _ => rfl
  | _ => rfl

theorem anchorFault?_eq_none {here : NodeId} {exit : Option NodeId} {items : List Item}
    (h : itemsReadable items) : anchorFault? here exit items = none := by
  induction items generalizing here with
  | nil => rfl
  | cons item rest ih =>
      rw [itemsReadable_cons] at h
      rw [anchorFault?_cons_eq_none]
      refine ⟨fun hends => ?_, ih h.2⟩
      rw [h.1.endsChain_eq] at hends
      cases hends

mutual

theorem Item.Readable.shapeFault?_eq_none : ∀ (item : Item) (here : NodeId),
    item.Readable → (∀ n ∈ item.numbers, n ≠ 0) → item.shapeFault? here = none
  | .byte _, _, _, _ | .any, _, _, _ | .oneOf _ _, _, _, _ | .endAnchor, _, _, _ => by
      rw [Item.shapeFault?]
  | .backreference number, _, h, _ => by
      rw [Item.Readable] at h
      rw [Item.shapeFault?, numberFault?_eq_none]
      exact Nat.ne_of_gt h.1
  | .quantified q inner, here, h, hnumbers => by
      rw [Item.Readable] at h
      obtain ⟨hquantifiable, hinner⟩ := h
      have hfault := Item.Readable.shapeFault?_eq_none inner here hinner hnumbers
      rw [Item.shapeFault?]
      · exact hfault
      · rintro r other rfl
        cases hquantifiable
  | .group number alternatives, here, h, hnumbers => by
      rw [Item.Readable] at h
      rw [Item.numbers, List.forall_mem_cons] at hnumbers
      rw [Item.shapeFault?_group_eq_none]
      exact ⟨hnumbers.1,
        branchesFault?_eq_none alternatives (here + 1) (here + 2) h.2 hnumbers.2⟩

theorem itemsFault?_eq_none : ∀ (items : List Item) (here : NodeId),
    itemsReadable items → (∀ n ∈ itemsNumbers items, n ≠ 0) → itemsFault? here items = none
  | [], _, _, _ => rfl
  | item :: rest, here, h, hnumbers => by
      rw [itemsReadable_cons] at h
      rw [itemsNumbers_cons, List.forall_mem_append] at hnumbers
      rw [itemsFault?_cons_eq_none]
      exact ⟨Item.Readable.shapeFault?_eq_none item here h.1 hnumbers.1,
        itemsFault?_eq_none rest (here + item.nodeCount) h.2 hnumbers.2⟩

theorem branchesFault?_eq_none : ∀ (branches : List (List Item)) (tail here : NodeId),
    branchesReadable branches → (∀ n ∈ branchesNumbers branches, n ≠ 0) →
      branchesFault? tail here branches = none
  | [], _, _, _, _ => rfl
  | items :: rest, tail, here, h, hnumbers => by
      rw [branchesReadable_cons] at h
      rw [branchesNumbers_cons, List.forall_mem_append] at hnumbers
      rw [branchesFault?_cons_eq_none]
      exact ⟨⟨itemsFault?_eq_none items here h.1 hnumbers.1, anchorFault?_eq_none h.1⟩,
        branchesFault?_eq_none rest tail (here + itemsNodeCount items) h.2 hnumbers.2⟩

end

/-- An end anchor behind readable items has nothing to continue at. -/
theorem faults_append_endAnchor {items : List Item} (h : itemsReadable items)
    (hnumbers : ∀ n ∈ itemsNumbers items, n ≠ 0) (here : NodeId) :
    itemsFault? here (items ++ [.endAnchor]) = none ∧
      anchorFault? here none (items ++ [.endAnchor]) = none := by
  induction items generalizing here with
  | nil => exact ⟨rfl, rfl⟩
  | cons item rest ih =>
      rw [itemsReadable_cons] at h
      rw [itemsNumbers_cons, List.forall_mem_append] at hnumbers
      obtain ⟨hitems, hanchors⟩ := ih h.2 hnumbers.2 (here + item.nodeCount)
      rw [List.cons_append, itemsFault?_cons_eq_none, anchorFault?_cons_eq_none]
      refine ⟨⟨Item.Readable.shapeFault?_eq_none item here h.1 hnumbers.1, hitems⟩,
        fun hends => ?_, hanchors⟩
      rw [h.1.endsChain_eq] at hends
      cases hends

theorem Pattern.Readable.groupNumbers_ne_zero {p : Pattern} (h : p.Readable) :
    ∀ n ∈ itemsNumbers p.items, n ≠ 0 := by
  intro n hn
  rw [h.numbers] at hn
  exact Nat.ne_of_gt (List.mem_range'_1.mp hn).1

theorem Pattern.Readable.shapeFault?_eq_none {p : Pattern} (h : p.Readable) :
    p.shapeFault? = none := by
  obtain ⟨items, hitems, heq⟩ := h.items
  have hnumbers := h.groupNumbers_ne_zero
  rw [Pattern.shapeFault?_eq_none]
  rcases heq with heq | heq
  · rw [heq] at hnumbers ⊢
    exact ⟨itemsFault?_eq_none items 0 hitems hnumbers, anchorFault?_eq_none hitems⟩
  · rw [heq, itemsNumbers_append, List.forall_mem_append] at hnumbers
    rw [heq]
    exact faults_append_endAnchor hitems hnumbers.1 0

/-! ## What the reader keeps -/

/-- The numbers of the groups in a part of a text: of the groups that are open,
with what stands before them and what they hold, outermost first. -/
def openNumbers : List OpenGroup → List Nat
  | [] => []
  | g :: outer =>
    openNumbers outer ++ itemsNumbers g.before.reverse ++
      g.number :: branchesNumbers g.branches.reverse

namespace Draft

/-- The numbers of all groups read so far, in the order in which they opened. -/
def numbers (d : Draft) : List Nat :=
  openNumbers d.enclosing ++ itemsNumbers d.items.reverse

/-- Groups are numbered from 1 on in the order in which they open. -/
def Numbered (d : Draft) : Prop :=
  d.numbers = List.range' 1 d.groups

theorem numbers_push (d : Draft) (item : Item) :
    (d.push item).numbers = d.numbers ++ item.numbers := by
  simp [numbers, push, itemsNumbers_append]

theorem Numbered.push {d : Draft} (h : d.Numbered) {item : Item} (hitem : item.numbers = []) :
    (d.push item).Numbered := by
  unfold Numbered at h ⊢
  rw [numbers_push, hitem, List.append_nil, h]
  rfl

theorem Numbered.reads {d d' : Draft} {offset : Nat} {b : UInt8} {isLast : Bool}
    (h : d.Numbered) (hreads : d.Reads offset b isLast d') : d'.Numbered := by
  cases hreads with
  | any | endAnchor | literal | emptyClass | endClass => exact h.push rfl
  | escaped =>
      apply h.push
      unfold Item.ofEscaped
      split
      · rfl
      · split
        · rfl
        · split <;> rfl
  | openClass | escape | negate | firstMember | member => exact h
  | quantify phase q sign item earlier items applies =>
      unfold Numbered numbers at h
      simpa [Numbered, numbers, items, Item.numbers, itemsNumbers_append] using h
  | openGroup phase sign =>
      unfold Numbered numbers at h
      simp only [Numbered, numbers, Draft.openGroup, openNumbers, h, List.reverse_nil,
        itemsNumbers_nil, branchesNumbers_nil, List.append_nil]
      rw [List.range'_1_concat, Nat.add_comm 1]
  | closeGroup phase sign g outer enclosing =>
      unfold Numbered numbers at h
      simpa [Numbered, numbers, enclosing, openNumbers, Item.numbers, itemsNumbers_append,
        branchesNumbers_append] using h
  | nextBranch phase sign g outer enclosing =>
      unfold Numbered numbers at h
      simpa [Numbered, numbers, enclosing, openNumbers, itemsNumbers_append,
        branchesNumbers_append] using h

/-- What has been read of a class that is still open. -/
def PhaseReadable : Phase → Prop
  | .classBody _ negated written =>
    ']'.toUInt8 ∉ written ∧ (negated = false → written ≠ [] ∧ written.getLast? ≠ some '^'.toUInt8)
  | .plain | .escaped | .classStart _ => True

/-- All parts of the draft are readable. -/
structure Readable (d : Draft) : Prop where
  items : itemsReadable d.items
  enclosing : ∀ g ∈ d.enclosing, itemsReadable g.before ∧ branchesReadable g.branches
  phase : PhaseReadable d.phase

theorem Readable.push {d : Draft} (h : d.Readable) {item : Item} (hitem : item.Readable) :
    (d.push item).Readable :=
  ⟨itemsReadable_cons.mpr ⟨hitem, h.items⟩, h.enclosing, trivial⟩

end Draft

theorem Item.readable_ofEscaped (b : UInt8) : (Item.ofEscaped b).Readable := by
  unfold Item.ofEscaped
  by_cases hd : b = 'd'.toUInt8
  · rw [if_pos hd]
    exact ⟨by decide, fun _ => by decide⟩
  · rw [if_neg hd]
    by_cases hw : b = 'w'.toUInt8
    · rw [if_pos hw]
      exact ⟨by decide, fun _ => by decide⟩
    · rw [if_neg hw]
      by_cases hdigit : '1'.toUInt8 ≤ b ∧ b ≤ '9'.toUInt8
      · rw [if_pos hdigit]
        obtain ⟨hlow, hhigh⟩ := hdigit
        have hlow : 49 ≤ b.toNat := hlow
        have hhigh : b.toNat ≤ 57 := hhigh
        have hsub : (b - '0'.toUInt8).toNat = b.toNat - 48 :=
          UInt8.toNat_sub_of_le b 48 (UInt8.le_iff_toNat_le.mpr (by
            change 48 ≤ b.toNat
            omega))
        rw [Item.Readable, hsub]
        omega
      · rw [if_neg hdigit]
        trivial

namespace Draft

/-- Every byte but a `$` that ends the text keeps a draft readable. -/
theorem Readable.reads {d d' : Draft} {offset : Nat} {b : UInt8} {isLast : Bool}
    (h : d.Readable) (hreads : d.Reads offset b isLast d')
    (hanchor : d.phase = .plain → b = '$'.toUInt8 → isLast = false) : d'.Readable := by
  cases hreads with
  | any | literal => exact h.push trivial
  | endAnchor phase sign last =>
      rw [hanchor phase ((Sign.ofByte_eq_iff rfl).mp sign)] at last
      cases last
  | escaped => exact h.push (Item.readable_ofEscaped b)
  | openClass | escape => exact ⟨h.items, h.enclosing, trivial⟩
  | openGroup phase sign =>
      refine ⟨trivial, ?_, h.phase⟩
      intro g hg
      rcases List.mem_cons.mp hg with rfl | hg
      · exact ⟨h.items, trivial⟩
      · exact h.enclosing g hg
  | closeGroup phase sign g outer enclosing =>
      have hopen := h.enclosing g (by simp [enclosing])
      refine ⟨itemsReadable_cons.mpr ⟨?_, hopen.1⟩, fun g' hg' => ?_, h.phase⟩
      · rw [Item.Readable]
        refine ⟨by simp, branchesReadable_reverse.mpr ?_⟩
        exact branchesReadable_cons.mpr ⟨itemsReadable_reverse.mpr h.items, hopen.2⟩
      · exact h.enclosing g' (by rw [enclosing]; exact List.mem_cons_of_mem g hg')
  | nextBranch phase sign g outer enclosing =>
      have hopen := h.enclosing g (by simp [enclosing])
      refine ⟨trivial, ?_, h.phase⟩
      intro g' hg'
      rcases List.mem_cons.mp hg' with rfl | hg'
      · exact ⟨hopen.1, branchesReadable_cons.mpr
          ⟨itemsReadable_reverse.mpr h.items, hopen.2⟩⟩
      · exact h.enclosing g' (by rw [enclosing]; exact List.mem_cons_of_mem g hg')
  | quantify phase q sign item earlier items applies =>
      have hitems := h.items
      rw [items, itemsReadable_cons] at hitems
      refine ⟨itemsReadable_cons.mpr ⟨?_, hitems.2⟩, h.enclosing, h.phase⟩
      rw [Item.Readable]
      exact ⟨applies, hitems.1⟩
  | negate opened phase caret => exact ⟨h.items, h.enclosing, by simp [PhaseReadable]⟩
  | emptyClass opened phase bracket => exact h.push ⟨by simp, by simp⟩
  | firstMember opened phase caret bracket =>
      refine ⟨h.items, h.enclosing, ?_⟩
      simpa [PhaseReadable, eq_comm] using And.intro bracket caret
  | endClass opened negated written phase bracket =>
      have hphase := h.phase
      rw [phase] at hphase
      obtain ⟨hbracket, hcaret⟩ := hphase
      refine h.push ⟨by simpa using hbracket, fun hnegated => ?_⟩
      rw [List.head?_reverse]
      exact (hcaret hnegated).2
  | member opened negated written phase bracket =>
      have hphase := h.phase
      rw [phase] at hphase
      obtain ⟨hbracket, hcaret⟩ := hphase
      refine ⟨h.items, h.enclosing, ?_, fun hnegated => ⟨by simp, ?_⟩⟩
      · intro hmem
        rcases List.mem_cons.mp hmem with heq | hmem
        · exact bracket heq.symm
        · exact hbracket hmem
      · obtain ⟨hnil, hlast⟩ := hcaret hnegated
        rwa [List.getLast?_cons_of_ne_nil hnil]

/-- What a finished text leaves: nothing open, and at most a lone backslash to
be taken as itself. -/
theorem finish_eq_ok {d : Draft} {items : List Item} (h : d.finish = .ok items) :
    d.enclosing = [] ∧
      ((d.phase = .plain ∧ items = d.items.reverse) ∨
        (d.phase = .escaped ∧ items = d.items.reverse ++ [.byte '\\'.toUInt8])) := by
  unfold finish at h
  cases hphase : d.phase with
  | classStart opened => simp [hphase] at h
  | classBody opened negated written => simp [hphase] at h
  | plain =>
      cases henclosing : d.enclosing with
      | nil =>
          simp only [hphase, henclosing, Except.ok.injEq] at h
          exact ⟨rfl, .inl ⟨rfl, h.symm⟩⟩
      | cons g outer => simp [hphase, henclosing] at h
  | escaped =>
      cases henclosing : d.enclosing with
      | nil =>
          simp only [hphase, henclosing, Except.ok.injEq, List.reverse_cons] at h
          exact ⟨rfl, .inr ⟨rfl, h.symm⟩⟩
      | cons g outer => simp [hphase, henclosing] at h

end Draft

/-- A final `$` between items ends the text with an end anchor. -/
theorem Draft.Reads.finish_dollar {d d' : Draft} {offset : Nat} {items : List Item}
    (h : d.Reads offset '$'.toUInt8 true d') (hplain : d.phase = .plain)
    (hfinish : d'.finish = .ok items) : items = d.items.reverse ++ [.endAnchor] := by
  have hphase := (Draft.finish_eq_ok hfinish).2
  rcases h.dollar_cases with ⟨_, rfl⟩ | ⟨hescaped, _⟩ | ⟨opened, negated, written, hclass⟩
  · rcases hphase with ⟨_, rfl⟩ | ⟨hescaped, _⟩
    · exact List.reverse_cons
    · cases hescaped
  · rw [hplain] at hescaped
    cases hescaped
  · simp [hclass] at hphase

/-! ## What is read -/

namespace Pattern

theorem readFrom_eq_ok {matchStart : Bool} {offset : Nat} {body : List UInt8} {p : Pattern} :
    readFrom matchStart offset body = .ok p ↔
      ∃ d, ({} : Draft).feed offset body = .ok d ∧ d.finish = .ok p.items ∧
        p.matchStart = matchStart ∧ p.groups = d.groups := by
  unfold readFrom
  cases hfeed : ({} : Draft).feed offset body with
  | error e => simp
  | ok d =>
      cases hfinish : d.finish with
      | error e => simp [hfinish]
      | ok items =>
          obtain ⟨start, read, groups⟩ := p
          simp only [hfinish, Except.ok.injEq, Pattern.mk.injEq]
          constructor
          · rintro ⟨rfl, rfl, rfl⟩
            exact ⟨d, rfl, hfinish, rfl, rfl⟩
          · rintro ⟨d₁, rfl, hitems, rfl, rfl⟩
            rw [hfinish] at hitems
            exact ⟨rfl, Except.ok.inj hitems, rfl⟩

theorem ofBytes_cons (b : UInt8) (rest : List UInt8) :
    ofBytes (b :: rest) =
      if b = '^'.toUInt8 then readFrom true 1 rest else readFrom false 0 (b :: rest) := rfl

/-- A text is read from its start or, if a `^` ties it there, from behind it. -/
theorem ofBytes_eq_ok {bytes : List UInt8} {p : Pattern} (h : ofBytes bytes = .ok p) :
    ∃ offset body d, bytes = (if p.matchStart then ['^'.toUInt8] else []) ++ body ∧
      (p.matchStart = false → body ≠ []) ∧ ({} : Draft).feed offset body = .ok d ∧
      d.finish = .ok p.items ∧ p.groups = d.groups := by
  cases bytes with
  | nil => cases h
  | cons b rest =>
      rw [ofBytes_cons] at h
      by_cases hcaret : b = '^'.toUInt8
      · rw [if_pos hcaret] at h
        obtain ⟨d, hfeed, hfinish, hstart, hgroups⟩ := readFrom_eq_ok.mp h
        exact ⟨1, rest, d, by simp [hstart, hcaret], by simp [hstart], hfeed, hfinish, hgroups⟩
      · rw [if_neg hcaret] at h
        obtain ⟨d, hfeed, hfinish, hstart, hgroups⟩ := readFrom_eq_ok.mp h
        exact ⟨0, b :: rest, d, by simp [hstart], by simp, hfeed, hfinish, hgroups⟩

/-- What a readable draft leaves at the end of a text. -/
theorem itemsReadable_of_finish {d : Draft} {items : List Item} (h : d.Readable)
    (hfinish : d.finish = .ok items) : itemsReadable items := by
  have hread := itemsReadable_reverse.mpr h.items
  rcases (Draft.finish_eq_ok hfinish).2 with ⟨_, rfl⟩ | ⟨_, rfl⟩
  · exact hread
  · exact itemsReadable_append.mpr ⟨hread, trivial, trivial⟩

/-- Everything that is read is readable. -/
theorem readable_of_ofBytes {bytes : List UInt8} {p : Pattern} (h : ofBytes bytes = .ok p) :
    p.Readable := by
  obtain ⟨offset, body, d, _, _, hfeed, hfinish, hgroups⟩ := ofBytes_eq_ok h
  obtain ⟨henclosing, hitems⟩ := Draft.finish_eq_ok hfinish
  constructor
  · have hempty : ({} : Draft).Readable := ⟨trivial, by simp, trivial⟩
    have hkeep : ∀ (_ : List UInt8) (d : Draft) offset b d', d.Readable →
        d.Reads offset b false d' → d'.Readable :=
      fun _ d offset b d' hd hreads => hd.reads hreads (by simp)
    by_cases hbody : body = []
    · subst hbody
      cases hfeed
      exact ⟨p.items, itemsReadable_of_finish hempty hfinish, .inl rfl⟩
    obtain ⟨_, b, d₁, last, _, hread, hreads⟩ :=
      Draft.feed_keeps_but_last hkeep [] hempty hbody hfeed
    by_cases hanchor : d₁.phase = .plain ∧ b = '$'.toUInt8
    · obtain ⟨hplain, rfl⟩ := hanchor
      refine ⟨d₁.items.reverse, itemsReadable_reverse.mpr hread.items, .inr ?_⟩
      exact hreads.finish_dollar hplain hfinish
    · have hreadable := hread.reads hreads (by simpa using hanchor)
      exact ⟨p.items, itemsReadable_of_finish hreadable hfinish, .inl rfl⟩
  · have hempty : ({} : Draft).Numbered := rfl
    have hnumbered : d.Numbered :=
      Draft.feed_keeps (fun _ _ _ _ _ hd hreads => Draft.Numbered.reads hd hreads) hempty hfeed
    unfold Draft.Numbered Draft.numbers at hnumbered
    rw [henclosing, ← hgroups] at hnumbered
    rcases hitems with ⟨_, hitems⟩ | ⟨_, hitems⟩
    · rw [hitems]
      exact hnumbered
    · rw [hitems, itemsNumbers_append]
      simpa [openNumbers, Item.numbers] using hnumbered

/-- A text is read from the bytes of its characters. -/
theorem ofString_eq (text : String) :
    ofString text = ofBytes (text.toList.flatMap String.utf8EncodeChar) := by
  rw [ofString, toUTF8_toList]

/-- Every text that is a pattern has a graph. -/
theorem exists_toProgram_of_ofBytes {bytes : List UInt8} {p : Pattern}
    (h : ofBytes bytes = .ok p) : ∃ program, p.toProgram = .ok program :=
  ⟨_, toProgram_eq_ok (readable_of_ofBytes h).shapeFault?_eq_none⟩

end Pattern

namespace Regex

theorem compile_of_ofString {text : String} {p : Pattern} (h : Pattern.ofString text = .ok p)
    {program : Program} (hprogram : p.toProgram = .ok program) :
    compile text = .ok ⟨program, p.matchStart, p.matchEnd⟩ := by
  simp [compile, h, ofPattern, hprogram]

/-- A text that compiles is a pattern, and what it compiles to are the graph and the ends of that
pattern. -/
theorem compile_eq_ok {text : String} {r : Regex} (h : compile text = .ok r) :
    ∃ p, Pattern.ofString text = .ok p ∧ p.toProgram = .ok r.program ∧
      r.matchStart = p.matchStart ∧ r.matchEnd = p.matchEnd := by
  unfold compile at h
  cases hread : Pattern.ofString text with
  | error e => simp [hread] at h
  | ok p =>
      obtain ⟨program, hprogram⟩ := Pattern.exists_toProgram_of_ofBytes hread
      simp only [hread, ofPattern, hprogram, Except.ok.injEq] at h
      subst h
      exact ⟨p, rfl, hprogram, rfl, rfl⟩

end Regex

end ByteRegex
