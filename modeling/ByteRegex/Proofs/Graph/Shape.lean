import ByteRegex.Proofs.Graph.Assembly

/-!
# Which trees have a graph

A tree whose groups and references are numbered from 1 on has no graph for two reasons only:
somewhere in it a quantifier stands directly on a quantifier, or an end anchor stands where it
would have to continue. That is anywhere in an alternative of a group, for the last item of an
alternative continues at the tail, and on the outside anywhere but at the end.
`Pattern.IllShaped` says so of the tree, without indices and without an order in which faults
are looked for, and `Pattern.Misnumbered` says that the number 0 is somewhere in it.

A fault is found along the tree, so both sides are taken apart along the tree: what is wrong
with an item is wrong with the item itself or with one of the items inside it.
-/

namespace ByteRegex

/-! ## Parts of a tree -/

mutual

/-- The items inside an item, at any depth, each once for each place where it stands. -/
def Item.inside : Item → List Item
  | .byte _ | .any | .oneOf _ _ | .backreference _ | .endAnchor => []
  | .quantified _ inner => inner :: inner.inside
  | .group _ alternatives => branchesParts alternatives

/-- The items of a sequence and all items inside them. -/
def itemsParts : List Item → List Item
  | [] => []
  | item :: rest => item :: (item.inside ++ itemsParts rest)

/-- The items of all alternatives and all items inside them. -/
def branchesParts : List (List Item) → List Item
  | [] => []
  | items :: rest => itemsParts items ++ branchesParts rest

end

/-- An end anchor, bare or directly under one quantifier. -/
def Item.IsAnchor (item : Item) : Prop :=
  item = .endAnchor ∨ ∃ q, item = .quantified q .endAnchor

/-- What is wrong with an item itself, whatever is wrong inside it. -/
inductive Item.IllShaped : Item → Prop
  | nestedQuantifier (q r : Quantifier) (inner : Item) :
      IllShaped (.quantified q (.quantified r inner))
  | anchorInGroup (number : Nat) {alternatives : List (List Item)} {items : List Item}
      {anchor : Item} (halternative : items ∈ alternatives) (hitem : anchor ∈ items)
      (hanchor : anchor.IsAnchor) : IllShaped (.group number alternatives)

/-- A group or a reference with the number 0. -/
inductive Item.Misnumbered : Item → Prop
  | group (alternatives : List (List Item)) : Misnumbered (.group 0 alternatives)
  | backreference : Misnumbered (.backreference 0)

/-- A quantifier stands directly on a quantifier somewhere, or an end anchor inside an
alternative of a group, or an end anchor outside groups before the last item. -/
def Pattern.IllShaped (p : Pattern) : Prop :=
  (∃ part ∈ itemsParts p.items, part.IllShaped) ∨ ∃ anchor ∈ p.items.dropLast, anchor.IsAnchor

/-- Some group or some reference has the number 0. -/
def Pattern.Misnumbered (p : Pattern) : Prop :=
  ∃ part ∈ itemsParts p.items, part.Misnumbered

/-! ## Faults of a tree -/

theorem Item.endsChain_iff {item : Item} : item.endsChain = true ↔ item.IsAnchor := by
  unfold IsAnchor
  cases item with
  | quantified q inner => cases inner <;> simp [endsChain]
  | endAnchor => simp [endsChain]
  | byte _ => simp [endsChain]
  | any => simp [endsChain]
  | oneOf _ _ => simp [endsChain]
  | group _ _ => simp [endsChain]
  | backreference _ => simp [endsChain]

/-- Where the last item continues as well, no item may be an end anchor. -/
theorem anchorFault?_some_eq_none {here exit : NodeId} {items : List Item} :
    anchorFault? here (some exit) items = none ↔ ∀ item ∈ items, ¬ item.IsAnchor := by
  induction items generalizing here with
  | nil => simp [anchorFault?]
  | cons item rest ih =>
      have hentry : entryOf rest (here + item.nodeCount) (some exit) ≠ none := by
        rw [entryOf_tail]
        exact Option.some_ne_none _
      rw [anchorFault?_cons_eq_none, ih, List.forall_mem_cons, Item.endsChain_iff]
      exact and_congr_left fun _ => ⟨fun h hitem => hentry (h hitem), fun h hitem => absurd hitem h⟩

/-- Where nothing follows, only the last item may be one. -/
theorem anchorFault?_none_eq_none {here : NodeId} {items : List Item} :
    anchorFault? here none items = none ↔ ∀ item ∈ items.dropLast, ¬ item.IsAnchor := by
  induction items generalizing here with
  | nil => simp [anchorFault?]
  | cons item rest ih =>
      rw [anchorFault?_cons_eq_none, ih, Item.endsChain_iff]
      cases rest with
      | nil => simp
      | cons other others => simp [entryOf]

theorem Item.not_illShaped_quantified_iff {q : Quantifier} {inner : Item} :
    ¬ (Item.quantified q inner).IllShaped ↔ ∀ r other, inner ≠ .quantified r other := by
  constructor
  · rintro h r other rfl
    exact h (.nestedQuantifier q r other)
  · rintro h ⟨_, r, other⟩
    exact h r other rfl

theorem Item.not_illShaped_group_iff {number : Nat} {alternatives : List (List Item)} :
    ¬ (Item.group number alternatives).IllShaped ↔
      ∀ items ∈ alternatives, ∀ item ∈ items, ¬ item.IsAnchor := by
  constructor
  · intro h items halternative item hitem hanchor
    exact h (.anchorInGroup number halternative hitem hanchor)
  · intro h hill
    cases hill with
    | anchorInGroup _ halternative hitem hanchor => exact h _ halternative _ hitem hanchor

theorem Item.not_misnumbered_quantified (q : Quantifier) (inner : Item) :
    ¬ (Item.quantified q inner).Misnumbered := by
  rintro ⟨⟩

theorem Item.not_misnumbered_group_iff {number : Nat} {alternatives : List (List Item)} :
    ¬ (Item.group number alternatives).Misnumbered ↔ number ≠ 0 := by
  constructor
  · rintro h rfl
    exact h (.group alternatives)
  · rintro h ⟨⟩
    exact h rfl

theorem Item.not_misnumbered_backreference_iff {number : Nat} :
    ¬ (Item.backreference number).Misnumbered ↔ number ≠ 0 := by
  constructor
  · rintro h rfl
    exact h .backreference
  · rintro h ⟨⟩
    exact h rfl

theorem Item.shapeFault?_quantified_eq_none {here : NodeId} {q : Quantifier} {inner : Item} :
    (Item.quantified q inner).shapeFault? here = none ↔
      ¬ (Item.quantified q inner).IllShaped ∧ inner.shapeFault? here = none := by
  rw [not_illShaped_quantified_iff]
  constructor
  · intro h
    refine ⟨?_, (Item.quantified_faultless h).1⟩
    rintro r other rfl
    cases h
  · rintro ⟨hinner, h⟩
    rw [Item.shapeFault?]
    · exact h
    · exact hinner

mutual

/-- An item has no fault if nothing is wrong with it or with an item inside it. -/
theorem Item.shapeFault?_eq_none_iff : ∀ (item : Item) (here : NodeId),
    item.shapeFault? here = none ↔
      ∀ part ∈ item :: item.inside, ¬ part.IllShaped ∧ ¬ part.Misnumbered
  | .byte _, _ | .any, _ | .oneOf _ _, _ | .endAnchor, _ => by
      simp only [Item.shapeFault?, Item.inside, List.mem_singleton, forall_eq, true_iff]
      constructor <;> rintro ⟨⟩
  | .backreference number, _ => by
      have hshape : ¬ (Item.backreference number).IllShaped := by rintro ⟨⟩
      rw [Item.shapeFault?, numberFault?_eq_none, Item.inside, List.forall_mem_singleton,
        Item.not_misnumbered_backreference_iff]
      exact (and_iff_right hshape).symm
  | .quantified q inner, here => by
      rw [Item.shapeFault?_quantified_eq_none, Item.shapeFault?_eq_none_iff inner here, Item.inside,
        List.forall_mem_cons (l := inner :: inner.inside),
        and_iff_left (Item.not_misnumbered_quantified q inner)]
  | .group number alternatives, here => by
      rw [Item.shapeFault?_group_eq_none, branchesFault?_eq_none_iff alternatives, Item.inside,
        List.forall_mem_cons, Item.not_illShaped_group_iff, Item.not_misnumbered_group_iff,
        ← and_assoc, and_comm (a := number ≠ 0)]

theorem itemsFault?_eq_none_iff : ∀ (items : List Item) (here : NodeId),
    itemsFault? here items = none ↔
      ∀ part ∈ itemsParts items, ¬ part.IllShaped ∧ ¬ part.Misnumbered
  | [], _ => by simp [itemsFault?, itemsParts]
  | item :: rest, here => by
      rw [itemsFault?_cons_eq_none, Item.shapeFault?_eq_none_iff item here,
        itemsFault?_eq_none_iff rest, itemsParts, ← List.cons_append, List.forall_mem_append]

theorem branchesFault?_eq_none_iff : ∀ (branches : List (List Item)) (tail here : NodeId),
    branchesFault? tail here branches = none ↔
      (∀ items ∈ branches, ∀ item ∈ items, ¬ item.IsAnchor) ∧
        ∀ part ∈ branchesParts branches, ¬ part.IllShaped ∧ ¬ part.Misnumbered
  | [], _, _ => by simp [branchesFault?, branchesParts]
  | items :: rest, tail, here => by
      rw [branchesFault?_cons_eq_none, itemsFault?_eq_none_iff items here,
        anchorFault?_some_eq_none, branchesFault?_eq_none_iff rest tail, branchesParts,
        List.forall_mem_append, List.forall_mem_cons]
      constructor
      · rintro ⟨⟨hparts, hitems⟩, hrest, hothers⟩
        exact ⟨⟨hitems, hrest⟩, hparts, hothers⟩
      · rintro ⟨⟨hitems, hrest⟩, hparts, hothers⟩
        exact ⟨⟨hparts, hitems⟩, hrest, hothers⟩

end

theorem Pattern.shapeFault?_eq_none_iff {p : Pattern} :
    p.shapeFault? = none ↔ ¬ p.IllShaped ∧ ¬ p.Misnumbered := by
  rw [shapeFault?_eq_none, itemsFault?_eq_none_iff, anchorFault?_none_eq_none, IllShaped,
    Misnumbered]
  simp only [not_or, not_exists, not_and]
  constructor
  · rintro ⟨hparts, hanchors⟩
    exact ⟨⟨fun part hpart => (hparts part hpart).1, hanchors⟩,
      fun part hpart => (hparts part hpart).2⟩
  · rintro ⟨⟨hshapes, hanchors⟩, hnumbers⟩
    exact ⟨fun part hpart => ⟨hshapes part hpart, hnumbers part hpart⟩, hanchors⟩

/-- A pattern has no graph if and only if it is ill-shaped or has the number 0 somewhere; any
other pattern has one, whether or not its groups have alternatives, and also if groups share a
number or have one beyond those that the pattern has. This is said of the layout and of the
assembly, which breaks off at a step. -/
theorem toProgram_rejects_ill_shaped (p : Pattern) :
    p.assemble = p.toProgram ∧
      ((∃ fault, p.toProgram = .error fault) ↔ p.IllShaped ∨ p.Misnumbered) ∧
      ((∃ program, p.toProgram = .ok program) ↔ ¬ p.IllShaped ∧ ¬ p.Misnumbered) := by
  have hshape := p.shapeFault?_eq_none_iff
  refine ⟨p.assemble_eq_toProgram, ?_⟩
  rw [Pattern.toProgram]
  cases hfault : p.shapeFault? with
  | none =>
      have hsound := hshape.mp hfault
      simp [hsound]
  | some fault =>
      have hwrong : p.IllShaped ∨ p.Misnumbered := Classical.byContradiction fun hsound => by
        rw [hshape.mpr (not_or.mp hsound)] at hfault
        cases hfault
      simp [hwrong, ← not_or]

end ByteRegex
