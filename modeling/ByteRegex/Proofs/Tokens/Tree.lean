import ByteRegex.Proofs.Pattern.Readable

/-!
# Trees written out as tokens

A token is a piece of a pattern text that stands for one thing. A tree is written
out from left to right: a group as the parenthesis that opens it, which carries
its number, its alternatives with bars between them, and the parenthesis that
closes it; a quantified item as the item and then the quantifier; every other item
as one token.

Nothing of a tree is lost by this. `itemsOfTokens` reads the tokens back, so they
are those of one tree only, as long as no group is without alternatives: such a
group is written like one with an empty alternative.
-/

namespace ByteRegex

inductive Token where
  /-- The parenthesis that opens the group of this number. -/
  | openGroup (number : Nat)
  | closeGroup
  | bar
  | byte (value : UInt8)
  | any
  | oneOf (written : List UInt8) (negated : Bool)
  | backreference (number : Nat)
  | endAnchor
  | quantifier (q : Quantifier)
deriving DecidableEq

/-- The number of the group that a token opens. -/
def Token.opened? : Token → Option Nat
  | .openGroup number => some number
  | _ => none

mutual

/-- An item written out. -/
def Item.tokens : Item → List Token
  | .byte b => [.byte b]
  | .any => [.any]
  | .oneOf written negated => [.oneOf written negated]
  | .quantified q inner => inner.tokens ++ [.quantifier q]
  | .group number alternatives =>
    .openGroup number :: (branchesTokens alternatives ++ [.closeGroup])
  | .backreference number => [.backreference number]
  | .endAnchor => [.endAnchor]

/-- A sequence written out. -/
def itemsTokens : List Item → List Token
  | [] => []
  | item :: rest => item.tokens ++ itemsTokens rest

/-- Alternatives written out, with a bar before each but the first. -/
def branchesTokens : List (List Item) → List Token
  | [] => []
  | items :: rest =>
    itemsTokens items ++ (if rest.isEmpty then [] else [.bar]) ++ branchesTokens rest

end

mutual

/-- Every group of the item has an alternative. -/
def Item.Branched : Item → Prop
  | .byte _ | .any | .oneOf _ _ | .backreference _ | .endAnchor => True
  | .quantified _ inner => inner.Branched
  | .group _ alternatives => alternatives ≠ [] ∧ branchesBranched alternatives

/-- Every group of the sequence has an alternative. -/
def itemsBranched : List Item → Prop
  | [] => True
  | item :: rest => item.Branched ∧ itemsBranched rest

/-- Every group of the alternatives has an alternative. -/
def branchesBranched : List (List Item) → Prop
  | [] => True
  | items :: rest => itemsBranched items ∧ branchesBranched rest

end

@[simp] theorem itemsTokens_nil : itemsTokens [] = [] := rfl

@[simp] theorem itemsTokens_cons (item : Item) (rest : List Item) :
    itemsTokens (item :: rest) = item.tokens ++ itemsTokens rest := by
  rw [itemsTokens]

@[simp] theorem branchesTokens_nil : branchesTokens [] = [] := rfl

theorem branchesTokens_cons (items : List Item) (rest : List (List Item)) :
    branchesTokens (items :: rest) =
      itemsTokens items ++ (if rest.isEmpty then [] else [.bar]) ++ branchesTokens rest := by
  rw [branchesTokens]

theorem itemsTokens_append (xs ys : List Item) :
    itemsTokens (xs ++ ys) = itemsTokens xs ++ itemsTokens ys := by
  induction xs with
  | nil => rfl
  | cons item rest ih => simp [ih]

/-- Alternatives with one more behind them. -/
theorem branchesTokens_append_singleton (branches : List (List Item)) (items : List Item) :
    branchesTokens (branches ++ [items]) =
      branches.flatMap (fun earlier => itemsTokens earlier ++ [.bar]) ++ itemsTokens items := by
  induction branches with
  | nil => simp [branchesTokens_cons]
  | cons first rest ih => simp [branchesTokens_cons, ih]

/-! ## Groups -/

mutual

/-- The parentheses that open groups carry the numbers of the groups, in their
order. -/
theorem Item.opened_tokens : ∀ item : Item,
    item.tokens.filterMap Token.opened? = item.numbers
  | .byte _ | .any | .oneOf _ _ | .backreference _ | .endAnchor => by
      simp [Item.tokens, Item.numbers, Token.opened?]
  | .quantified _ inner => by
      rw [Item.tokens, Item.numbers, List.filterMap_append, Item.opened_tokens inner]
      exact List.append_nil _
  | .group number alternatives => by
      have hopen : Token.opened? (.openGroup number) = some number := rfl
      rw [Item.tokens, Item.numbers, List.filterMap_cons_some hopen, List.filterMap_append,
        branchesTokens_opened alternatives]
      exact congrArg _ (List.append_nil _)

theorem itemsTokens_opened : ∀ items : List Item,
    (itemsTokens items).filterMap Token.opened? = itemsNumbers items
  | [] => rfl
  | item :: rest => by
      rw [itemsTokens_cons, itemsNumbers_cons, List.filterMap_append, Item.opened_tokens item,
        itemsTokens_opened rest]

theorem branchesTokens_opened : ∀ branches : List (List Item),
    (branchesTokens branches).filterMap Token.opened? = branchesNumbers branches
  | [] => rfl
  | items :: rest => by
      have hbar : (if rest.isEmpty then [] else [Token.bar]).filterMap Token.opened? = [] := by
        split <;> rfl
      rw [branchesTokens_cons, branchesNumbers_cons, List.filterMap_append,
        List.filterMap_append, itemsTokens_opened items, branchesTokens_opened rest, hbar,
        List.append_nil]

end

mutual

/-- A group takes two tokens for its parentheses. -/
theorem Item.two_mul_numbers_le : ∀ item : Item, 2 * item.numbers.length ≤ item.tokens.length
  | .byte _ | .any | .oneOf _ _ | .backreference _ | .endAnchor => by simp [Item.numbers]
  | .quantified _ inner => by
      have hinner := Item.two_mul_numbers_le inner
      rw [Item.tokens, Item.numbers, List.length_append]
      omega
  | .group _ alternatives => by
      have hbranches := branchesTokens_two_mul_numbers_le alternatives
      simp only [Item.tokens, Item.numbers, List.length_cons, List.length_append, List.length_nil]
      omega

theorem itemsTokens_two_mul_numbers_le : ∀ items : List Item,
    2 * (itemsNumbers items).length ≤ (itemsTokens items).length
  | [] => Nat.le_refl 0
  | item :: rest => by
      have hitem := Item.two_mul_numbers_le item
      have hrest := itemsTokens_two_mul_numbers_le rest
      rw [itemsTokens_cons, itemsNumbers_cons, List.length_append, List.length_append]
      omega

theorem branchesTokens_two_mul_numbers_le : ∀ branches : List (List Item),
    2 * (branchesNumbers branches).length ≤ (branchesTokens branches).length
  | [] => Nat.le_refl 0
  | items :: rest => by
      have hitems := itemsTokens_two_mul_numbers_le items
      have hrest := branchesTokens_two_mul_numbers_le rest
      rw [branchesTokens_cons, branchesNumbers_cons, List.length_append, List.length_append,
        List.length_append]
      omega

end

/-! ## Reading tokens back -/

namespace Draft

/-- The draft with one more item, whatever its phase is. -/
def add (d : Draft) (item : Item) : Draft :=
  { d with items := item :: d.items }

/-- The draft behind one more token. -/
def take (d : Draft) : Token → Draft
  | .openGroup number =>
    { d with items := [], enclosing := ⟨number, 0, d.items, []⟩ :: d.enclosing }
  | .closeGroup => d.closeGroup?.getD d
  | .bar => d.nextBranch?.getD d
  | .byte b => d.add (.byte b)
  | .any => d.add .any
  | .oneOf written negated => d.add (.oneOf written negated)
  | .backreference number => d.add (.backreference number)
  | .endAnchor => d.add .endAnchor
  | .quantifier q =>
    match d.items with
    | item :: earlier => { d with items := .quantified q item :: earlier }
    | [] => d

/-- The draft behind the items, latest first. -/
def addAll (d : Draft) (items : List Item) : Draft :=
  { d with items := items.reverse ++ d.items }

end Draft

/-- The items that are written out as these tokens. -/
def itemsOfTokens (tokens : List Token) : List Item :=
  (tokens.foldl Draft.take {}).items.reverse

mutual

theorem Item.take_tokens : ∀ (item : Item) (d : Draft), item.Branched →
    item.tokens.foldl Draft.take d = d.add item
  | .byte _, _, _ | .any, _, _ | .oneOf _ _, _, _ | .backreference _, _, _
  | .endAnchor, _, _ => by rw [Item.tokens]; rfl
  | .quantified q inner, d, h => by
      rw [Item.Branched] at h
      rw [Item.tokens, List.foldl_append, Item.take_tokens inner d h]
      rfl
  | .group number alternatives, d, h => by
      rw [Item.Branched] at h
      rw [Item.tokens, List.foldl_cons]
      exact branchesTokens_take alternatives (d.take (.openGroup number)) ⟨number, 0, d.items, []⟩
        d.enclosing h.1 h.2 rfl rfl

theorem itemsTokens_take : ∀ (items : List Item) (d : Draft), itemsBranched items →
    (itemsTokens items).foldl Draft.take d = d.addAll items
  | [], _, _ => rfl
  | item :: rest, d, h => by
      rw [itemsBranched] at h
      rw [itemsTokens_cons, List.foldl_append, Item.take_tokens item d h.1,
        itemsTokens_take rest _ h.2]
      simp [Draft.addAll, Draft.add]

/-- The alternatives of the innermost group that is open, and the parenthesis that
closes it. -/
theorem branchesTokens_take : ∀ (branches : List (List Item)) (d : Draft) (g : OpenGroup)
    (outer : List OpenGroup), branches ≠ [] → branchesBranched branches → d.items = [] →
    d.enclosing = g :: outer →
    (branchesTokens branches ++ [Token.closeGroup]).foldl Draft.take d =
      { d with
        items := .group g.number (g.branches.reverse ++ branches) :: g.before
        enclosing := outer }
  | [], _, _, _, hne, _, _, _ => absurd rfl hne
  | [items], d, g, outer, _, h, hitems, henclosing => by
      rw [branchesBranched] at h
      have hfirst := itemsTokens_take items d h.1
      simp [branchesTokens_cons, List.foldl_append, hfirst, Draft.addAll, Draft.take,
        Draft.closeGroup?, hitems, henclosing]
  | items :: next :: rest, d, g, outer, _, h, hitems, henclosing => by
      rw [branchesBranched] at h
      have hfirst := itemsTokens_take items d h.1
      have hrest := branchesTokens_take (next :: rest)
        { d with items := [], enclosing := { g with branches := items :: g.branches } :: outer }
        _ outer (List.cons_ne_nil next rest) h.2 rfl rfl
      have hbar : (d.addAll items).take .bar =
          { d with
            items := []
            enclosing := { g with branches := items :: g.branches } :: outer } := by
        simp [Draft.addAll, Draft.take, Draft.nextBranch?, hitems, henclosing]
      rw [branchesTokens_cons, List.append_assoc, List.append_assoc, List.foldl_append, hfirst]
      simp only [List.isEmpty_cons, Bool.false_eq_true, if_false, List.singleton_append,
        List.foldl_cons, hbar, hrest, List.reverse_cons, List.append_assoc]

end

theorem itemsOfTokens_itemsTokens {items : List Item} (h : itemsBranched items) :
    itemsOfTokens (itemsTokens items) = items := by
  rw [itemsOfTokens, itemsTokens_take items {} h]
  simp [Draft.addAll]

/-- Two trees that are written out alike are the same. -/
theorem itemsTokens_injective {xs ys : List Item} (hx : itemsBranched xs) (hy : itemsBranched ys)
    (h : itemsTokens xs = itemsTokens ys) : xs = ys := by
  rw [← itemsOfTokens_itemsTokens hx, h, itemsOfTokens_itemsTokens hy]

/-! ## Trees that are read -/

@[simp] theorem itemsBranched_nil : itemsBranched [] := trivial

@[simp] theorem itemsBranched_cons {item : Item} {rest : List Item} :
    itemsBranched (item :: rest) ↔ item.Branched ∧ itemsBranched rest := by
  rw [itemsBranched]

theorem itemsBranched_append {xs ys : List Item} :
    itemsBranched (xs ++ ys) ↔ itemsBranched xs ∧ itemsBranched ys := by
  induction xs with
  | nil => simp
  | cons item rest ih => simp [ih, and_assoc]

mutual

theorem Item.Readable.branched : ∀ {item : Item}, item.Readable → item.Branched
  | .byte _, _ | .any, _ | .oneOf _ _, _ | .backreference _, _ | .endAnchor, _ => trivial
  | .quantified _ _, h => by
      rw [Item.Readable] at h
      rw [Item.Branched]
      exact Item.Readable.branched h.2
  | .group _ _, h => by
      rw [Item.Readable] at h
      exact ⟨h.1, branchesBranched_of_readable h.2⟩

theorem itemsBranched_of_readable : ∀ {items : List Item}, itemsReadable items →
    itemsBranched items
  | [], _ => trivial
  | _ :: _, h => by
      rw [itemsReadable_cons] at h
      exact ⟨Item.Readable.branched h.1, itemsBranched_of_readable h.2⟩

theorem branchesBranched_of_readable : ∀ {branches : List (List Item)},
    branchesReadable branches → branchesBranched branches
  | [], _ => trivial
  | _ :: _, h => by
      rw [branchesReadable_cons] at h
      exact ⟨itemsBranched_of_readable h.1, branchesBranched_of_readable h.2⟩

end

theorem Pattern.Readable.branched {p : Pattern} (h : p.Readable) : itemsBranched p.items := by
  obtain ⟨items, hitems, heq | heq⟩ := h.items
  · rw [heq]
    exact itemsBranched_of_readable hitems
  · rw [heq, itemsBranched_append]
    exact ⟨itemsBranched_of_readable hitems, trivial, trivial⟩

end ByteRegex
