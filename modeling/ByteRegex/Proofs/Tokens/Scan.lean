import Mathlib.Tactic.SplitIfs
import ByteRegex.Proofs.Pattern.Results
import ByteRegex.Proofs.Tokens.Tree

/-!
# The tokens of a text

A pattern text is cut into tokens from left to right, without any tree: what a byte
means depends on nothing but the bytes of its own token and the one token in front
of it, which decides whether a quantifier is one or a literal. The tree that the
reader makes of the text is the only one that is written out as these tokens.
-/

namespace ByteRegex

/-! ## Cutting a text -/

/-- The quantifier that a byte is where it can be one. -/
def quantifierOf? (b : UInt8) : Option Quantifier :=
  if b = '?'.toUInt8 then some .optional
  else if b = '*'.toUInt8 then some .star
  else if b = '+'.toUInt8 then some .plus
  else none

namespace Token

/-- Whether a quantifier right behind the token applies to something. -/
def takesQuantifier : Token → Bool
  | byte _ | any | oneOf _ _ | closeGroup => true
  | openGroup _ | bar | backreference _ | endAnchor | quantifier _ => false

/-- The token that a backslash makes of the byte behind it. -/
def ofEscaped (b : UInt8) : Token :=
  if b = 'd'.toUInt8 then .oneOf ByteClass.digits false
  else if b = 'w'.toUInt8 then .oneOf ByteClass.wordBytes false
  else if '1'.toUInt8 ≤ b ∧ b ≤ '9'.toUInt8 then .backreference (b.toNat - '0'.toNat)
  else .byte b

/-- The token that is a single byte. In front of it stands the token `previous`, and
`opened` groups have been opened. -/
def ofByte (previous : Option Token) (opened : Nat) (b : UInt8) (isLast : Bool) : Token :=
  if b = '('.toUInt8 then .openGroup (opened + 1)
  else if b = ')'.toUInt8 then .closeGroup
  else if b = '|'.toUInt8 then .bar
  else if b = '.'.toUInt8 then .any
  else if b = '$'.toUInt8 ∧ isLast then .endAnchor
  else
    match quantifierOf? b with
    | some q => if previous.any takesQuantifier then .quantifier q else .byte b
    | none => .byte b

end Token

/-- The class that begins behind a bracket, and what is left behind the class. -/
def classToken (bytes : List UInt8) : Token × List UInt8 :=
  (.oneOf ((skipCaret bytes).takeWhile (· ≠ ']'.toUInt8)) (bytes.head? = some '^'.toUInt8),
    ((skipCaret bytes).dropWhile (· ≠ ']'.toUInt8)).tail)

/-- What is escaped behind a backslash, which stands for itself at the end of the
text. -/
def escapeToken : List UInt8 → Token × List UInt8
  | [] => (.byte '\\'.toUInt8, [])
  | b :: rest => (.ofEscaped b, rest)

/-- The token that begins with the byte `b`, and what is left behind it. -/
def nextToken (previous : Option Token) (opened : Nat) (b : UInt8) (rest : List UInt8) :
    Token × List UInt8 :=
  if b = '['.toUInt8 then classToken rest
  else if b = '\\'.toUInt8 then escapeToken rest
  else (.ofByte previous opened b rest.isEmpty, rest)

/-- A token takes its first byte at least. -/
theorem length_nextToken_le (previous : Option Token) (opened : Nat) (b : UInt8)
    (rest : List UInt8) : (nextToken previous opened b rest).2.length ≤ rest.length := by
  unfold nextToken
  split
  · have hdrop := (List.dropWhile_suffix (l := skipCaret rest) (· ≠ ']'.toUInt8)).length_le
    have hskip := length_skipCaret_le rest
    rw [classToken, List.length_tail]
    omega
  · split
    · cases rest with
      | nil => exact Nat.le_refl 0
      | cons escaped behind => exact Nat.le_succ _
    · exact Nat.le_refl _

/-- The tokens of what is left of a text behind the token `previous`, if `opened`
groups have been opened. -/
def textTokens (previous : Option Token) (opened : Nat) : List UInt8 → List Token
  | [] => []
  | b :: rest =>
    (nextToken previous opened b rest).1 ::
      textTokens (some (nextToken previous opened b rest).1)
        ((nextToken previous opened b rest).1.opened?.getD opened)
        (nextToken previous opened b rest).2
termination_by bytes => bytes.length
decreasing_by exact Nat.lt_succ_of_le (length_nextToken_le previous opened b rest)

theorem textTokens_cons (previous : Option Token) (opened : Nat) (b : UInt8)
    (rest : List UInt8) :
    textTokens previous opened (b :: rest) =
      (nextToken previous opened b rest).1 ::
        textTokens (some (nextToken previous opened b rest).1)
          ((nextToken previous opened b rest).1.opened?.getD opened)
          (nextToken previous opened b rest).2 := by
  rw [textTokens]

/-- There are no more tokens than bytes. -/
theorem length_textTokens_le (previous : Option Token) (opened : Nat) (bytes : List UInt8) :
    (textTokens previous opened bytes).length ≤ bytes.length := by
  induction previous, opened, bytes using textTokens.induct with
  | case1 previous opened =>
      rw [textTokens]
      exact Nat.le_refl 0
  | case2 previous opened b rest ih =>
      rw [textTokens_cons]
      exact Nat.succ_le_succ (Nat.le_trans ih (length_nextToken_le previous opened b rest))

/-! ## The tokens of a draft -/

/-- The groups that are open written out, outermost first, up to the alternative
that is being read. -/
def openTokens : List OpenGroup → List Token
  | [] => []
  | g :: outer =>
    openTokens outer ++ itemsTokens g.before.reverse ++ .openGroup g.number ::
      g.branches.reverse.flatMap fun items => itemsTokens items ++ [.bar]

namespace Draft

/-- All that has been read so far, written out. -/
def tokens (d : Draft) : List Token :=
  openTokens d.enclosing ++ itemsTokens d.items.reverse

/-- `d'` is what the token `t` makes of the draft `d`. -/
structure After (d : Draft) (t : Token) (d' : Draft) : Prop where
  phase : d'.phase = .plain
  tokens : d'.tokens = d.tokens ++ [t]
  groups : d'.groups = t.opened?.getD d.groups

/-- An item that is one token. -/
theorem After.push {d : Draft} {item : Item} {t : Token} (hitem : item.tokens = [t])
    (ht : t.opened? = none) : d.After t (d.push item) := by
  refine ⟨rfl, ?_, by rw [ht]; rfl⟩
  simp [Draft.tokens, Draft.push, itemsTokens_append, hitem]

section Steps

variable {d : Draft} (hplain : d.phase = .plain)
include hplain

theorem After.openGroup (offset : Nat) :
    d.After (.openGroup (d.groups + 1)) (d.openGroup offset) :=
  ⟨hplain, by simp [Draft.tokens, Draft.openGroup, openTokens], rfl⟩

theorem After.closeGroup {g : OpenGroup} {outer : List OpenGroup}
    (henclosing : d.enclosing = g :: outer) :
    d.After .closeGroup
      { d with
        items := .group g.number (d.items.reverse :: g.branches).reverse :: g.before
        enclosing := outer } := by
  refine ⟨hplain, ?_, rfl⟩
  simp [Draft.tokens, henclosing, openTokens, itemsTokens_append, Item.tokens,
    branchesTokens_append_singleton]

theorem After.bar {g : OpenGroup} {outer : List OpenGroup}
    (henclosing : d.enclosing = g :: outer) :
    d.After .bar
      { d with
        items := []
        enclosing := { g with branches := d.items.reverse :: g.branches } :: outer } := by
  refine ⟨hplain, ?_, rfl⟩
  simp [Draft.tokens, henclosing, openTokens]

theorem After.quantify {q : Quantifier} {item : Item} {earlier : List Item}
    (hitems : d.items = item :: earlier) :
    d.After (.quantifier q) { d with items := .quantified q item :: earlier } := by
  refine ⟨hplain, ?_, rfl⟩
  simp [Draft.tokens, hitems, itemsTokens_append, Item.tokens]

end Steps

end Draft

/-- The last token of an item tells whether a quantifier applies to the item. -/
theorem Item.exists_last_token (item : Item) :
    ∃ before t, item.tokens = before ++ [t] ∧ t.takesQuantifier = item.isQuantifiable := by
  cases item with
  | quantified q inner => exact ⟨inner.tokens, .quantifier q, by rw [Item.tokens], rfl⟩
  | group number alternatives =>
      refine ⟨.openGroup number :: branchesTokens alternatives, .closeGroup, ?_, rfl⟩
      rw [Item.tokens, List.cons_append]
  | _ => exact ⟨[], _, rfl, rfl⟩

/-- At the beginning of a branch there is nothing that a quantifier applies to. -/
theorem openTokens_any_getLast? (enclosing : List OpenGroup) :
    (openTokens enclosing).getLast?.any Token.takesQuantifier = false := by
  cases enclosing with
  | nil => rfl
  | cons g outer =>
      rw [openTokens]
      cases g.branches with
      | nil => simp [Token.takesQuantifier]
      | cons items earlier =>
          simp [Token.takesQuantifier, List.getLast?_cons, List.getLast?_append]

/-- What the last token takes is what the latest item takes. -/
theorem Draft.tokens_any_getLast? (d : Draft) :
    d.tokens.getLast?.any Token.takesQuantifier = d.items.head?.any Item.isQuantifiable := by
  unfold Draft.tokens
  cases d.items with
  | nil =>
      rw [List.reverse_nil, itemsTokens_nil, List.append_nil]
      exact openTokens_any_getLast? d.enclosing
  | cons item earlier =>
      obtain ⟨before, t, htokens, ht⟩ := item.exists_last_token
      simp [itemsTokens_append, htokens, ht]

/-! ## Signs and tokens -/

theorem Item.tokens_ofEscaped (b : UInt8) : (Item.ofEscaped b).tokens = [Token.ofEscaped b] := by
  unfold Item.ofEscaped Token.ofEscaped
  by_cases hd : b = 'd'.toUInt8
  · simp only [hd, if_true, Item.tokens]
  by_cases hw : b = 'w'.toUInt8
  · simp only [hw, if_true, if_neg (show 'w'.toUInt8 ≠ 'd'.toUInt8 by decide), Item.tokens]
  by_cases hdigit : '1'.toUInt8 ≤ b ∧ b ≤ '9'.toUInt8
  · have hlow : '0'.toUInt8 ≤ b := UInt8.le_trans (by decide) hdigit.1
    simp only [hd, hw, hdigit, and_self, if_true, if_false, Item.tokens]
    rw [UInt8.toNat_sub_of_le _ _ hlow]
    rfl
  · simp only [hd, hw, hdigit, if_false, Item.tokens]

theorem Token.opened?_ofEscaped (b : UInt8) : (Token.ofEscaped b).opened? = none := by
  unfold Token.ofEscaped
  split_ifs <;> rfl

/-- A byte without a meaning of its own is a literal. -/
theorem Token.ofByte_of_plain {b : UInt8} (h : Sign.ofByte b = .plain) (previous : Option Token)
    (opened : Nat) (isLast : Bool) : Token.ofByte previous opened b isLast = .byte b := by
  have hne : ∀ {c : UInt8}, Sign.ofByte c ≠ .plain → b ≠ c := fun hc heq => hc (heq ▸ h)
  have hquantifier : quantifierOf? b = none := by
    unfold quantifierOf?
    rw [if_neg (hne (by decide)), if_neg (hne (by decide)), if_neg (hne (by decide))]
  have hdollar : ¬ (b = '$'.toUInt8 ∧ isLast) := fun heq => hne (by decide) heq.1
  unfold Token.ofByte
  rw [if_neg (hne (by decide)), if_neg (hne (by decide)), if_neg (hne (by decide)),
    if_neg (hne (by decide)), if_neg hdollar, hquantifier]

/-- A quantifier is one if the token in front of it takes it. -/
theorem Token.ofByte_of_quantifier {b : UInt8} {q : Quantifier}
    (h : Sign.ofByte b = .quantifier q) (previous : Option Token) (opened : Nat) (isLast : Bool) :
    Token.ofByte previous opened b isLast =
      if previous.any takesQuantifier then .quantifier q else .byte b := by
  cases q with
  | optional | star | plus =>
      obtain rfl := (Sign.ofByte_eq_iff rfl).mp h
      rfl

theorem nextToken_of_sign {b : UInt8} (hclass : Sign.ofByte b ≠ .openClass)
    (hescape : Sign.ofByte b ≠ .escape) (previous : Option Token) (opened : Nat)
    (rest : List UInt8) :
    nextToken previous opened b rest = (.ofByte previous opened b rest.isEmpty, rest) := by
  unfold nextToken
  rw [if_neg fun heq => hclass ((Sign.ofByte_eq_iff rfl).mpr heq),
    if_neg fun heq => hescape ((Sign.ofByte_eq_iff rfl).mpr heq)]

/-! ## The reader and the tokens -/

namespace Draft

/-- From `d` on the reader does what it would do from `d'` behind the token. -/
def Takes (d : Draft) (size : Nat) (bytes : List UInt8) (next : Token × List UInt8) : Prop :=
  ∃ d', d.After next.1 d' ∧ d.result size bytes = d'.result size next.2

section Takes

variable {d : Draft} {size : Nat} {b : UInt8} {rest : List UInt8}

theorem takes_of_feed {t : Token} {d' : Draft} (hsize : rest.length < size) (hafter : d.After t d')
    (hfeed : ∀ offset, d.feed offset (b :: rest) = d'.feed (offset + 1) rest) :
    d.Takes size (b :: rest) (t, rest) :=
  ⟨d', hafter, result_of_feed_cons hsize hfeed⟩

variable (hplain : d.phase = .plain)
include hplain

theorem takes_class (hsize : rest.length < size) {x : List Item × Nat}
    (h : d.result size ('['.toUInt8 :: rest) = .ok x) :
    d.Takes size ('['.toUInt8 :: rest) (classToken rest) := by
  rcases class_cases rest with
    ⟨written, negated, behind, hclass, hnegated, hrest, hskip, _⟩ | ⟨hopen, _⟩
  · have hcaret : negated = decide (rest.head? = some '^'.toUInt8) := by
      rw [Bool.eq_iff_iff, hnegated, decide_eq_true_iff]
    have htoken : classToken rest = (.oneOf written negated, behind) := by
      unfold classToken
      rw [hskip, takeWhile_bracket hclass.1, dropWhile_bracket hclass.1, ← hcaret]
      rfl
    rw [htoken]
    exact ⟨_, After.push rfl rfl, result_class hplain hclass hsize hrest⟩
  · rw [result_unterminated hplain hopen] at h
    cases h

theorem takes_escape (hsize : rest.length < size) :
    d.Takes size ('\\'.toUInt8 :: rest) (escapeToken rest) := by
  cases rest with
  | nil => exact ⟨_, After.push rfl rfl, result_backslash_last hplain⟩
  | cons escaped behind =>
      exact ⟨_, After.push (Item.tokens_ofEscaped escaped) (Token.opened?_ofEscaped escaped),
        result_escape hplain hsize⟩

theorem takes_quantifier {q : Quantifier} (hsign : Sign.ofByte b = .quantifier q)
    (hsize : rest.length < size) :
    d.Takes size (b :: rest)
      (if d.tokens.getLast?.any Token.takesQuantifier then .quantifier q else .byte b, rest) := by
  rw [tokens_any_getLast?]
  cases hitems : d.items with
  | nil =>
      have hsettled : d.Settled := fun item hitem => by simp [hitems] at hitem
      exact takes_of_feed hsize (After.push rfl rfl) fun offset =>
        feed_settled hplain hsettled hsign offset rest
  | cons item earlier =>
      cases happlies : item.isQuantifiable with
      | false =>
          have hsettled : d.Settled := fun other hother => by
            obtain rfl : item = other := by simpa [hitems] using hother
            exact happlies
          simp only [List.head?_cons, Option.any_some, happlies, Bool.false_eq_true, if_false]
          exact takes_of_feed hsize (After.push rfl rfl) fun offset =>
            feed_settled hplain hsettled hsign offset rest
      | true =>
          simp only [List.head?_cons, Option.any_some, happlies, if_true]
          exact takes_of_feed hsize (After.quantify hplain hitems) fun offset =>
            feed_quantifier hplain hsign hitems happlies offset rest

/-- A `$` is an end anchor if nothing comes behind it. -/
theorem takes_dollar (hsize : rest.length < size) :
    d.Takes size ('$'.toUInt8 :: rest)
      (if rest.isEmpty then .endAnchor else .byte '$'.toUInt8, rest) := by
  cases rest with
  | nil =>
      have hafter : d.After .endAnchor (d.push .endAnchor) := After.push rfl rfl
      refine takes_of_feed hsize hafter fun offset => ?_
      rw [feed_dollar_last hplain, feed_nil]
  | cons c behind =>
      exact takes_of_feed hsize (After.push rfl rfl) fun offset =>
        feed_dollar hplain offset (List.cons_ne_nil c behind)

/-- Where a text is a pattern, the reader takes the tokens that it is cut into. -/
theorem takes_nextToken (hsize : rest.length < size) {x : List Item × Nat}
    (h : d.result size (b :: rest) = .ok x) :
    d.Takes size (b :: rest) (nextToken d.tokens.getLast? d.groups b rest) := by
  cases hsign : Sign.ofByte b with
  | openClass =>
      obtain rfl := (Sign.ofByte_eq_iff rfl).mp hsign
      exact takes_class hplain hsize h
  | escape =>
      obtain rfl := (Sign.ofByte_eq_iff rfl).mp hsign
      exact takes_escape hplain hsize
  | openGroup =>
      obtain rfl := (Sign.ofByte_eq_iff rfl).mp hsign
      exact ⟨_, After.openGroup hplain _, result_openGroup hplain hsize⟩
  | closeGroup =>
      obtain rfl := (Sign.ofByte_eq_iff rfl).mp hsign
      cases henclosing : d.enclosing with
      | nil =>
          rw [result_unbalanced hplain henclosing (.inl hsign)] at h
          cases h
      | cons g outer =>
          exact takes_of_feed hsize (After.closeGroup hplain henclosing) fun offset =>
            feed_closeGroup hplain henclosing offset rest
  | bar =>
      obtain rfl := (Sign.ofByte_eq_iff rfl).mp hsign
      cases henclosing : d.enclosing with
      | nil =>
          rw [result_unbalanced hplain henclosing (.inr hsign)] at h
          cases h
      | cons g outer =>
          exact takes_of_feed hsize (After.bar hplain henclosing) fun offset =>
            feed_bar hplain henclosing offset rest
  | dot =>
      obtain rfl := (Sign.ofByte_eq_iff rfl).mp hsign
      exact takes_of_feed hsize (After.push rfl rfl) fun offset =>
        feed_dot hplain offset rest
  | dollar =>
      obtain rfl := (Sign.ofByte_eq_iff rfl).mp hsign
      have htoken : Token.ofByte d.tokens.getLast? d.groups '$'.toUInt8 rest.isEmpty =
          if rest.isEmpty then .endAnchor else .byte '$'.toUInt8 := by
        cases rest <;> rfl
      rw [nextToken_of_sign (by decide) (by decide), htoken]
      exact takes_dollar hplain hsize
  | quantifier q =>
      rw [nextToken_of_sign (by simp [hsign]) (by simp [hsign]),
        Token.ofByte_of_quantifier hsign]
      exact takes_quantifier hplain hsign hsize
  | plain =>
      rw [nextToken_of_sign (by simp [hsign]) (by simp [hsign]), Token.ofByte_of_plain hsign]
      exact takes_of_feed hsize (After.push rfl rfl) fun offset =>
        feed_literal hplain hsign offset rest

end Takes

/-- The items that are read, written out, are what has been read already and the
tokens of what is left. -/
theorem tokens_of_result {d : Draft} {size groups : Nat} {bytes : List UInt8} {items : List Item}
    (hplain : d.phase = .plain) (hsize : bytes.length ≤ size)
    (h : d.result size bytes = .ok (items, groups)) :
    itemsTokens items = d.tokens ++ textTokens d.tokens.getLast? d.groups bytes := by
  generalize hprevious : d.tokens.getLast? = previous
  generalize hopened : d.groups = opened
  induction previous, opened, bytes using textTokens.induct generalizing d with
  | case1 previous opened =>
      rw [result_nil hplain] at h
      cases henclosing : d.enclosing with
      | nil =>
          simp only [henclosing, Except.ok.injEq, Prod.mk.injEq] at h
          rw [← h.1, textTokens, List.append_nil, Draft.tokens, henclosing]
          rfl
      | cons g outer => simp [henclosing] at h
  | case2 previous opened b rest ih =>
      obtain ⟨d', hafter, hresult⟩ := takes_nextToken hplain hsize h
      rw [hprevious, hopened] at hafter hresult
      have hrest := length_nextToken_le previous opened b rest
      rw [List.length_cons] at hsize
      rw [textTokens_cons, ih hafter.phase (Nat.le_trans hrest (Nat.le_of_succ_le hsize))
        (hresult ▸ h)
        (by rw [hafter.tokens, List.getLast?_concat]) (by rw [hafter.groups, hopened]),
        hafter.tokens, List.append_assoc]
      rfl

end Draft

/-! ## Whole texts -/

/-- The tokens of a whole text. A `^` in front is no token. -/
def tokensOf (text : List UInt8) : List Token :=
  textTokens none 0 (skipCaret text)

namespace Pattern

theorem tokens_of_ofBytes {text : List UInt8} {p : Pattern} (h : ofBytes text = .ok p) :
    itemsTokens p.items = tokensOf text := by
  have htext : text ≠ [] := fun hnil => by simp [hnil, ofBytes] at h
  have hresult : ({} : Draft).result text.length (skipCaret text) = .ok (p.items, p.groups) := by
    rw [ofBytes_eq_result htext] at h
    split at h
    next => cases h
    next items groups hresult =>
      cases h
      exact hresult
  exact Draft.tokens_of_result rfl (length_skipCaret_le text) hresult

/-- A group takes two bytes of the text at least. -/
theorem two_mul_groups_le {text : List UInt8} {p : Pattern} (h : ofBytes text = .ok p) :
    2 * p.groups ≤ text.length := by
  have hgroups : (itemsNumbers p.items).length = p.groups := by
    rw [(readable_of_ofBytes h).numbers, List.length_range']
  calc 2 * p.groups = 2 * (itemsNumbers p.items).length := by rw [hgroups]
    _ ≤ (itemsTokens p.items).length := itemsTokens_two_mul_numbers_le p.items
    _ = (tokensOf text).length := by rw [tokens_of_ofBytes h]
    _ ≤ (skipCaret text).length := length_textTokens_le none 0 _
    _ ≤ text.length := length_skipCaret_le text

end Pattern

/-- The items of a pattern, written out, are the tokens of its text, and of all trees whose
groups have alternatives no other is written out so. The parentheses that open groups number
them from 1 on, and the pattern has as many groups. -/
theorem ofString_is_unique_parse (text : String) (p : Pattern)
    (h : Pattern.ofString text = .ok p) :
    itemsTokens p.items = tokensOf text.toUTF8.toList ∧ itemsBranched p.items ∧
      (∀ items, itemsBranched items → itemsTokens items = tokensOf text.toUTF8.toList →
        items = p.items) ∧
      (tokensOf text.toUTF8.toList).filterMap Token.opened? = List.range' 1 p.groups := by
  have hread := Pattern.readable_of_ofBytes h
  have htokens := Pattern.tokens_of_ofBytes h
  refine ⟨htokens, hread.branched, ?_, ?_⟩
  · intro items hitems heq
    exact itemsTokens_injective hitems hread.branched (heq.trans htokens.symm)
  · rw [← htokens, itemsTokens_opened, hread.numbers]

/-- A `*` is a quantifier behind a group and a literal behind a quantifier, a
reference or a bar; a `$` is an anchor only as the last byte. -/
theorem ofString_is_unique_parse_literals :
    ∃ p, Pattern.ofString "^((a)**|*$\\)[^*]?)\\2+$" = .ok p ∧ p.groups = 2 ∧
      tokensOf "^((a)**|*$\\)[^*]?)\\2+$".toUTF8.toList =
        [.openGroup 1, .openGroup 2, .byte 97, .closeGroup, .quantifier .star, .byte 42, .bar,
          .byte 42, .byte 36, .byte 41, .oneOf [42] true, .quantifier .optional, .closeGroup,
          .backreference 2, .byte 43, .endAnchor] ∧
      ∀ items, itemsBranched items → itemsTokens items = itemsTokens p.items → items = p.items := by
  let p : Pattern := ⟨true, [
    .group 1 [[.quantified .star (.group 2 [[.byte 97]]), .byte 42],
      [.byte 42, .byte 36, .byte 41, .quantified .optional (.oneOf [42] true)]],
    .backreference 2, .byte 43, .endAnchor], 2⟩
  have hread : Pattern.ofString "^((a)**|*$\\)[^*]?)\\2+$" = .ok p :=
    (Pattern.ofString_eq _).trans rfl
  obtain ⟨htokens, -, hunique, -⟩ := ofString_is_unique_parse _ p hread
  refine ⟨p, hread, rfl, htokens.symm.trans (by decide +kernel), fun items hitems heq => ?_⟩
  exact hunique items hitems (heq.trans htokens)

end ByteRegex
