import Mathlib.Computability.Language
import ByteRegex.Proofs.Pattern.Readable

/-!
# The language of a pattern

A tree without backreferences stands for a language over bytes in the usual way:
a sequence for the product, alternatives for the sum, a quantifier for one of
zero or one, any number of, and at least one occurrence. An end anchor takes no
byte, so its language is that of the empty word; that it asks for the end of the
text is no property of the word.

No order and no captures are left here, and an empty iteration is like any other.
-/

namespace ByteRegex

open Computability

/-- The words of one byte that is written here or, if negated, one that is not. -/
def byteLanguage (written : List UInt8) (negated : Bool) : Language UInt8 :=
  {w | ∃ b, w = [b] ∧ (b ∈ written ↔ negated = false)}

/-- How often a word of the language may occur in a row. -/
def Repeat.language (l : Language UInt8) : Repeat → Language UInt8
  | .once => l
  | .optional => 1 + l
  | .star => l∗
  | .plus => l * l∗

mutual

/-- The words of an item that may occur `times`. A backreference has none: what
it stands for depends on the text. -/
def Item.language (times : Repeat) : Item → Language UInt8
  | .byte b => times.language (byteLanguage [b] false)
  | .any => times.language (byteLanguage [] true)
  | .oneOf written negated => times.language (byteLanguage written negated)
  | .quantified q inner => inner.language q.times
  | .group _ alternatives => times.language (branchesLanguage alternatives)
  | .backreference _ => 0
  | .endAnchor => 1

/-- The words of a sequence. -/
def itemsLanguage : List Item → Language UInt8
  | [] => 1
  | item :: rest => item.language .once * itemsLanguage rest

/-- The words of alternatives. -/
def branchesLanguage : List (List Item) → Language UInt8
  | [] => 0
  | items :: rest => itemsLanguage items + branchesLanguage rest

end

@[simp] theorem itemsLanguage_nil : itemsLanguage [] = 1 := by
  rw [itemsLanguage]

theorem itemsLanguage_cons (item : Item) (rest : List Item) :
    itemsLanguage (item :: rest) = item.language .once * itemsLanguage rest := by
  rw [itemsLanguage]

/-- The words of two sequences in a row. -/
theorem itemsLanguage_append (xs ys : List Item) :
    itemsLanguage (xs ++ ys) = itemsLanguage xs * itemsLanguage ys := by
  induction xs with
  | nil => simp
  | cons item rest ih =>
      rw [List.cons_append, itemsLanguage_cons, itemsLanguage_cons, ih, mul_assoc]

/-- An end anchor adds nothing to the words before it. -/
theorem itemsLanguage_append_endAnchor (items : List Item) :
    itemsLanguage (items ++ [.endAnchor]) = itemsLanguage items := by
  simp [itemsLanguage_append, itemsLanguage_cons, Item.language]

/-- Words of at least one occurrence begin with an occurrence. Unless the word is
empty, it may be taken to be a longer one than the empty word. -/
theorem mem_mul_kstar_iff {l : Language UInt8} {w : List UInt8} :
    w ∈ l * l∗ ↔ (w = [] ∧ [] ∈ l) ∨
      ∃ x y, w = x ++ y ∧ x ∈ l ∧ x ≠ [] ∧ (y = [] ∨ y ∈ l * l∗) := by
  constructor
  · intro h
    obtain ⟨x, hx, y, hy, rfl⟩ := Language.mem_mul.mp h
    obtain ⟨parts, rfl, hparts⟩ := Language.mem_kstar_iff_exists_nonempty.mp hy
    have hrest : ∀ others : List (List UInt8), (∀ z ∈ others, z ∈ l ∧ z ≠ []) →
        others.flatten = [] ∨ others.flatten ∈ l * l∗ := by
      intro others hothers
      cases others with
      | nil => exact .inl rfl
      | cons z zs =>
          refine .inr (Language.append_mem_mul (hothers z (by simp)).1 ?_)
          exact Language.join_mem_kstar fun v hv => (hothers v (by simp [hv])).1
    by_cases hempty : x = []
    · subst hempty
      cases parts with
      | nil => exact .inl ⟨rfl, hx⟩
      | cons z zs =>
          obtain ⟨hz, hne⟩ := hparts z (by simp)
          exact .inr ⟨z, zs.flatten, rfl, hz, hne,
            hrest zs fun v hv => hparts v (by simp [hv])⟩
    · exact .inr ⟨x, parts.flatten, rfl, hx, hempty, hrest parts hparts⟩
  · rintro (⟨rfl, hnil⟩ | ⟨x, y, rfl, hx, -, hy⟩)
    · exact Language.append_mem_mul hnil (Language.nil_mem_kstar l)
    · refine Language.append_mem_mul hx ?_
      rw [← Language.one_add_self_mul_kstar_eq_kstar]
      rcases hy with rfl | hy
      · exact Or.inl rfl
      · exact Or.inr hy

/-! ## Backreferences -/

mutual

/-- The numbers of the groups that an item refers to. -/
def Item.references : Item → List Nat
  | .byte _ | .any | .oneOf _ _ | .endAnchor => []
  | .quantified _ inner => inner.references
  | .group _ alternatives => branchesReferences alternatives
  | .backreference number => [number]

/-- The numbers of the groups that a sequence refers to. -/
def itemsReferences : List Item → List Nat
  | [] => []
  | item :: rest => item.references ++ itemsReferences rest

/-- The numbers of the groups that alternatives refer to. -/
def branchesReferences : List (List Item) → List Nat
  | [] => []
  | items :: rest => itemsReferences items ++ branchesReferences rest

end

@[simp] theorem itemsReferences_nil : itemsReferences [] = [] := rfl

@[simp] theorem itemsReferences_cons (item : Item) (rest : List Item) :
    itemsReferences (item :: rest) = item.references ++ itemsReferences rest := by
  rw [itemsReferences]

@[simp] theorem branchesReferences_cons (items : List Item) (rest : List (List Item)) :
    branchesReferences (items :: rest) = itemsReferences items ++ branchesReferences rest := by
  rw [branchesReferences]

theorem itemsReferences_append (xs ys : List Item) :
    itemsReferences (xs ++ ys) = itemsReferences xs ++ itemsReferences ys := by
  induction xs with
  | nil => rfl
  | cons item rest ih => simp [ih]

end ByteRegex
