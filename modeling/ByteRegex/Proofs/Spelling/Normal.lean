import ByteRegex.Graph.Spelling
import ByteRegex.Proofs.Graph.Placement
import ByteRegex.Proofs.Pattern.GroupNumbers

/-!
# Trees with the same graph

A class of one byte and the byte itself have the same graph, and so have the
negated empty class and the dot. `Item.normal` puts the shorter item in the place
of the longer one throughout a tree; nothing else is changed, and nothing that
the graph depends on.
-/

namespace ByteRegex

/-- The item that a class is read back as. -/
def Item.ofClass (written : List UInt8) (negated : Bool) : Item :=
  match negated, written with
  | true, [] => .any
  | false, [b] => .byte b
  | negated, written => .oneOf written negated

mutual

/-- The item that the spelling of an item is read as. -/
def Item.normal : Item → Item
  | .oneOf written negated => .ofClass written negated
  | .quantified q inner => .quantified q inner.normal
  | .group number alternatives => .group number (branchesNormal alternatives)
  | .byte b => .byte b
  | .any => .any
  | .backreference number => .backreference number
  | .endAnchor => .endAnchor

def itemsNormal : List Item → List Item
  | [] => []
  | item :: rest => item.normal :: itemsNormal rest

def branchesNormal : List (List Item) → List (List Item)
  | [] => []
  | items :: rest => itemsNormal items :: branchesNormal rest

end

/-- The pattern that the spelling of a pattern is read as. -/
def Pattern.normal (p : Pattern) : Pattern :=
  { p with items := itemsNormal p.items }

/-- A class is spelled as a dot, as a byte, or between brackets. -/
theorem Item.ofClass_cases (written : List UInt8) (negated : Bool) :
    (negated = true ∧ written = [] ∧ ofClass written negated = .any) ∨
      (∃ b, negated = false ∧ written = [b] ∧ ofClass written negated = .byte b) ∨
      ofClass written negated = .oneOf written negated := by
  unfold ofClass
  split
  next => exact .inl ⟨rfl, rfl, rfl⟩
  next b => exact .inr (.inl ⟨b, rfl, rfl, rfl⟩)
  next => exact .inr (.inr rfl)

/-- The five ways to spell a class, and what each of them is read as. -/
theorem ByteClass.spell_cases (written : List UInt8) (negated : Bool) :
    ((ofWritten written negated).spell = ['.'.toUInt8] ∧
      Item.ofClass written negated = .any) ∨
    (∃ b, written = [b] ∧ (ofWritten written negated).spell = spellByte b ∧
      Item.ofClass written negated = .byte b) ∨
    ((ofWritten written negated).spell = ['\\'.toUInt8, 'd'.toUInt8] ∧
      Item.ofClass written negated = .oneOf digits false) ∨
    ((ofWritten written negated).spell = ['\\'.toUInt8, 'w'.toUInt8] ∧
      Item.ofClass written negated = .oneOf wordBytes false) ∨
    ((ofWritten written negated).spell = '['.toUInt8 ::
        ((if negated then ['^'.toUInt8] else []) ++ written ++ [']'.toUInt8]) ∧
      Item.ofClass written negated = .oneOf written negated) := by
  cases negated with
  | true =>
      cases written with
      | nil => exact .inl ⟨rfl, rfl⟩
      | cons b others => exact .inr (.inr (.inr (.inr ⟨by simp [spell], rfl⟩)))
  | false =>
      cases written with
      | nil => exact .inr (.inr (.inr (.inr ⟨rfl, rfl⟩)))
      | cons b others =>
          cases others with
          | nil => exact .inr (.inl ⟨b, rfl, rfl, rfl⟩)
          | cons c more =>
              by_cases hdigits : b :: c :: more = digits
              · refine .inr (.inr (.inl ⟨if_pos ⟨rfl, hdigits⟩, ?_⟩))
                rw [← hdigits]
                rfl
              · have hskip : ¬ (false = false ∧ b :: c :: more = digits) := fun h => hdigits h.2
                by_cases hword : b :: c :: more = wordBytes
                · refine .inr (.inr (.inr (.inl
                    ⟨(if_neg hskip).trans (if_pos ⟨rfl, hword⟩), ?_⟩)))
                  rw [← hword]
                  rfl
                · exact .inr (.inr (.inr (.inr
                    ⟨(if_neg hskip).trans (if_neg fun h => hword h.2), rfl⟩)))

theorem itemsNormal_eq_map (items : List Item) : itemsNormal items = items.map Item.normal := by
  induction items with
  | nil => rfl
  | cons item rest ih => rw [itemsNormal, ih, List.map_cons]

theorem itemsNormal_append (xs ys : List Item) :
    itemsNormal (xs ++ ys) = itemsNormal xs ++ itemsNormal ys := by
  simp only [itemsNormal_eq_map, List.map_append]

theorem isEmpty_itemsNormal (items : List Item) : (itemsNormal items).isEmpty = items.isEmpty := by
  cases items <;> rfl

/-! ## What stays the same -/

theorem Item.isQuantifiable_normal (item : Item) :
    item.normal.isQuantifiable = item.isQuantifiable := by
  cases item with
  | oneOf written negated =>
      rw [Item.normal]
      rcases Item.ofClass_cases written negated with ⟨_, _, h⟩ | ⟨b, _, _, h⟩ | h <;> rw [h] <;> rfl
  | _ => rfl

theorem Item.isEndAnchor_normal (item : Item) : item.normal.isEndAnchor = item.isEndAnchor := by
  cases item with
  | oneOf written negated =>
      rw [Item.normal]
      rcases Item.ofClass_cases written negated with ⟨_, _, h⟩ | ⟨b, _, _, h⟩ | h <;> rw [h] <;> rfl
  | _ => rfl

/-- A class has one node, whichever item it is written as. -/
theorem Item.nodes_ofClass (written : List UInt8) (negated : Bool) (times : Repeat)
    (here : NodeId) (next : Option NodeId) :
    (Item.ofClass written negated).nodes times here next =
      [.bytes (.ofWritten written negated) times next] := by
  rcases Item.ofClass_cases written negated with ⟨rfl, rfl, h⟩ | ⟨b, rfl, rfl, h⟩ | h
  · rw [h]
    rfl
  · rw [h]
    rfl
  · rw [h]
    rfl

mutual

theorem Item.nodeCount_normal : ∀ item : Item, item.normal.nodeCount = item.nodeCount
  | .oneOf written negated => by
      rw [Item.normal]
      rcases Item.ofClass_cases written negated with ⟨_, _, h⟩ | ⟨b, _, _, h⟩ | h <;> rw [h] <;> rfl
  | .quantified _ inner => by
      rw [Item.normal, Item.nodeCount, Item.nodeCount, Item.nodeCount_normal inner]
  | .group _ alternatives => by
      rw [Item.normal, Item.nodeCount, Item.nodeCount, branchesNodeCount_normal alternatives]
  | .byte _ | .any | .backreference _ | .endAnchor => rfl

theorem itemsNodeCount_normal : ∀ items : List Item,
    itemsNodeCount (itemsNormal items) = itemsNodeCount items
  | [] => rfl
  | item :: rest => by
      rw [itemsNormal, itemsNodeCount, itemsNodeCount, Item.nodeCount_normal item,
        itemsNodeCount_normal rest]

theorem branchesNodeCount_normal : ∀ branches : List (List Item),
    branchesNodeCount (branchesNormal branches) = branchesNodeCount branches
  | [] => rfl
  | items :: rest => by
      rw [branchesNormal, branchesNodeCount, branchesNodeCount, itemsNodeCount_normal items,
        branchesNodeCount_normal rest]

end

theorem branchEntries_normal (tail here : NodeId) (branches : List (List Item)) :
    branchEntries tail here (branchesNormal branches) = branchEntries tail here branches := by
  induction branches generalizing here with
  | nil => rfl
  | cons items rest ih =>
      rw [branchesNormal, branchEntries, branchEntries, isEmpty_itemsNormal,
        itemsNodeCount_normal, ih]

mutual

theorem Item.nodes_normal : ∀ (item : Item) (times : Repeat) (here : NodeId)
    (next : Option NodeId), item.normal.nodes times here next = item.nodes times here next
  | .oneOf written negated, times, here, next => by
      rw [Item.normal, Item.nodes_ofClass]
      rfl
  | .quantified q inner, times, here, next => by
      rw [Item.normal, Item.nodes, Item.nodes, Item.nodes_normal inner]
  | .group number alternatives, times, here, next => by
      rw [Item.normal, Item.nodes, Item.nodes, branchEntries_normal,
        branchesNodes_normal alternatives]
  | .byte _, _, _, _ | .any, _, _, _ | .backreference _, _, _, _ | .endAnchor, _, _, _ => rfl

theorem itemsNodes_normal : ∀ (items : List Item) (here : NodeId) (exit : Option NodeId),
    itemsNodes here exit (itemsNormal items) = itemsNodes here exit items
  | [], _, _ => rfl
  | item :: rest, here, exit => by
      rw [itemsNormal, itemsNodes, itemsNodes, continuation, continuation, isEmpty_itemsNormal,
        Item.nodeCount_normal, Item.nodes_normal item, itemsNodes_normal rest]

theorem branchesNodes_normal : ∀ (branches : List (List Item)) (tail here : NodeId),
    branchesNodes tail here (branchesNormal branches) = branchesNodes tail here branches
  | [], _, _ => rfl
  | items :: rest, tail, here => by
      rw [branchesNormal, branchesNodes, branchesNodes, itemsNodes_normal items,
        itemsNodeCount_normal, branchesNodes_normal rest]

end

/-- Both patterns are tied to the end of the line, or neither is. -/
theorem Pattern.matchEnd_normal (p : Pattern) : p.normal.matchEnd = p.matchEnd := by
  unfold Pattern.matchEnd Pattern.normal
  rw [itemsNormal_eq_map, List.getLast?_map, Option.any_map]
  congr 1
  funext item
  exact Item.isEndAnchor_normal item

end ByteRegex
