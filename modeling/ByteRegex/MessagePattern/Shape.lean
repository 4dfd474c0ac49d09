import ByteRegex.MessagePattern.CharSet

/-!
# Shapes of messages

A shape is the meaning of a message pattern without its wording: characters,
conditions on positions, sequence, choice and repetition. What is known of a
shape without any text stands here: whether it can match something empty or
only that, and whether it is tied to an end of the text.
-/

namespace ByteRegex.MessagePattern

/-- Conditions on a position; those on words look at ASCII only. -/
inductive Look where
  | textStart
  | textEnd
  /-- After a newline or at the start of the text. -/
  | lineStart
  | lineEnd
  /-- The same where a carriage return ends a line too. -/
  | anyLineStart
  | anyLineEnd
  | wordBoundary
  | noWordBoundary
  | wordStart
  | wordEnd
  | wordStartHalf
  | wordEndHalf
  /-- A condition on words in the sense of Unicode, which cannot be decided. -/
  | unicodeWord (kind : Edge)
deriving DecidableEq, Repr

namespace Look

def isWordChar (c : Char) : Bool :=
  c.isAlphanum || c == '_'

/-- Whether the condition holds between two characters; `none` is the end of the
text. -/
def holds (l : Look) (before after : Option Char) : Bool :=
  let left := before.any isWordChar
  let right := after.any isWordChar
  match l with
  | textStart => before.isNone
  | textEnd => after.isNone
  | lineStart => before.isNone || before == some '\n'
  | lineEnd => after.isNone || after == some '\n'
  | anyLineStart =>
    before.isNone || before == some '\n' || (before == some '\r' && after != some '\n')
  | anyLineEnd =>
    after.isNone || after == some '\r' || (after == some '\n' && before != some '\r')
  | wordBoundary => left != right
  | noWordBoundary => left == right
  | wordStart => !left && right
  | wordEnd => left && !right
  | wordStartHalf => !left
  | wordEndHalf => !right
  | unicodeWord _ => false

def isUnicodeWord : Look → Bool
  | unicodeWord _ => true
  | _ => false

end Look

inductive Shape where
  | empty
  | literal (text : List Char)
  /-- One character of a set. A set that was written with Unicode switched off is
  one of bytes. -/
  | oneOf (set : CharSet) (inBytes : Bool)
  | look (l : Look)
  /-- A repetition; if it is `greedy`, more of it is preferred to less. -/
  | repeated (least : Nat) (most : Option Nat) (greedy : Bool) (inner : Shape)
  /-- A group that captures. -/
  | captured (inner : Shape)
  | choice (branches : List Shape)
  | sequence (elements : List Shape)
deriving Inhabited

namespace Shape

def isEmpty : Shape → Bool
  | empty => true
  | _ => false

def isLiteral : Shape → Bool
  | literal _ => true
  | _ => false

/-- The shape that nothing has. -/
def nothing : Shape :=
  .oneOf .empty true

end Shape

/-! ## Equality -/

mutual

/-- Whether two shapes are equal. No two groups that capture are: each captures
for itself. -/
def Shape.same : Shape → Shape → Bool
  | .empty, .empty => true
  | .literal s, .literal t => s == t
  | .oneOf s b, .oneOf t c => s.ranges == t.ranges && b == c
  | .look l, .look k => l == k
  | .repeated least most greedy inner, .repeated least' most' greedy' inner' =>
    least == least' && most == most' && greedy == greedy' && inner.same inner'
  | .choice ss, .choice ts => allSame ss ts
  | .sequence ss, .sequence ts => allSame ss ts
  | _, _ => false

def allSame : List Shape → List Shape → Bool
  | [], [] => true
  | s :: ss, t :: ts => s.same t && allSame ss ts
  | _, _ => false

end

/-! ## Length -/

mutual

/-- Whether the shape matches no character at all, but something empty. -/
def Shape.isWidthless : Shape → Bool
  | .empty | .look _ => true
  | .literal _ | .oneOf _ _ => false
  | .repeated _ _ _ inner => inner.isWidthless
  | .captured inner => inner.isWidthless
  | .choice branches => allWidthless branches
  | .sequence elements => allWidthless elements

def allWidthless : List Shape → Bool
  | [] => true
  | s :: rest => s.isWidthless && allWidthless rest

end

mutual

/-- The least number of characters that the shape matches. There is none if it
has a part, not even one to choose, that nothing has. -/
def Shape.leastLength? : Shape → Option Nat
  | .empty | .look _ => some 0
  | .literal text => some text.length
  | .oneOf set _ => if set.isEmpty then none else some 1
  | .repeated least _ _ inner => inner.leastLength?.map (least * ·)
  | .captured inner => inner.leastLength?
  | .choice branches => leastLengths? min branches
  | .sequence elements => leastLengths? (· + ·) elements

/-- The least lengths of some shapes put together. -/
def leastLengths? (combine : Nat → Nat → Nat) : List Shape → Option Nat
  | [] => some 0
  | [s] => s.leastLength?
  | s :: rest =>
    match s.leastLength?, leastLengths? combine rest with
    | some m, some n => some (combine m n)
    | _, _ => none

end

/-- Whether the shape is known to match one character at least. -/
def Shape.consumes (s : Shape) : Bool :=
  s.leastLength?.any (0 < ·)

/-! ## Ends of the text -/

mutual

/-- Whether the condition `l` holds wherever the shape begins. -/
def Shape.beginsWith (l : Look) : Shape → Bool
  | .look k => k == l
  | .repeated least _ _ inner => 0 < least && inner.beginsWith l
  | .captured inner => inner.beginsWith l
  | .choice branches => allBeginWith l branches
  | .sequence elements => someBeginsWith l elements
  | .empty | .literal _ | .oneOf _ _ => false

def allBeginWith (l : Look) : List Shape → Bool
  | [] => true
  | s :: rest => s.beginsWith l && allBeginWith l rest

/-- The same of a sequence, up to its first element that may match a
character. -/
def someBeginsWith (l : Look) : List Shape → Bool
  | [] => false
  | s :: rest => s.beginsWith l || (s.isWidthless && someBeginsWith l rest)

end

mutual

/-- Whether the condition `l` holds wherever the shape ends. -/
def Shape.endsWith (l : Look) : Shape → Bool
  | .look k => k == l
  | .repeated least _ _ inner => 0 < least && inner.endsWith l
  | .captured inner => inner.endsWith l
  | .choice branches => allEndWith l branches
  | .sequence elements => someEndsWith l elements
  | .empty | .literal _ | .oneOf _ _ => false

def allEndWith (l : Look) : List Shape → Bool
  | [] => true
  | s :: rest => s.endsWith l && allEndWith l rest

/-- The same of a sequence, from its last element on that may match a
character. -/
def someEndsWith (l : Look) : List Shape → Bool
  | [] => false
  | s :: rest => someEndsWith l rest || (allWidthless rest && s.endsWith l)

end

/-! ## Conditions that cannot be decided -/

mutual

/-- Whether a condition occurs that cannot be decided. -/
def Shape.needsUnicodeWords : Shape → Bool
  | .empty | .literal _ | .oneOf _ _ => false
  | .look l => l.isUnicodeWord
  | .repeated _ _ _ inner => inner.needsUnicodeWords
  | .captured inner => inner.needsUnicodeWords
  | .choice branches => anyNeedsUnicodeWords branches
  | .sequence elements => anyNeedsUnicodeWords elements

def anyNeedsUnicodeWords : List Shape → Bool
  | [] => false
  | s :: rest => s.needsUnicodeWords || anyNeedsUnicodeWords rest

end

end ByteRegex.MessagePattern
