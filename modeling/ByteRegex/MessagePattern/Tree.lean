import ByteRegex.MessagePattern.Region

/-!
# Trees of message patterns

What the text of a message pattern says, element by element, each with its
region in the text. Nothing is decided here about what an element means: that
depends on the flags in force where it stands.
-/

namespace ByteRegex.MessagePattern

/-- What a flag letter changes. -/
inductive Flag where
  | ignoreCase
  | multiLine
  | dotMatchesNewline
  | swapGreed
  | unicode
  | carriageReturns
  | ignoreBlanks
deriving DecidableEq, Repr

/-- A flag letter or, without a flag, the hyphen that negates all letters after
it. -/
structure FlagItem where
  region : Region
  flag : Option Flag
deriving DecidableEq, Repr

/-- Whether a flag is switched on or off by a list of letters, if it is among
them. -/
def flagState? (flag : Flag) : List FlagItem → Option Bool
  | items => go true items
where
  go (on : Bool) : List FlagItem → Option Bool
    | [] => none
    | item :: rest =>
      match item.flag with
      | none => go false rest
      | some other => if other = flag then some on else go on rest

/-- A literal character. `byteForm` tells that it was written as a backslash, an
`x` and two digits. -/
structure Letter where
  region : Region
  value : Char
  byteForm : Bool := false
deriving DecidableEq, Repr

/-- Conditions on a position. -/
inductive Edge where
  | lineStart
  | lineEnd
  | textStart
  | textEnd
  | wordBoundary
  | noWordBoundary
  | wordStart
  | wordEnd
  | wordStartHalf
  | wordEndHalf
deriving DecidableEq, Repr

inductive PerlClass where
  | digit
  | space
  | word
deriving DecidableEq, Repr

/-- The named classes of ASCII characters. -/
inductive AsciiClass where
  | alnum
  | alpha
  | ascii
  | blank
  | cntrl
  | digit
  | graph
  | lower
  | print
  | punct
  | space
  | upper
  | word
  | xdigit
deriving DecidableEq, Repr

def AsciiClass.ofName? : String → Option AsciiClass
  | "alnum" => some .alnum
  | "alpha" => some .alpha
  | "ascii" => some .ascii
  | "blank" => some .blank
  | "cntrl" => some .cntrl
  | "digit" => some .digit
  | "graph" => some .graph
  | "lower" => some .lower
  | "print" => some .print
  | "punct" => some .punct
  | "space" => some .space
  | "upper" => some .upper
  | "word" => some .word
  | "xdigit" => some .xdigit
  | _ => none

inductive SetOperation where
  | intersection
  | difference
  | symmetricDifference
deriving DecidableEq, Repr

/-- What stands between brackets. -/
inductive ClassTree where
  | empty (region : Region)
  | letter (l : Letter)
  | range (region : Region) (first last : Letter)
  | ascii (region : Region) (name : AsciiClass) (negated : Bool)
  /-- A property with its name, unless it is a letter or has a value. -/
  | property (region : Region) (name : Option String)
  | perl (region : Region) (name : PerlClass) (negated : Bool)
  | bracketed (region : Region) (negated : Bool) (inside : ClassTree)
  | union (region : Region) (items : List ClassTree)
  | combined (region : Region) (operation : SetOperation) (left right : ClassTree)
deriving Inhabited

def ClassTree.region : ClassTree → Region
  | letter l => l.region
  | empty r | range r _ _ | ascii r _ _ | property r _ | perl r _ _ | bracketed r _ _ | union r _
  | combined r _ _ _ => r

/-- One element of a pattern. -/
inductive Tree where
  | empty (region : Region)
  | flags (region : Region) (items : List FlagItem)
  | letter (l : Letter)
  | dot (region : Region)
  | edge (region : Region) (kind : Edge)
  | property (region : Region) (name : Option String)
  | perl (region : Region) (name : PerlClass) (negated : Bool)
  | bracket (region : Region) (negated : Bool) (inside : ClassTree)
  /-- A repetition; `isLazy` tells that a question mark stands behind it. -/
  | repeated (region : Region) (least : Nat) (most : Option Nat) (isLazy : Bool) (inner : Tree)
  | group (region : Region) (items : List FlagItem) (captures : Bool) (inner : Tree)
  | choice (region : Region) (branches : List Tree)
  | sequence (region : Region) (elements : List Tree)
deriving Inhabited

namespace Tree

def region : Tree → Region
  | letter l => l.region
  | empty r | flags r _ | dot r | edge r _ | property r _ | perl r _ _ | bracket r _ _
  | repeated r _ _ _ _ | group r _ _ _ | choice r _ | sequence r _ => r

/-- Whether a repetition can apply to the element. -/
def isRepeatable : Tree → Bool
  | empty _ | flags _ _ => false
  | _ => true

/-- The tree of some elements, which needs no node of its own for one of them. -/
def ofElements (region : Region) : List Tree → Tree
  | [] => empty region
  | [element] => element
  | elements => sequence region elements

end Tree

/-! ## Depth -/

mutual

/-- The first element of a class that is nested too deep below `depth` others. -/
def ClassTree.tooDeep? (limit depth : Nat) : ClassTree → Option Region
  | .bracketed region _ inside =>
    if depth < limit then inside.tooDeep? limit (depth + 1) else some region
  | .union region items =>
    if depth < limit then classesTooDeep? limit (depth + 1) items else some region
  | .combined region _ left right =>
    if depth < limit then
      (left.tooDeep? limit (depth + 1)).or (right.tooDeep? limit (depth + 1))
    else some region
  | .empty _ | .letter _ | .range _ _ _ | .ascii _ _ _ | .property _ _ | .perl _ _ _ => none

def classesTooDeep? (limit depth : Nat) : List ClassTree → Option Region
  | [] => none
  | item :: rest => (item.tooDeep? limit depth).or (classesTooDeep? limit depth rest)

end

mutual

/-- The first element that is nested too deep below `depth` others. -/
def Tree.tooDeep? (limit depth : Nat) : Tree → Option Region
  | .bracket region _ inside =>
    if depth < limit then inside.tooDeep? limit (depth + 1) else some region
  | .repeated region _ _ _ inner =>
    if depth < limit then inner.tooDeep? limit (depth + 1) else some region
  | .group region _ _ inner =>
    if depth < limit then inner.tooDeep? limit (depth + 1) else some region
  | .choice region branches =>
    if depth < limit then treesTooDeep? limit (depth + 1) branches else some region
  | .sequence region elements =>
    if depth < limit then treesTooDeep? limit (depth + 1) elements else some region
  | .empty _ | .flags _ _ | .letter _ | .dot _ | .edge _ _ | .property _ _ | .perl _ _ _ => none

def treesTooDeep? (limit depth : Nat) : List Tree → Option Region
  | [] => none
  | tree :: rest => (tree.tooDeep? limit depth).or (treesTooDeep? limit depth rest)

end

end ByteRegex.MessagePattern
