import ByteRegex.MessagePattern.Defect
import ByteRegex.MessagePattern.Simplification

/-!
# From trees to shapes

What an element means depends on the flags in force: those of the groups around
it, and those set before it in the innermost of these groups. Some elements have
no meaning under some flags, or none at all: what would match a part of a
character, and what needs data on all of Unicode.
-/

namespace ByteRegex.MessagePattern

/-- The flags in force. -/
structure Flags where
  ignoreCase : Bool := false
  multiLine : Bool := false
  dotMatchesNewline : Bool := false
  swapGreed : Bool := false
  unicode : Bool := true
  carriageReturns : Bool := false
deriving DecidableEq, Repr

/-- The flags after some were switched on or off. -/
def Flags.apply (f : Flags) (items : List FlagItem) : Flags where
  ignoreCase := (flagState? .ignoreCase items).getD f.ignoreCase
  multiLine := (flagState? .multiLine items).getD f.multiLine
  dotMatchesNewline := (flagState? .dotMatchesNewline items).getD f.dotMatchesNewline
  swapGreed := (flagState? .swapGreed items).getD f.swapGreed
  unicode := (flagState? .unicode items).getD f.unicode
  carriageReturns := (flagState? .carriageReturns items).getD f.carriageReturns

/-! ## Classes -/

/-- A class with its negation and, if case is ignored, with both cases of its
letters. Only in ASCII are the cases known; there a negation would match parts
of characters. -/
def closeClass (f : Flags) (region : Region) (negated : Bool) (s : CharSet) :
    Except Defect CharSet :=
  if f.unicode then
    if f.ignoreCase && !s.caseClosed then .error { flaw := .caseFoldingUnavailable, region }
    else .ok (if negated then s.complement else s)
  else if negated then .error { flaw := .invalidUtf8, region }
  else .ok (if f.ignoreCase then s.withAsciiCases else s)

/-- A literal as a member of a class. -/
def letterInClass (f : Flags) (l : Letter) : Except Defect Char :=
  if f.unicode || l.value.toNat < 128 then .ok l.value
  else if l.byteForm then .error { flaw := .invalidUtf8, region := l.region }
  else .error { flaw := .unicodeNotAllowed, region := l.region }

def perlClass (f : Flags) (region : Region) (name : PerlClass) (negated : Bool) :
    Except Defect CharSet :=
  if f.unicode then .error { flaw := .perlClassUnavailable, region }
  else if negated then .error { flaw := .invalidUtf8, region }
  else .ok name.asciiChars

/-- The name of a property in the form in which names are compared. -/
def normalizeName (name : String) : String :=
  let cs := name.toList
  let kept (cs : List Char) : List Char :=
    (cs.filter fun c => c != ' ' && c != '_' && c != '-' && c.toNat < 128).map Char.toLower
  match cs with
  | i :: s :: rest =>
    if i.toLower = 'i' ∧ s.toLower = 's' then
      let short := kept rest
      if short = ['c'] then "isc" else String.ofList short
    else String.ofList (kept cs)
  | _ => String.ofList (kept cs)

/-- No property is known. Three names are looked up as values of a property
first. -/
def propertyDefect (f : Flags) (region : Region) (name : Option String) : Defect :=
  if !f.unicode then { flaw := .unicodeNotAllowed, region }
  else if (name.map normalizeName).any fun n => ["cf", "sc", "lc"].contains n then
    { flaw := .propertyValueUnknown, region }
  else { flaw := .propertyUnknown, region }

/-- An operand of an operator, with both cases of its letters if case is
ignored. -/
def closeOperand (f : Flags) (region : Region) (s : CharSet) : Except Defect CharSet :=
  closeClass f region false s

mutual

/-- The characters of a class. -/
def ClassTree.chars (f : Flags) : ClassTree → Except Defect CharSet
  | .empty _ => .ok .empty
  | .letter l => (letterInClass f l).map fun c => .range c c
  | .range _ first last =>
    (letterInClass f first).bind fun low =>
      (letterInClass f last).map fun high => .range low high
  | .ascii region name negated => closeClass f region negated name.chars
  | .property region name => .error (propertyDefect f region name)
  | .perl region name negated => perlClass f region name negated
  | .bracketed region negated inside => (inside.chars f).bind (closeClass f region negated)
  | .union _ items => unionChars f .empty items
  | .combined _ operation left right =>
    (left.chars f).bind fun s =>
      (right.chars f).bind fun t =>
        (closeOperand f right.region t).bind fun t =>
          (closeOperand f left.region s).map fun s => s.combine operation t

/-- The characters of some classes together, beside those given. -/
def unionChars (f : Flags) (s : CharSet) : List ClassTree → Except Defect CharSet
  | [] => .ok s
  | item :: rest => (item.chars f).bind fun t => unionChars f (s.union t) rest

end

/-! ## Elements -/

/-- A literal as an element. -/
def letterShape (f : Flags) (l : Letter) : Except Defect Shape :=
  let same : CharSet := .range l.value l.value
  if !f.unicode && l.byteForm && l.value.toNat ≥ 128 then
    .error { flaw := .invalidUtf8, region := l.region }
  else if f.ignoreCase then
    if f.unicode then .error { flaw := .caseFoldingUnavailable, region := l.region }
    else .ok (.ofSet same.withAsciiCases true)
  else .ok (.literal [l.value])

/-- Any character or, unless the flags say so, any but those that end a line. -/
def dotShape (f : Flags) (region : Region) : Except Defect Shape :=
  if !f.unicode then .error { flaw := .invalidUtf8, region }
  else
    let excluded : CharSet :=
      if f.dotMatchesNewline then .empty
      else if f.carriageReturns then .ofChars ['\n', '\r']
      else .ofChars ['\n']
    .ok (.ofSet excluded.complement false)

def edgeLook (f : Flags) (kind : Edge) : Look :=
  match kind with
  | .textStart => .textStart
  | .textEnd => .textEnd
  | .lineStart =>
    if !f.multiLine then .textStart
    else if f.carriageReturns then .anyLineStart
    else .lineStart
  | .lineEnd =>
    if !f.multiLine then .textEnd
    else if f.carriageReturns then .anyLineEnd
    else .lineEnd
  | .wordBoundary => if f.unicode then .unicodeWord kind else .wordBoundary
  | .noWordBoundary => if f.unicode then .unicodeWord kind else .noWordBoundary
  | .wordStart => if f.unicode then .unicodeWord kind else .wordStart
  | .wordEnd => if f.unicode then .unicodeWord kind else .wordEnd
  | .wordStartHalf => if f.unicode then .unicodeWord kind else .wordStartHalf
  | .wordEndHalf => if f.unicode then .unicodeWord kind else .wordEndHalf

mutual

/-- The shape of an element, and the flags in force behind it. -/
def Tree.shape (f : Flags) : Tree → Except Defect (Shape × Flags)
  | .empty _ => .ok (.empty, f)
  | .flags _ items => .ok (.empty, f.apply items)
  | .letter l => (letterShape f l).map (·, f)
  | .dot region => (dotShape f region).map (·, f)
  | .edge _ kind => .ok (.look (edgeLook f kind), f)
  | .property region name => .error (propertyDefect f region name)
  | .perl region name negated => (perlClass f region name negated).map fun s => (.ofSet s (!f.unicode), f)
  | .bracket region negated inside =>
    ((inside.chars f).bind (closeClass f region negated)).map fun s =>
      (.ofSet s (!f.unicode), f)
  | .repeated _ least most isLazy inner =>
    (inner.shape f).map fun (s, f') => (.times least most (isLazy == f.swapGreed) s, f')
  | .group _ items captures inner =>
    (inner.shape (f.apply items)).map fun (s, _) => (if captures then .captured s else s, f)
  | .choice _ branches => (shapesOf f branches).map fun (ss, f) => (.anyOf ss, f)
  | .sequence _ elements => (shapesOf f elements).map fun (ss, f) => (.concat ss, f)

/-- The shapes of elements in order. Flags stay in force from one to the next,
also from one branch of a choice to the next. -/
def shapesOf (f : Flags) : List Tree → Except Defect (List Shape × Flags)
  | [] => .ok ([], f)
  | tree :: rest =>
    (tree.shape f).bind fun (s, f) =>
      (shapesOf f rest).map fun (ss, f) => (s :: ss, f)

end

end ByteRegex.MessagePattern
