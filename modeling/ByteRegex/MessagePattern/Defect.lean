import ByteRegex.MessagePattern.Region
import ByteRegex.Text.Blank

/-!
# Defects of message patterns

Why a text is no message pattern, and where. The report repeats the text and
marks the place with carets below it; a text of several lines stands between
two rulers with its lines numbered.
-/

namespace ByteRegex.MessagePattern

/-- How deep a pattern may be nested. -/
def nestLimit : Nat := 250

inductive Flaw where
  | classEscape
  | classRangeOrder
  | classRangeBoundary
  | classUnclosed
  | decimalInvalid
  | hexEmpty
  | hexNoCharacter
  | hexDigit
  | escapeUnfinished
  | escapeUnknown
  | flagNegatesNothing
  | flagTwice
  | flagNegationTwice
  | flagUnfinished
  | flagUnknown
  | nameTwice
  | nameEmpty
  | nameCharacter
  | nameUnfinished
  | groupUnclosed
  | groupUnopened
  | nestedTooDeep
  | countOrder
  | countMissing
  | countUnclosed
  | nothingToRepeat
  | boundaryUnclosed
  | boundaryUnknown
  | boundaryUnfinished
  | propertyInvalid
  | backreference
  | lookAround
  | unicodeNotAllowed
  | invalidUtf8
  | propertyUnknown
  | propertyValueUnknown
  | perlClassUnavailable
  | caseFoldingUnavailable
deriving DecidableEq, Repr

def Flaw.message : Flaw → String
  | classEscape => "invalid escape sequence found in character class"
  | classRangeOrder => "invalid character class range, the start must be <= the end"
  | classRangeBoundary => "invalid range boundary, must be a literal"
  | classUnclosed => "unclosed character class"
  | decimalInvalid => "decimal literal invalid"
  | hexEmpty => "hexadecimal literal empty"
  | hexNoCharacter => "hexadecimal literal is not a Unicode scalar value"
  | hexDigit => "invalid hexadecimal digit"
  | escapeUnfinished => "incomplete escape sequence, reached end of pattern prematurely"
  | escapeUnknown => "unrecognized escape sequence"
  | flagNegatesNothing => "dangling flag negation operator"
  | flagTwice => "duplicate flag"
  | flagNegationTwice => "flag negation operator repeated"
  | flagUnfinished => "expected flag but got end of regex"
  | flagUnknown => "unrecognized flag"
  | nameTwice => "duplicate capture group name"
  | nameEmpty => "empty capture group name"
  | nameCharacter => "invalid capture group character"
  | nameUnfinished => "unclosed capture group name"
  | groupUnclosed => "unclosed group"
  | groupUnopened => "unopened group"
  | nestedTooDeep =>
    s!"exceed the maximum number of nested parentheses/brackets ({nestLimit})"
  | countOrder => "invalid repetition count range, the start must be <= the end"
  | countMissing => "repetition quantifier expects a valid decimal"
  | countUnclosed => "unclosed counted repetition"
  | nothingToRepeat => "repetition operator missing expression"
  | boundaryUnclosed =>
    "special word boundary assertion is either unclosed or contains an invalid character"
  | boundaryUnknown =>
    "unrecognized special word boundary assertion, valid choices are: " ++
      "start, end, start-half or end-half"
  | boundaryUnfinished =>
    "found either the beginning of a special word boundary or a bounded repetition " ++
      "on a \\b with an opening brace, but no closing brace"
  | propertyInvalid => "invalid Unicode character class"
  | backreference => "backreferences are not supported"
  | lookAround => "look-around, including look-ahead and look-behind, is not supported"
  | unicodeNotAllowed => "Unicode not allowed here"
  | invalidUtf8 => "pattern can match invalid UTF-8"
  | propertyUnknown => "Unicode property not found"
  | propertyValueUnknown => "Unicode property value not found"
  | perlClassUnavailable =>
    "Unicode-aware Perl class not found (make sure the unicode-perl feature is enabled)"
  | caseFoldingUnavailable =>
    "Unicode-aware case insensitivity matching is not available " ++
      "(make sure the unicode-case feature is enabled)"

/-- A flaw and where it is; for something that is given twice, also where it was
given first. -/
structure Defect where
  flaw : Flaw
  region : Region
  earlier : Option Region := none
deriving DecidableEq, Repr

/-- The lines of a text, without their endings. A newline at the very end begins
no line. -/
def linesOf (text : List Char) : List (List Char) :=
  let pieces := splitOnChar '\n' text
  let ended := pieces.dropLast.map fun piece =>
    if piece.getLast? = some '\r' then piece.dropLast else piece
  match pieces.getLast? with
  | none | some [] => ended
  | some last => ended ++ [last]

/-- A number with blanks before it. -/
def padNumber (width n : Nat) : String :=
  let digits := toString n
  "".pushn ' ' (width - digits.length) ++ digits

namespace Defect

/-- The regions of a defect in the order of the text. -/
def regions (d : Defect) : List Region :=
  match d.earlier with
  | none => [d.region]
  | some r => if r.start.offset < d.region.start.offset then [r, d.region] else [d.region, r]

/-- Carets below the regions, which lie on one line in order; `column` columns
are written already. -/
def carets (column : Nat) : List Region → String
  | [] => ""
  | r :: rest =>
    let blanks := r.start.column - 1 - column
    "".pushn ' ' blanks ++ "".pushn '^' r.width ++ carets (column + blanks + r.width) rest

/-- The text with its numbered lines and the carets below them. In a text of
one line the line has no number. -/
def excerpt (d : Defect) (text : List Char) : String :=
  let lines := linesOf text
  let count := lines.length + (if text.getLast? = some '\n' then 1 else 0)
  let numberWidth := if count ≤ 1 then 0 else (toString count).length
  let written := lines.zipIdx.map fun (line, i) =>
    let head := if numberWidth = 0 then "    " else padNumber numberWidth (i + 1) ++ ": "
    let marked := d.regions.filter fun r => r.isOneLine && r.start.line == i + 1
    let notes :=
      if marked.isEmpty then ""
      else "".pushn ' ' head.length ++ carets 0 marked ++ "\n"
    head ++ String.ofList line ++ "\n" ++ notes
  String.join written

/-- Where a region of several lines begins and ends. -/
def extentNote (r : Region) : String :=
  s!"on line {r.start.line} (column {r.start.column}) through " ++
    s!"line {r.stop.line} (column {r.stop.column - 1})"

/-- The report of a defect of the given text. -/
def report (d : Defect) (text : String) : String :=
  let cs := text.toList
  let body :=
    if cs.contains '\n' then
      let ruler := "".pushn '~' 79 ++ "\n"
      let long := d.regions.filter fun r => !r.isOneLine
      let notes :=
        if long.isEmpty then "" else "\n".intercalate (long.map extentNote) ++ "\n"
      ruler ++ d.excerpt cs ++ ruler ++ notes
    else d.excerpt cs
  s!"regex parse error:\n{body}error: {d.flaw.message}"

end Defect

end ByteRegex.MessagePattern
