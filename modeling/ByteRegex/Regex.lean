import ByteRegex.Graph.Layout
import ByteRegex.Graph.Spelling
import ByteRegex.Log.Record
import ByteRegex.Matcher.Basic
import ByteRegex.Text.Quoted
import ByteRegex.Text.Utf8

/-!
# Regular expressions over bytes

A `Regex` is a compiled pattern: its graph and the two ends of the line it is
tied to. Two patterns that mean the same graph compile to equal values, and
`Regex.display` writes that graph out again as a pattern.

A line matches if the pattern matches from some offset on; offsets are tried in
order, the end of the line included, and a pattern tied to the start of the
line is tried at offset 0 only.
-/

namespace ByteRegex

structure Regex where
  program : Program
  matchStart : Bool
  matchEnd : Bool
deriving DecidableEq, Inhabited

/-- Why a text does not compile: it is no pattern, or its tree has no graph. -/
inductive CompileError where
  | malformed (cause : PatternError)
  | illShaped (cause : ShapeFault)
deriving DecidableEq, Repr

def CompileError.message : CompileError → String
  | malformed cause => cause.message
  | illShaped cause => cause.message

/-- What a search through a line found, and what happened on the way, latest
first. -/
structure Search where
  found : Except Fault (Option Span)
  events : List Event

namespace Regex

def ofPattern (p : Pattern) : Except ShapeFault Regex :=
  match p.toProgram with
  | .ok program => .ok { program, matchStart := p.matchStart, matchEnd := p.matchEnd }
  | .error fault => .error fault

def compile (text : String) : Except CompileError Regex :=
  match Pattern.ofString text with
  | .error cause => .error (.malformed cause)
  | .ok pattern =>
    match ofPattern pattern with
    | .ok regex => .ok regex
    | .error cause => .error (.illShaped cause)

/-- The number of groups. -/
def groupCount (r : Regex) : Nat :=
  r.program.slots

/-- The spelling of the graph, with a `^` before it if the pattern is tied to
the start of the line. -/
def spell? (r : Regex) : Option (List UInt8) :=
  r.program.spell?.map ((if r.matchStart then ['^'.toUInt8] else []) ++ ·)

/-- The spelling as text. -/
def display (r : Regex) : String :=
  match r.spell? with
  | some bytes => Utf8.decodeLossy bytes
  | none => ""

/-- A matcher of this pattern over one line. -/
def matcher (r : Regex) (line : Array UInt8) (verbosity : Level := .error) : Matcher where
  program := r.program
  text := line
  verbosity := verbosity

end Regex

/-- Attempts at `offset` and, while they fail, at the next `others` offsets. -/
def Matcher.searchFrom (m : Matcher) : (others offset : Nat) → State → Search
  | others, offset, s =>
    match m.matchAt offset s with
    | .matched stop s => { found := .ok (some ⟨offset, stop⟩), events := s.events }
    | .faulted fault s => { found := .error fault, events := s.events }
    | .failed s =>
      match others with
      | 0 => { found := .ok none, events := s.events }
      | others + 1 => m.searchFrom others (offset + 1) s

namespace Regex

/-- The first match in a line. -/
def search (r : Regex) (line : Array UInt8) (verbosity : Level := .error) : Search :=
  let m := r.matcher line verbosity
  match m.fresh? with
  | .error fault => { found := .error fault, events := [] }
  | .ok s => m.searchFrom (if r.matchStart then 0 else line.size) 0 s

/-- Whether the pattern matches anywhere in a line. -/
def matchLine (r : Regex) (line : Array UInt8) : Except Fault Bool :=
  match (r.search line).found with
  | .ok found => .ok found.isSome
  | .error fault => .error fault

/-- The record of a compilation. -/
def compiledRecord (text : String) (r : Regex) : Record where
  level := .debug
  source := .regex
  message := s!"compiled {quote text} as {r.display}"

end Regex

/-- The record of what a search found; a search that broke off has none. -/
def Search.resultRecord? (s : Search) : Option Record :=
  match s.found with
  | .ok (some span) => some ⟨.debug, .regex, s!"matched {span.start}..{span.stop}"⟩
  | .ok none => some ⟨.debug, .regex, "no match"⟩
  | .error _ => none

/-- The records of a search, in order. -/
def Search.records (s : Search) : List Record :=
  s.events.reverse.map Event.record ++ s.resultRecord?.toList

end ByteRegex
