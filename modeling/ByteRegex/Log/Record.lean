import ByteRegex.Log.Level
import ByteRegex.Matcher.Event

/-!
# Log records

What is logged is a list of records, in the order in which things happened.
Each says how severe it is and which part of the program it comes from.
-/

namespace ByteRegex

/-- The parts of the program that log. -/
inductive Source where
  | command
  | regex
  | matcher
deriving DecidableEq, Repr

/-- The name that log filters know a source by. -/
def Source.name : Source → String
  | command => "mygrep"
  | regex => "mygrep::regex"
  | matcher => "mygrep::matcher"

structure Record where
  level : Level
  source : Source
  message : String
deriving DecidableEq, Repr

namespace Record

/-- The record without its source. -/
def line (r : Record) : String :=
  s!"{r.level.name} {r.message}"

end Record

/-- An event of a match as a record. -/
def Event.record (e : Event) : Record where
  level := e.level
  source := .matcher
  message := e.message

end ByteRegex
