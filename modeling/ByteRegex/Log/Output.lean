import ByteRegex.Log.Filter
import ByteRegex.Text.ControlSequence

/-!
# Showing log records

Each record that is shown becomes one line with its level in brackets. Where a
filter was asked for, the level is padded to the length of the longest one and
the source stands beside it; otherwise only errors are shown, and without their
source. A message of several lines is indented from its second line on, and
control sequences are left out.
-/

namespace ByteRegex

/-- Which records are shown, and how. -/
inductive LogOutput where
  | errorsOnly
  | filtered (filter : LogFilter)

namespace LogOutput

/-- The length of the longest name of a level. -/
def levelWidth : Nat := 5

def shows : LogOutput → Record → Bool
  | errorsOnly, r => r.level = .error
  | filtered filter, r => filter.shows r

/-- How detailed the events of a match have to be. -/
def matcherVerbosity : LogOutput → Level
  | errorsOnly => .error
  | filtered filter => (filter.thresholdFor .matcher).getD .error

/-- The name of a level with blanks after it, as wide as the longest. -/
def padded (l : Level) : String :=
  l.name.pushn ' ' (levelWidth - l.name.length)

/-- What stands in brackets before a message. -/
def header : LogOutput → Record → String
  | errorsOnly, r => s!"[{padded r.level}]"
  | filtered _, r => s!"[{padded r.level} {r.source.name}]"

/-- The message with every line after the first one indented. -/
def indent (message : String) : String :=
  String.ofList (message.toList.flatMap fun c =>
    if c = '\n' then '\n' :: List.replicate 4 ' ' else [c])

def line (o : LogOutput) (r : Record) : String :=
  ControlSequence.strip s!"{o.header r} {indent r.message}\n"

/-- The lines of all records that are shown. -/
def text (o : LogOutput) (records : List Record) : String :=
  String.join ((records.filter o.shows).map o.line)

end LogOutput

end ByteRegex
