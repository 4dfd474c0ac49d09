import ByteRegex.Command.Help
import ByteRegex.Command.Options
import ByteRegex.LineInput
import ByteRegex.Log.Output
import ByteRegex.Regex

/-!
# The command

The command matches the first line of its input against a pattern and tells by
its exit code whether it matched: 0 if so, 1 if not, 2 if something was wrong.
What it logs goes to the standard error stream. With a filter text for the log
the records it selects are shown, and warnings about that text before them.
-/

namespace ByteRegex

/-- What the command leaves behind. -/
structure Response where
  code : Nat
  stdout : String
  stderr : String
deriving DecidableEq, Repr

def UsageError.message : UsageError → String
  | missingPattern => "a pattern is required"
  | missingValue => "a value is required for --extended-regexp <PATTERN>"
  | unknownArgument => "unexpected argument"
  | repeatedOption => "--extended-regexp <PATTERN> cannot be used multiple times"
  | unexpectedValue => "unexpected value for a flag"
  | invalidUtf8 => "invalid UTF-8 in an argument"

namespace Command

/-- An exit code and the records up to it. -/
structure Run where
  code : Nat
  records : List Record

/-- A record of the command itself. -/
def record (level : Level) (message : String) : Record :=
  ⟨level, .command, message⟩

/-- Matches the first line of the input against a pattern. -/
def search (pattern : String) (input : List UInt8) (verbosity : Level) : Run :=
  match Regex.compile pattern with
  | .error cause =>
    { code := 2, records := [record .error s!"invalid pattern {quote pattern}: {cause.message}"] }
  | .ok regex =>
    let (line, _) := readLine input
    let found := regex.search line.toArray verbosity
    let records :=
      [regex.compiledRecord pattern,
        record .debug s!"line = {quote (Utf8.decodeLossy line)}"] ++ found.records
    match found.found with
    | .ok (some _) => { code := 0, records }
    | .ok none => { code := 1, records }
    | .error _ => { code := 2, records := records ++ [record .error "the search broke off"] }

/-- Answers a command line. `filter` is the filter text for the log, if there is
one. -/
def respond (arguments : List (List UInt8)) (input : List UInt8) (filter : Option String) :
    Response :=
  let (output, warnings) :=
    match filter with
    | none => (LogOutput.errorsOnly, [])
    | some text =>
      let (f, warnings) := LogFilter.read text
      (.filtered f, warnings)
  let warned := String.join (warnings.map fun w => s!"warning: {w}, ignoring it\n")
  let started := record .debug "logging initialized"
  match Request.ofArguments arguments with
  | .error e =>
    { code := 2, stdout := "",
      stderr := warned ++ output.text [started] ++ s!"error: {e.message}\n\n{Help.usage}\n" }
  | .ok .version =>
    { code := 0, stdout := Help.version, stderr := warned ++ output.text [started] }
  | .ok (.help full) =>
    { code := 0, stdout := if full then Help.full else Help.summary,
      stderr := warned ++ output.text [started] }
  | .ok (.search pattern) =>
    let run := search pattern input output.matcherVerbosity
    { code := run.code, stdout := "",
      stderr := warned ++ output.text (started :: run.records) }

end Command

end ByteRegex
