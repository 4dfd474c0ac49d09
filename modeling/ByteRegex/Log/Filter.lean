import ByteRegex.Log.Record
import ByteRegex.MessagePattern.Basic
import ByteRegex.Text.Blank

/-!
# Log filters

Which records are shown is given by a text: directives between commas, and
after a slash a pattern that has to be found in the message. A directive is a level
for everything, a name for everything whose source begins with it, or both with
an equals sign between them. For a record the directive with the longest name
that fits decides, and among equally long names the one given last; a record
that no directive fits is not shown.

A part of the text that cannot be read is left out with a warning.

These are the rules of the library that the command logs with. They are written
out for the command alone, and no theorem is about them.
-/

namespace ByteRegex

/-- The most generous level that is shown; `none` shows nothing. -/
abbrev Threshold := Option Level

/-- A level by its name, in any mixture of small letters and capitals, or
`off`. -/
def Threshold.read? (name : String) : Option Threshold :=
  let name := name.toUpper
  if name = "OFF" then some none
  else (Level.all.find? fun l => l.name = name).map some

def Threshold.admits (t : Threshold) (l : Level) : Bool :=
  t.any fun limit => l ≤ limit

/-- A threshold for the sources whose name begins with `name`. -/
structure Directive where
  name : Option String
  threshold : Threshold
deriving DecidableEq

namespace Directive

/-- The number of bytes of the name. -/
def length (d : Directive) : Nat :=
  (d.name.map String.utf8ByteSize).getD 0

def appliesTo (d : Directive) (source : String) : Bool :=
  d.name.all fun name => source.startsWith name

end Directive

/-- Directives by ascending length of their names, and the pattern that has to be
found in a message. -/
structure LogFilter where
  directives : List Directive := [⟨none, some .error⟩]
  pattern : Option MessagePattern := none

namespace LogFilter

/-- A part of a filter text: a directive, or a warning that there is none. -/
def readDirective (text : List Char) : Except String Directive :=
  let invalid (part : List Char) : Except String Directive :=
    .error s!"invalid logging spec '{String.ofList part}'"
  match splitOnChar '=' text with
  | [part] =>
    match Threshold.read? (String.ofList part) with
    | some threshold => .ok ⟨none, threshold⟩
    | none => .ok ⟨some (String.ofList part), some .trace⟩
  | [name, part] =>
    let level := trimBlank part
    if level.isEmpty then .ok ⟨some (String.ofList name), some .trace⟩
    else
      match Threshold.read? (String.ofList level) with
      | some threshold => .ok ⟨some (String.ofList name), threshold⟩
      | none => invalid level
  | _ => invalid text

/-- Adds a directive. It takes the place of one with the same name. -/
def addDirective (directives : List Directive) (d : Directive) : List Directive :=
  if directives.any fun other => other.name = d.name then
    directives.map fun other => if other.name = d.name then d else other
  else directives ++ [d]

/-- The filter for directives and a pattern. Without any directive, errors are
shown. -/
def ofDirectives (directives : List Directive) (pattern : Option MessagePattern) : LogFilter :=
  if directives.isEmpty then { pattern }
  else { directives := directives.mergeSort fun a b => a.length ≤ b.length, pattern }

/-- Reads the directives of a filter text, and the warnings about them. -/
def readDirectives (text : List Char) : List Directive × List String :=
  let parts := ((splitOnChar ',' text).map trimBlank).filter fun part => !part.isEmpty
  parts.foldl
    (fun (directives, warnings) part =>
      match readDirective part with
      | .ok d => (addDirective directives d, warnings)
      | .error warning => (directives, warnings ++ [warning]))
    ([], [])

/-- Reads a filter text. The warnings say what was left out. -/
def read (text : String) : LogFilter × List String :=
  match splitOnChar '/' text.toList with
  | [] => (ofDirectives [] none, [])
  | [mods] =>
    let (directives, warnings) := readDirectives mods
    (ofDirectives directives none, warnings)
  | [mods, pattern] =>
    let (directives, warnings) := readDirectives mods
    let pattern := String.ofList pattern
    match MessagePattern.ofString pattern with
    | .ok p => (ofDirectives directives (some p), warnings)
    | .error refusal =>
      (ofDirectives directives none,
        warnings ++ [s!"invalid regex filter - {refusal.message pattern}"])
  | _ => (ofDirectives [] none, [s!"invalid logging spec '{text}' (too many '/'s)"])

/-- The threshold for a source, by the last directive that applies to it. -/
def thresholdFor (f : LogFilter) (source : Source) : Threshold :=
  match f.directives.reverse.find? fun d => d.appliesTo source.name with
  | some d => d.threshold
  | none => none

/-- Whether the pattern is found in the message; a filter without a pattern
accepts every message. -/
def acceptsMessage (f : LogFilter) (message : String) : Bool :=
  f.pattern.all fun p => p.isFoundIn message

def shows (f : LogFilter) (r : Record) : Bool :=
  (f.thresholdFor r.source).admits r.level && f.acceptsMessage r.message

end LogFilter

end ByteRegex
