import ByteRegex.Text.Utf8

/-!
# Command line options

The only option is `-E`, or `--extended-regexp`, with a pattern as its value,
beside the flags for help and for the version. Arguments are bytes and are read
from left to right. The value may be written in the same argument or as the
next one, and the next one is taken whatever it looks like.

A value that was given as an argument of its own is examined only when the next
option comes or the arguments end. An argument that is no option at all is
refused at once, before that.

So the library does that reads the options of the command. Its rules are written
out for the command alone, and no theorem is about them.
-/

namespace ByteRegex

inductive UsageError where
  | missingPattern
  /-- The option is given without its value. -/
  | missingValue
  | unknownArgument
  | repeatedOption
  /-- A flag is given a value. -/
  | unexpectedValue
  | invalidUtf8
deriving DecidableEq, Repr

/-- What the user asks for. -/
inductive Request where
  | search (pattern : String)
  /-- The help text, in full or as a summary. -/
  | help (full : Bool)
  | version
deriving DecidableEq, Repr

/-- The option whose value is an argument of its own. -/
inductive Pending where
  | nothing
  /-- The value has to come next. -/
  | awaited
  /-- The value has come but was not examined yet. -/
  | given (value : List UInt8)
deriving DecidableEq

/-- The pattern that was accepted, and the value that is not yet. -/
structure OptionReader where
  pattern : Option String := none
  pending : Pending := .nothing
deriving DecidableEq

namespace OptionReader

/-- Accepts a value, which must be the only one and UTF-8. -/
def accept (r : OptionReader) (value : List UInt8) : Except UsageError OptionReader :=
  match r.pattern with
  | some _ => .error .repeatedOption
  | none =>
    match Utf8.decode? value with
    | some pattern => .ok { pattern := some pattern }
    | none => .error .invalidUtf8

/-- Examines the value that is pending. -/
def settle (r : OptionReader) : Except UsageError OptionReader :=
  match r.pending with
  | .nothing => .ok r
  | .awaited => .error .missingValue
  | .given value => { r with pending := .nothing }.accept value

/-- The option with its value in the same argument. -/
def attached (r : OptionReader) (value : List UInt8) : Except UsageError OptionReader :=
  match r.settle with
  | .ok settled => settled.accept value
  | .error e => .error e

/-- The option with its value to come. -/
def separate (r : OptionReader) : Except UsageError OptionReader :=
  match r.settle with
  | .ok settled => .ok { settled with pending := .awaited }
  | .error e => .error e

/-- What is asked for when the arguments end. -/
def finish (r : OptionReader) : Except UsageError Request :=
  match r.settle with
  | .error e => .error e
  | .ok { pattern := some pattern, .. } => .ok (.search pattern)
  | .ok { pattern := none, .. } => .error .missingPattern

/-- A flag, which ends the reading. -/
def flag (r : OptionReader) (request : Request) : Except UsageError Request :=
  match r.settle with
  | .ok _ => .ok request
  | .error e => .error e

end OptionReader

/-- What an argument is where no value is awaited. -/
inductive Argument where
  /-- The option, with the value if it is written in the same argument. -/
  | pattern (value : Option (List UInt8))
  | flag (request : Request)
  /-- A flag with a value. -/
  | flagWithValue
  /-- Two hyphens, after which there are no options. -/
  | endOfOptions
  | unknown
deriving DecidableEq

namespace Argument

private def bytesOf (text : String) : List UInt8 :=
  text.toUTF8.toList

/-- An argument after two hyphens: a name and, after an equals sign, a value. -/
def ofLong (bytes : List UInt8) : Argument :=
  let (name, rest) := bytes.span (· != '='.toUInt8)
  let value := rest.tail?
  let flagged (request : Request) : Argument :=
    if value.isSome then .flagWithValue else .flag request
  if name = bytesOf "extended-regexp" then .pattern value
  else if name = bytesOf "help" then flagged (.help true)
  else if name = bytesOf "version" then flagged .version
  else .unknown

/-- An argument after one hyphen: a letter and what is written behind it. An
equals sign before the value does not belong to it. -/
def ofShort (letter : UInt8) (rest : List UInt8) : Argument :=
  if letter = 'E'.toUInt8 then
    match rest with
    | [] => .pattern none
    | b :: value => .pattern (some (if b = '='.toUInt8 then value else rest))
  else if letter = 'h'.toUInt8 then .flag (.help false)
  else if letter = 'V'.toUInt8 then .flag .version
  else .unknown

def ofBytes (bytes : List UInt8) : Argument :=
  match bytes with
  | a :: b :: rest =>
    if a != '-'.toUInt8 then .unknown
    else if b != '-'.toUInt8 then ofShort b rest
    else if rest.isEmpty then .endOfOptions
    else ofLong rest
  | _ => .unknown

end Argument

/-- Reads arguments from left to right. -/
def OptionReader.run (r : OptionReader) : List (List UInt8) → Except UsageError Request
  | [] => r.finish
  | argument :: rest =>
    match r.pending with
    | .awaited => { r with pending := .given argument }.run rest
    | .nothing | .given _ =>
      match Argument.ofBytes argument with
      | .pattern (some value) =>
        match r.attached value with
        | .ok next => next.run rest
        | .error e => .error e
      | .pattern none =>
        match r.separate with
        | .ok next => next.run rest
        | .error e => .error e
      | .flag request => r.flag request
      | .flagWithValue => .error .unexpectedValue
      | .endOfOptions => if rest.isEmpty then r.finish else .error .unknownArgument
      | .unknown => .error .unknownArgument

/-- What the arguments of the command ask for. -/
def Request.ofArguments (arguments : List (List UInt8)) : Except UsageError Request :=
  ({} : OptionReader).run arguments

end ByteRegex
