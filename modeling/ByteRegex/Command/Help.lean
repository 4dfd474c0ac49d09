/-!
# Help texts

What the command says about itself: a summary, the full text, and the version.
-/

namespace ByteRegex.Help

def version : String :=
  "mygrep 0.1.0\n"

/-- The lines of a text, each with its newline. -/
def ofLines (lines : List String) : String :=
  String.join (lines.map (· ++ "\n"))

def usage : String :=
  "Usage: mygrep --extended-regexp <PATTERN>"

def summary : String :=
  ofLines [
    "Match one line of standard input against a regular expression",
    "",
    usage,
    "",
    "Options:",
    "  -E, --extended-regexp <PATTERN>  Pattern to match, in the extended regular expression dialect",
    "  -h, --help                       Print help (see more with '--help')",
    "  -V, --version                    Print version"]

def full : String :=
  ofLines [
    "Match one line of standard input against a regular expression.",
    "",
    "Exits with 0 if the line matches, 1 if it does not and 2 on error.",
    "",
    usage,
    "",
    "Options:",
    "  -E, --extended-regexp <PATTERN>",
    "          Pattern to match, in the extended regular expression dialect",
    "",
    "  -h, --help",
    "          Print help (see a summary with '-h')",
    "",
    "  -V, --version",
    "          Print version"]

end ByteRegex.Help
