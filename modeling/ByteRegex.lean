import ByteRegex.ByteSet
import ByteRegex.ByteSet.Display
import ByteRegex.ByteClass
import ByteRegex.Pattern.Basic
import ByteRegex.Pattern.Error
import ByteRegex.Pattern.Reader
import ByteRegex.Graph.Basic
import ByteRegex.Graph.Layout
import ByteRegex.Graph.Spelling
import ByteRegex.Matcher.Event
import ByteRegex.Matcher.State
import ByteRegex.Matcher.Basic
import ByteRegex.Regex
import ByteRegex.MessagePattern.Region
import ByteRegex.MessagePattern.Defect
import ByteRegex.MessagePattern.Tree
import ByteRegex.MessagePattern.Cursor
import ByteRegex.MessagePattern.Escape
import ByteRegex.MessagePattern.Bracket
import ByteRegex.MessagePattern.Reader
import ByteRegex.MessagePattern.CharSet
import ByteRegex.MessagePattern.Shape
import ByteRegex.MessagePattern.Occurrence
import ByteRegex.MessagePattern.Simplification
import ByteRegex.MessagePattern.LiteralTree
import ByteRegex.MessagePattern.Automaton
import ByteRegex.MessagePattern.Meaning
import ByteRegex.MessagePattern.Basic
import ByteRegex.Log.Level
import ByteRegex.Log.Record
import ByteRegex.Log.Filter
import ByteRegex.Log.Output
import ByteRegex.Text.Blank
import ByteRegex.Text.GraphemeExtend
import ByteRegex.Text.Printable
import ByteRegex.Text.Quoted
import ByteRegex.Text.Ranges
import ByteRegex.Text.Utf8
import ByteRegex.Text.Utf8Ranges
import ByteRegex.Text.ControlSequence
import ByteRegex.Text.Alphanumeric
import ByteRegex.LineInput
import ByteRegex.Command.Basic
import ByteRegex.Command.Help
import ByteRegex.Command.Options
import ByteRegex.Main
import ByteRegex.Proofs.Graph.Placement
import ByteRegex.Proofs.Matcher.Ways
import ByteRegex.Proofs.Matcher.Answers
import ByteRegex.Proofs.Pattern.GroupNumbers
import ByteRegex.Proofs.Matcher.Frame
import ByteRegex.Proofs.Matcher.Runs
import ByteRegex.Proofs.Graph.Faults
import ByteRegex.Proofs.Matcher.Walk
import ByteRegex.Proofs.Pattern.Reads
import ByteRegex.Proofs.Pattern.Readable
import ByteRegex.Proofs.Matcher.FirstWay
import ByteRegex.Proofs.Bytes.Membership
import ByteRegex.Proofs.Language.Basic
import ByteRegex.Proofs.Pattern.Ends
import ByteRegex.Proofs.Language.Ways
import ByteRegex.Proofs.Matcher.Attempts
import ByteRegex.Proofs.Language.Search
import ByteRegex.Proofs.Pattern.Phrases
import ByteRegex.Proofs.Pattern.Classes
import ByteRegex.Proofs.Pattern.Results
import ByteRegex.Proofs.Pattern.Grammar
import ByteRegex.Proofs.Pattern.Descent
import ByteRegex.Proofs.Text.Encoding
import ByteRegex.Proofs.Pattern.Scan
import ByteRegex.Proofs.Spelling.Tree
import ByteRegex.Proofs.Spelling.Normal
import ByteRegex.Proofs.Spelling.Reading
import ByteRegex.Proofs.Text.Decoding
import ByteRegex.Proofs.Spelling.Text
import ByteRegex.Proofs.Spelling.Display
import ByteRegex.Proofs.Tokens.Scan
import ByteRegex.Proofs.Matcher.Counter
import ByteRegex.Proofs.Matcher.SomeWay
import ByteRegex.Proofs.Safety
import ByteRegex.Proofs.Graph.Assembly
import ByteRegex.Proofs.Graph.Shape
import ByteRegex.Proofs.Graph.Closed
import ByteRegex.Proofs.Graph.Chains
import ByteRegex.Proofs.Matcher.ClosedGraphs
import ByteRegex.Proofs.Matcher.ByteRuns
import ByteRegex.Proofs.Matcher.SideBySide
import ByteRegex.Proofs.Pattern.ByteGroups
import ByteRegex.Proofs.Matcher.ByteGroups
import ByteRegex.Proofs.Matcher.Limits
import ByteRegex.Proofs.Language.Captures
import ByteRegex.Proofs.Language.Doubling
import ByteRegex.Proofs.Pattern.Caret
import ByteRegex.Proofs.Matcher.Suffix
import ByteRegex.Proofs.Matcher.SuffixSearch
import ByteRegex.Proofs.Pattern.Loops
import ByteRegex.Proofs.Matcher.Paths
import ByteRegex.Proofs.Matcher.Nesting
import ByteRegex.Proofs.Matcher.Revisits
import ByteRegex.Proofs.Matcher.Reuse
import ByteRegex.Proofs.Matcher.LeadingStar
import ByteRegex.Proofs.Text.Lines
import ByteRegex.Proofs.Matcher.BeyondText
import ByteRegex.Proofs.Matcher.Warnings
import ByteRegex.Proofs.Language.WiderText
import ByteRegex.Proofs.Bytes.Views
import ByteRegex.Proofs.Spelling.Characters
