import Containerfile.Document.Reading
import Containerfile.Document.Tree
import Containerfile.Expansion.Template
import Containerfile.Proofs.Document.Blocks
import Containerfile.Proofs.Document.Printed
import Containerfile.Proofs.Document.Progress
import Containerfile.Proofs.Document.Replay
import Containerfile.Proofs.Document.RoundTrip
import Containerfile.Proofs.Document.Run
import Containerfile.Proofs.Document.Tolerance
import Containerfile.Proofs.Expansion.Reference
import Containerfile.Proofs.Expansion.Semantics
import Containerfile.Proofs.Grammar.Basic
import Containerfile.Proofs.Grammar.Keyword
import Containerfile.Proofs.Grammar.OneLine
import Containerfile.Proofs.Grammar.Substitution
import Containerfile.Proofs.Grammar.Unnumbered
import Containerfile.Proofs.Grammar.Yields
import Containerfile.Proofs.ImageName
import Containerfile.Proofs.Instruction.Lines
import Containerfile.Proofs.Instruction.OneLine
import Containerfile.Proofs.Line.Extent
import Containerfile.Proofs.Line.Preamble
import Containerfile.Proofs.Line.Sound
import Containerfile.Proofs.Line.Unnumbered
import Containerfile.Proofs.Line.Weight
import Containerfile.Proofs.Statement
import Containerfile.Proofs.Text.Lines
import Containerfile.Proofs.Text.OneLine
import Containerfile.Proofs.Text.Trim
import Containerfile.Proofs.Word.OneLine
import Containerfile.Proofs.Word.Split
import Containerfile.Proofs.Word.Unquote
import Containerfile.Proofs.Grammar.Blame
import Containerfile.Proofs.Line.Accounting
import Containerfile.Proofs.Grammar.Stages
import Containerfile.Proofs.Document.Passage
import Containerfile.Proofs.Scope
import Containerfile.Proofs.Aliases
import Containerfile.Proofs.Assembly
import Containerfile.Proofs.Document.WellFormed
import Containerfile.Proofs.Document.References
import Containerfile.Proofs.Lint
import Containerfile.Proofs.Document.Correspondence
import Containerfile.Proofs.Scope.History
import Containerfile.Proofs.Document.Bindings
import Containerfile.Proofs.Document.Bases
import Containerfile.Proofs.Document.Heredocs
import Containerfile.Proofs.Line.Bodies
import Containerfile.Proofs.Document.Encodings
import Containerfile.Proofs.Line.Insertion
import Containerfile.Proofs.Line.Directives
import Containerfile.Proofs.Document.Findings
import Containerfile.Proofs.Document.InPlace
import Containerfile.Proofs.Document.Tables
import Containerfile.Proofs.Document.InStep
import Containerfile.Proofs.Expansion.Braces
import Containerfile.Proofs.Expansion.Indexed
import Containerfile.Proofs.Expansion.Literal
import Containerfile.Proofs.Grammar.Contexts
import Containerfile.Proofs.Grammar.Shape
import Containerfile.Proofs.Word.Printed
import Containerfile.Proofs.Instruction.ExecForm
import Containerfile.Proofs.Grammar.Sources
import Containerfile.Proofs.Line.Joining
import Containerfile.Proofs.Grammar.RestOfLine
import Containerfile.Proofs.Grammar.PrintedPairs
import Containerfile.Proofs.Grammar.PrintedRest
import Containerfile.Proofs.Grammar.PrintedNames
import Containerfile.Proofs.Grammar.Reprinted
import Containerfile.Proofs.Grammar.Triggers
import Containerfile.Proofs.Document.Openings
import Containerfile.Line.Reader
import Containerfile.Proofs.Line.Reader
import Containerfile.Proofs.Document.Recapture
import Containerfile.Proofs.Duration
import Containerfile.Proofs.Grammar.FlagValues
import Containerfile.Proofs.Document.Names
import Containerfile.Proofs.Statement.NormalForm
import Containerfile.Proofs.Grammar.Ports
import Containerfile.Proofs.Expansion.Renaming
import Containerfile.Proofs.Word.Segments
import Containerfile.Proofs.Word.Quoting
