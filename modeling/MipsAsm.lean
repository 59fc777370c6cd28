import MipsAsm.Text.Basic
import MipsAsm.Text.Blank
import MipsAsm.Text.Digit
import MipsAsm.Text.Alphanumeric
import MipsAsm.Text.Printable
import MipsAsm.Text.Case
import MipsAsm.Text.Quoted
import MipsAsm.Text.Utf8
import MipsAsm.Scan.Bisect
import MipsAsm.Scan.Context
import MipsAsm.Scan.Word
import MipsAsm.Scan.Keyword
import MipsAsm.Scan.Line
import MipsAsm.Scan.Identifier
import MipsAsm.Number.Binary
import MipsAsm.Number.Shortest
import MipsAsm.Isa.Register
import MipsAsm.Isa.Directive
import MipsAsm.Isa.Shape
import MipsAsm.Isa.Instruction
import MipsAsm.Source.Encoding
import MipsAsm.Number.Literal
import MipsAsm.Operand.Basic
import MipsAsm.Diagnostic
import MipsAsm.Number.Word
import MipsAsm.Number.Immediate
import MipsAsm.Operand.Escape
import MipsAsm.Operand.Lexer
import MipsAsm.Operand.Match
import MipsAsm.Token.Basic
import MipsAsm.Token.Data
import MipsAsm.Journal.Event
import MipsAsm.Journal.Run
import MipsAsm.Token.Lexer
import MipsAsm.Source.Path
import MipsAsm.Source.Files
import MipsAsm.Macro.Basic
import MipsAsm.Macro.Argument
import MipsAsm.Preprocess.Symbol
import MipsAsm.Preprocess.Block
import MipsAsm.Preprocess.Settings
import MipsAsm.Preprocess.Expansion
import MipsAsm.Preprocess.Session
import MipsAsm.Assembly
import MipsAsm.CommandLine.Option
import MipsAsm.CommandLine.Usage
import MipsAsm.CommandLine.Reply
import MipsAsm.Main
import MipsAsm.Proofs.Result
import MipsAsm.Proofs.Operand.Unambiguous
import MipsAsm.Proofs.Scan.Keyword
import MipsAsm.Proofs.Scan.Rewriting
import MipsAsm.Proofs.Text.Lines
import MipsAsm.Proofs.Journal.Run
import MipsAsm.Proofs.Preprocess.Symbols
import MipsAsm.Proofs.Scan.Line
import MipsAsm.Proofs.Token.Failing
import MipsAsm.Proofs.Token.Locality
import MipsAsm.Proofs.Token.OnLine
import MipsAsm.Proofs.Preprocess.Expansion
import MipsAsm.Proofs.Preprocess.Block
import MipsAsm.Proofs.Preprocess.Success
import MipsAsm.Proofs.Preprocess.Splice
import MipsAsm.Proofs.Preprocess.Request
import MipsAsm.Proofs.Preprocess.Limit
import MipsAsm.Proofs.Preprocess.Nesting
import MipsAsm.Proofs.Preprocess.Placement
import MipsAsm.Proofs.Token.Origin
import MipsAsm.Proofs.Assembly
import MipsAsm.Proofs.Operand.Rules
import MipsAsm.Proofs.Operand.Literals
import MipsAsm.Proofs.Number.Word
import MipsAsm.Proofs.Operand.Parameters
import MipsAsm.Proofs.Token.Labels
import MipsAsm.Proofs.Token.WellFormed
import MipsAsm.Proofs.Preprocess.Calls
import MipsAsm.Proofs.Scan.Search
import MipsAsm.Proofs.Preprocess.Settled
import MipsAsm.Proofs.Preprocess.DirectiveFree
import MipsAsm.Proofs.Token.Outcome
import MipsAsm.Proofs.Token.Leftover
import MipsAsm.Proofs.Preprocess.Untouched
import MipsAsm.Proofs.Token.Strings
import MipsAsm.Proofs.Preprocess.Definitions
import MipsAsm.Proofs.Preprocess.Readings
import MipsAsm.Proofs.Macro.Instantiation
import MipsAsm.Proofs.Token.Integers
import MipsAsm.Proofs.Number.Decimal
import MipsAsm.Proofs.Operand.Written
import MipsAsm.Proofs.Preprocess.Values
import MipsAsm.Proofs.Macro.Argument
import MipsAsm.Proofs.Preprocess.CallForm
import MipsAsm.Proofs.Preprocess.Located
import MipsAsm.Proofs.Token.Comments
import MipsAsm.Proofs.Operand.Spacing
import MipsAsm.Proofs.Token.Names
import MipsAsm.Proofs.Number.TwosComplement
import MipsAsm.Proofs.Number.Immediate
import MipsAsm.Proofs.Token.Progress
import MipsAsm.Proofs.Scan.Partition
import MipsAsm.Proofs.Scan.Cut
import MipsAsm.Proofs.Scan.Leftmost
import MipsAsm.Proofs.Preprocess.Directive
