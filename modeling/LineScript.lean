import LineScript.Compile
import LineScript.Config.Settings
import LineScript.Dump.Program
import LineScript.Expr.Nesting
import LineScript.Format
import LineScript.Proofs.Blocks.Balance
import LineScript.Proofs.Expr.RoundTrip
import LineScript.Proofs.Expr.Soundness
import LineScript.Proofs.Format.Meaning
import LineScript.Report
import LineScript.Proofs.Blocks.Tree
import LineScript.Proofs.Expr.Texts
import LineScript.Proofs.Program.KnownNames
import LineScript.Proofs.Statement.Texts
import LineScript.Proofs.Code.SingleLine
import LineScript.Proofs.Code.Literal
import LineScript.Proofs.Text.Names
import LineScript.Proofs.Program.ActionLine
import LineScript.Proofs.Statement.Quoted
import LineScript.Proofs.Blocks.Remarks
import LineScript.Proofs.Blocks.NamedBlock
import LineScript.Proofs.Blocks.ClosedBranches
import LineScript.Proofs.Program.Appearance
import LineScript.Proofs.Program.FirstFailure
import LineScript.Proofs.Source.EachLine
import LineScript.Proofs.Statement.Assignment
import LineScript.Proofs.Format.Nesting
import LineScript.Proofs.Expr.Resolution
import LineScript.Proofs.Code.Unambiguous
import LineScript.Proofs.Statement.Misplaced
import LineScript.Proofs.Program.Segments
import LineScript.Proofs.Statement.HeaderColon
import LineScript.Proofs.Statement.FreeText
import LineScript.Proofs.Code.Number
import LineScript.Proofs.Statement.PrintedWord
import LineScript.Proofs.Code.Operation
import LineScript.Proofs.Format.Twice
import LineScript.Proofs.Format.Comments
import LineScript.Proofs.Code.Deepening
import LineScript.Proofs.Program.Malformed
import LineScript.Proofs.Text.TokensAgain
import LineScript.Proofs.Text.UniqueReading
import LineScript.Proofs.Expr.DictForms
import LineScript.Proofs.Code.Presentation
import LineScript.Proofs.Dump.Program
import LineScript.Proofs.Program.Reports
import LineScript.Proofs.Expr.Termination
import LineScript.Proofs.Expr.NumericWords
import LineScript.Proofs.Code.Delimiters
