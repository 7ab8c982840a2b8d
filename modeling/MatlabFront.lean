import MatlabFront.Main
import MatlabFront.Files.Tree
import MatlabFront.Tree.OfJson
import MatlabFront.Proofs.Expression.Grammar
import MatlabFront.Proofs.Expression.Sound
import MatlabFront.Proofs.Expression.Steps
import MatlabFront.Proofs.Expression.Complete
import MatlabFront.Proofs.Expression.Spelling
import MatlabFront.Proofs.Parser.Advance
import MatlabFront.Proofs.Expression.Consumed
import MatlabFront.Proofs.Expression.Grouping
import MatlabFront.Proofs.Expression.WellGrouped
import MatlabFront.Proofs.Program.Grammar
import MatlabFront.Proofs.Expression.Scope
import MatlabFront.Proofs.Program.Command
import MatlabFront.Proofs.Program.Scope
import MatlabFront.Proofs.Program.Steps
import MatlabFront.Proofs.Program.Sound
import MatlabFront.Proofs.Program.Precedence
import MatlabFront.Proofs.Expression.Context
import MatlabFront.Proofs.Program.Complete
import MatlabFront.Proofs.Expression.Readable
import MatlabFront.Proofs.Program.Assigned
import MatlabFront.Proofs.Program.Laid
import MatlabFront.Proofs.Program.Dialects
import MatlabFront.Proofs.Program.Returns
import MatlabFront.Proofs.Token.Lossless
import MatlabFront.Proofs.Expression.Leaves
import MatlabFront.Proofs.Program.Leaves
import MatlabFront.Proofs.Program.Borne
import MatlabFront.Proofs.Program.ArgumentCount
import MatlabFront.Proofs.Tree.RoundTrip
import MatlabFront.Proofs.Expression.Located
import MatlabFront.Proofs.Program.Located
import MatlabFront.Proofs.Tree.Relocate
import MatlabFront.Proofs.Parser.Relocate
import MatlabFront.Proofs.Parser.Copy
import MatlabFront.Proofs.Expression.Balance
import MatlabFront.Proofs.Expression.Copied
import MatlabFront.Proofs.Program.Copied
import MatlabFront.Proofs.Program.Spacing
import MatlabFront.Proofs.Program.Extended
import MatlabFront.Proofs.Program.Joined
import MatlabFront.Proofs.Parser.Steady
import MatlabFront.Proofs.Expression.Steady
import MatlabFront.Proofs.Program.Steady
import MatlabFront.Proofs.Expression.Finished
import MatlabFront.Proofs.Program.Finished
import MatlabFront.Proofs.Program.Rounds
import MatlabFront.Proofs.Program.Progress
import MatlabFront.Proofs.Program.Refused
import MatlabFront.Proofs.Token.Lines
import MatlabFront.Proofs.Tree.Chosen
import MatlabFront.Proofs.CommandLine.Priority
import MatlabFront.Proofs.Expression.Delimited
import MatlabFront.Proofs.Expression.Element
import MatlabFront.Proofs.Expression.Respaced
import MatlabFront.Proofs.Program.Separated
import MatlabFront.Proofs.Program.Lookahead
import MatlabFront.Proofs.Token.Quoted
import MatlabFront.Proofs.Token.Spelled
import MatlabFront.Proofs.Program.Quoted
import MatlabFront.Proofs.Program.CommandText
import MatlabFront.Proofs.Program.Recovery
import MatlabFront.Proofs.Tree.Targets
import MatlabFront.Proofs.Program.Demands
import MatlabFront.Proofs.Expression.Formed
import MatlabFront.Proofs.Program.Formed
import MatlabFront.Proofs.Expression.Nested
import MatlabFront.Proofs.Program.Nested
import MatlabFront.Proofs.Expression.Colons
import MatlabFront.Proofs.Program.Colons
import MatlabFront.Proofs.Token.Cut
import MatlabFront.Proofs.Token.Opening
import MatlabFront.Proofs.Token.Respelled
import MatlabFront.Proofs.Token.Continued
import MatlabFront.Proofs.Expression.Closing
import MatlabFront.Proofs.Tree.Names
import MatlabFront.Proofs.Expression.Ignored
import MatlabFront.Proofs.Program.Ignored
import MatlabFront.Proofs.Settings.Override
import MatlabFront.Proofs.Settings.Format
import MatlabFront.Proofs.Settings.FirstFound
import MatlabFront.Proofs.Files.Written
import MatlabFront.Proofs.Settings.ReadBack
import MatlabFront.Proofs.Settings.Saved
import MatlabFront.Proofs.Checked.Cursor
import MatlabFront.Proofs.Checked.Expression
import MatlabFront.Proofs.Checked.Program
import MatlabFront.Proofs.Checked.Wording
import MatlabFront.Proofs.Checked.Stands
import MatlabFront.Proofs.Checked.Tracks
import MatlabFront.Proofs.Checked.TracksExpression
import MatlabFront.Proofs.Checked.TracksCommand
import MatlabFront.Proofs.Checked.TracksProgram
import MatlabFront.Proofs.Checked.Unbreached
import MatlabFront.Proofs.Token.LineNumbers
