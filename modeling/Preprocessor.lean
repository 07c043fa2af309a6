import Preprocessor.Calendar
import Preprocessor.Command.Arguments
import Preprocessor.Command.Basic
import Preprocessor.Command.Failure
import Preprocessor.Command.Run
import Preprocessor.Commit
import Preprocessor.Config
import Preprocessor.Decimal.Double
import Preprocessor.Decimal.Read
import Preprocessor.Decimal.Shortest
import Preprocessor.Diagnostic
import Preprocessor.Directive.Basic
import Preprocessor.Directive.Inline
import Preprocessor.Engine.Conditions
import Preprocessor.Engine.Step
import Preprocessor.Environment
import Preprocessor.Eval.Error
import Preprocessor.Expr.Basic
import Preprocessor.Expr.Eval
import Preprocessor.Expr.Parse
import Preprocessor.FileTree.Basic
import Preprocessor.FileTree.Difference
import Preprocessor.FileTree.Error
import Preprocessor.FileTree.Walk
import Preprocessor.FileTree.Write
import Preprocessor.Host
import Preprocessor.Json
import Preprocessor.Log
import Preprocessor.LogFile
import Preprocessor.Main
import Preprocessor.Path
import Preprocessor.Proofs.BlockMoves
import Preprocessor.Proofs.BlockProgram
import Preprocessor.Proofs.BlockRefinement
import Preprocessor.Proofs.BranchSelection
import Preprocessor.Proofs.CallOrder
import Preprocessor.Proofs.CallTrace
import Preprocessor.Proofs.ClearedDestination
import Preprocessor.Proofs.CommentSegments
import Preprocessor.Proofs.CommentStripping
import Preprocessor.Proofs.CommitPlaces
import Preprocessor.Proofs.Computation
import Preprocessor.Proofs.CursorCalls
import Preprocessor.Proofs.CursorChains
import Preprocessor.Proofs.CursorReading
import Preprocessor.Proofs.CursorSafety
import Preprocessor.Proofs.DefinedNames
import Preprocessor.Proofs.DirectiveForms
import Preprocessor.Proofs.DryRun
import Preprocessor.Proofs.EmittedText
import Preprocessor.Proofs.EncodingRoundTrip
import Preprocessor.Proofs.ErrorPolicies
import Preprocessor.Proofs.Exclusion
import Preprocessor.Proofs.ExprCompleteness
import Preprocessor.Proofs.ExprDepth
import Preprocessor.Proofs.ExprGrammar
import Preprocessor.Proofs.ExprSoundness
import Preprocessor.Proofs.FailingLines
import Preprocessor.Proofs.FaultPositions
import Preprocessor.Proofs.FileAccounting
import Preprocessor.Proofs.FileChanges
import Preprocessor.Proofs.FileIndependence
import Preprocessor.Proofs.FileRewriting
import Preprocessor.Proofs.FollowedLines
import Preprocessor.Proofs.GlobalDefinitions
import Preprocessor.Proofs.Inclusion
import Preprocessor.Proofs.Inlining
import Preprocessor.Proofs.IntegerExactness
import Preprocessor.Proofs.IntegerLiterals
import Preprocessor.Proofs.JoinedOutputs
import Preprocessor.Proofs.JoinedPlaces
import Preprocessor.Proofs.LayeredVariables
import Preprocessor.Proofs.LineJoining
import Preprocessor.Proofs.LineKinds
import Preprocessor.Proofs.LineMirroring
import Preprocessor.Proofs.LineOutcomes
import Preprocessor.Proofs.LineSplitting
import Preprocessor.Proofs.LineSteps
import Preprocessor.Proofs.LineUniqueness
import Preprocessor.Proofs.LiteralAgreement
import Preprocessor.Proofs.LongestHeads
import Preprocessor.Proofs.LookedUpPaths
import Preprocessor.Proofs.MarkerLayout
import Preprocessor.Proofs.MentionedNames
import Preprocessor.Proofs.MissingPlaces
import Preprocessor.Proofs.NameReading
import Preprocessor.Proofs.Nesting
import Preprocessor.Proofs.OpenBlocks
import Preprocessor.Proofs.OpenFiles
import Preprocessor.Proofs.OperationErrors
import Preprocessor.Proofs.OutputLines
import Preprocessor.Proofs.PassingOver
import Preprocessor.Proofs.PathJoining
import Preprocessor.Proofs.PathPlaces
import Preprocessor.Proofs.PathSteps
import Preprocessor.Proofs.Provenance
import Preprocessor.Proofs.QuickLook
import Preprocessor.Proofs.ResultTypes
import Preprocessor.Proofs.RunComparison
import Preprocessor.Proofs.RunMirroring
import Preprocessor.Proofs.SessionTrace
import Preprocessor.Proofs.SetAlgebra
import Preprocessor.Proofs.SharedDirectories
import Preprocessor.Proofs.SiteReading
import Preprocessor.Proofs.SourceCollection
import Preprocessor.Proofs.Suppression
import Preprocessor.Proofs.TextCutting
import Preprocessor.Proofs.TokenEnds
import Preprocessor.Proofs.TokenRendering
import Preprocessor.Proofs.TokenTiling
import Preprocessor.Proofs.TreeWalks
import Preprocessor.Proofs.UnknownNames
import Preprocessor.Proofs.UnmarkedFiles
import Preprocessor.Proofs.UnreadLog
import Preprocessor.Proofs.Utf8Offsets
import Preprocessor.Proofs.ValueComparison
import Preprocessor.Proofs.WellformedTrees
import Preprocessor.Proofs.WrittenFiles
import Preprocessor.Session
import Preprocessor.Source.Globals
import Preprocessor.Source.Process
import Preprocessor.Source.Selection
import Preprocessor.Source.Trail
import Preprocessor.Summary
import Preprocessor.Text.Basic
import Preprocessor.Text.Blank
import Preprocessor.Text.Case
import Preprocessor.Text.Comments
import Preprocessor.Text.Encoding
import Preprocessor.Text.Heads
import Preprocessor.Text.Letter
import Preprocessor.Text.Lines
import Preprocessor.Text.Ranges
import Preprocessor.Token.Basic
import Preprocessor.Token.Scan
import Preprocessor.Toml.Basic
import Preprocessor.Toml.Date
import Preprocessor.Toml.Document
import Preprocessor.Toml.Lexeme
import Preprocessor.Toml.Number
import Preprocessor.Toml.Reader
import Preprocessor.Value.Basic
import Preprocessor.Value.Functions
import Preprocessor.Value.Literal
import Preprocessor.Value.OfToml
import Preprocessor.Value.Operators
import Preprocessor.Value.TextSet
