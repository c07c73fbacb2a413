import Boli.Index.Workspace
import Boli.Main
import Boli.Syntax.Alike
import Boli.Proofs.Grammar
import Boli.Proofs.ExpressionCompleteness
import Boli.Proofs.Lookahead
import Boli.Proofs.StatementSoundness
import Boli.Proofs.StatementCompleteness
import Boli.Proofs.Lexemes
import Boli.Proofs.ProgramGrammar
import Boli.Proofs.Trees
import Boli.Proofs.Source
import Boli.Proofs.WellFormedness
import Boli.Proofs.Rereading
import Boli.Proofs.Rescanning
import Boli.Proofs.RoundTrip
import Boli.Proofs.Confinement
import Boli.Proofs.ConfinedEvaluation
import Boli.Proofs.Safety
import Boli.Proofs.Frame
import Boli.Proofs.Detachment
import Boli.Proofs.FaultLines
import Boli.Proofs.Coercion
import Boli.Proofs.Declaration
import Boli.Proofs.Upholding
import Boli.Proofs.Jumps
import Boli.Proofs.Tandem
import Boli.Proofs.ExpressionTandem
import Boli.Proofs.StatementTandem
import Boli.Proofs.ProgramTandem
import Boli.Proofs.FirstMisfit
import Boli.Proofs.Rewriting
import Boli.Proofs.Extents
import Boli.Proofs.Lines
import Boli.Proofs.Seams
import Boli.Proofs.Tiling
import Boli.Proofs.Shifting
import Boli.Proofs.TokenLines
import Boli.Proofs.Composition
import Boli.Proofs.Indexing
import Boli.Proofs.Requests
import Boli.Proofs.GlobalNames
import Boli.Proofs.SourceLines
import Boli.Proofs.PrintForms
import Boli.Proofs.LayoutIndependence
import Boli.Proofs.CallTokens
import Boli.Proofs.Engines
import Boli.Proofs.CallOrder
import Boli.Proofs.ListGrowth
import Boli.Proofs.ListIdentity
import Boli.Proofs.LineEndings
import Boli.Proofs.LexicalScopes
import Boli.Proofs.SynonymousPrograms
import Boli.Proofs.LooseEquality
import Boli.Proofs.Ordinals
import Boli.Proofs.Rounding
import Boli.Proofs.NumberTexts
import Boli.Proofs.ReadingBack
import Boli.Proofs.Operators
import Boli.Proofs.Traces
import Boli.Proofs.Truncation
import Boli.Proofs.ListCycles
import Boli.Proofs.Acyclicity
import Boli.Proofs.Quotients
import Boli.Proofs.LiteralTexts
import Boli.Proofs.Walks
import Boli.Proofs.Tracking
import Boli.Proofs.Progress
