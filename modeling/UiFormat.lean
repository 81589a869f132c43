import UiFormat.Text.Units16
import UiFormat.Layout.Reindent
import UiFormat.Ets.Token
import UiFormat.Ets.Node
import UiFormat.Ets.ComponentParser
import UiFormat.Markup.Lexer
import UiFormat.Markup.Parser
import UiFormat.Markup.Printer
import UiFormat.Markup.Tree
import UiFormat.Ets.ImportClause
import UiFormat.Ets.Problem
import UiFormat.Ets.Parser
import UiFormat.Ets.Printer
import UiFormat.Safety.SemicolonStyle
import UiFormat.Safety.ComplexSyntax
import UiFormat.Safety.Structure
import UiFormat.Safety.BasicRules
import UiFormat.LogLevel
import UiFormat.Format
import UiFormat.Cli.Workspace
import UiFormat.Main
import UiFormat.Proofs.Safety.BasicRules
import UiFormat.Proofs.Markup.Idempotence
import UiFormat.Proofs.Ets.Decorators
import UiFormat.Proofs.Ets.Advance
import UiFormat.Proofs.Ets.Tiling
import UiFormat.Proofs.Ets.NodeTokens
import UiFormat.Proofs.Ets.SilentReading
import UiFormat.Proofs.Ets.Accounting
import UiFormat.Proofs.Markup.DocumentGrammar
import UiFormat.Proofs.Markup.TreeYield
import UiFormat.Proofs.Layout.LineBlanks
import UiFormat.Proofs.Layout.Settled
import UiFormat.Proofs.Safety.FixedPoint
import UiFormat.Proofs.Safety.ComplexSyntax
import UiFormat.Proofs.Ets.Idempotence
import UiFormat.Markup.Session
import UiFormat.Proofs.Markup.TokenIndex
import UiFormat.Proofs.Parse.Termination
import UiFormat.Proofs.Ets.BodyReading
import UiFormat.Proofs.Ets.ComponentText
import UiFormat.Proofs.Ets.Progress
import UiFormat.Proofs.Ets.Totality
import UiFormat.Proofs.Safety.Structure
import UiFormat.Proofs.Ets.LineAgreement
import UiFormat.Proofs.Markup.Totality
import UiFormat.Proofs.Ets.BracketMatching
import UiFormat.Proofs.Ets.BracketExtent
import UiFormat.Proofs.Ets.ParameterExtent
import UiFormat.Proofs.Ets.DocLines
import UiFormat.Proofs.Safety.Literals
import UiFormat.Proofs.Ets.BodyExtent
import UiFormat.Proofs.Markup.ExprComposing
import UiFormat.Proofs.Layout.BracketLevels
import UiFormat.Proofs.Layout.SwitchBlocks
import UiFormat.Proofs.Markup.Tiling
import UiFormat.Proofs.Ets.SignatureWidth
import UiFormat.Proofs.Ets.ImportForms
import UiFormat.Proofs.Ets.Wording
import UiFormat.Proofs.Ets.ImportReading
import UiFormat.Proofs.Ets.ImportTokens
import UiFormat.Proofs.Ets.ImportPrinting
import UiFormat.Proofs.Ets.TokenCuts
import UiFormat.Proofs.Ets.ImportRoundTrip
import UiFormat.Proofs.Text.Pieces
import UiFormat.Proofs.Ets.Places
import UiFormat.Proofs.Layout.Indentation
import UiFormat.Proofs.Ets.Routing
import UiFormat.Proofs.Markup.DepthLimits
import UiFormat.Proofs.Layout.FrameStack
import UiFormat.Proofs.Layout.Gaps
import UiFormat.Proofs.Layout.BaseLevel
import UiFormat.Proofs.Markup.LayoutOptions
