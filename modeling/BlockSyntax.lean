import BlockSyntax.Analysis
import BlockSyntax.FrontEnd
import BlockSyntax.CommandLine.Run
import BlockSyntax.Main
import BlockSyntax.Proofs.Conservation
import BlockSyntax.Proofs.RoundTrip
import BlockSyntax.Proofs.Identifiers
import BlockSyntax.Proofs.Gaps
import BlockSyntax.Proofs.Lexemes
import BlockSyntax.Proofs.Positions
import BlockSyntax.Proofs.Scanning
import BlockSyntax.Proofs.Coverage
import BlockSyntax.Proofs.Decimals
import BlockSyntax.Proofs.JsonGrammar
import BlockSyntax.Proofs.JsonStrings
import BlockSyntax.Proofs.JsonReading
import BlockSyntax.Proofs.TreeJson
import BlockSyntax.Proofs.Locality
import BlockSyntax.Proofs.GrammarLocality
import BlockSyntax.Proofs.History
import BlockSyntax.Proofs.Endings
import BlockSyntax.Proofs.Relocation
import BlockSyntax.Proofs.Isolation
import BlockSyntax.Proofs.Viability
import BlockSyntax.Proofs.GrammarViability
import BlockSyntax.Proofs.ViablePrefix
import BlockSyntax.Proofs.Lookahead
import BlockSyntax.Proofs.Progress
import BlockSyntax.Proofs.BeginPrefix
import BlockSyntax.Proofs.Delimited
import BlockSyntax.Proofs.DanglingArms
import BlockSyntax.Proofs.NormalPaths
import BlockSyntax.Proofs.RegistryHistory
import BlockSyntax.Proofs.FaultLocations
import BlockSyntax.Proofs.FileChanges
import BlockSyntax.Proofs.Arguments
import BlockSyntax.Proofs.Interleaving
import BlockSyntax.Proofs.CommandRuns
import BlockSyntax.Proofs.PlainJson
import BlockSyntax.Proofs.PlainTrees
import BlockSyntax.Proofs.TokenStream
import BlockSyntax.Proofs.Seams
import BlockSyntax.Proofs.Lines
import BlockSyntax.Proofs.Separators
import BlockSyntax.Proofs.JsonLayouts
import BlockSyntax.Proofs.OutlineReading
import BlockSyntax.Proofs.TreeSize
import BlockSyntax.Proofs.AfterFailure
import BlockSyntax.Proofs.ParserSteps
import BlockSyntax.Proofs.ParserRoutines
import BlockSyntax.Proofs.ParserPrograms
import BlockSyntax.Proofs.ParserHistory
import BlockSyntax.Proofs.FrontEndOutcome
