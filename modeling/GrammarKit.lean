import GrammarKit.Main
import GrammarKit.Proofs.GenericRoundTrip
import GrammarKit.Proofs.UnparseRoundTrip
import GrammarKit.Proofs.Termination
import GrammarKit.Proofs.CutErasure
import GrammarKit.Proofs.Finality
import GrammarKit.Proofs.CompilationCorrect
import GrammarKit.Proofs.GenericRebuild
import GrammarKit.Proofs.StackHygiene
import GrammarKit.Proofs.Compilable
import GrammarKit.Proofs.RuleSlots
import GrammarKit.Proofs.Coverage
import GrammarKit.Proofs.MetagrammarTerminals
import GrammarKit.Proofs.Records
import GrammarKit.Proofs.BranchShapes
import GrammarKit.Proofs.FailureOffsets
import GrammarKit.Proofs.LeafOrder
import GrammarKit.Proofs.Placement
import GrammarKit.Proofs.PlacementInvariance
import GrammarKit.Proofs.Reconstruction
import GrammarKit.Proofs.CompilerErrors
import GrammarKit.Proofs.MetagrammarParsers
import GrammarKit.Proofs.MetagrammarReading
import GrammarKit.Proofs.LiteralCounts
import GrammarKit.Proofs.BoundSiblings
import GrammarKit.Proofs.StackElimination
import GrammarKit.Proofs.UnfoldedParses
import GrammarKit.Proofs.CutInsertion
import GrammarKit.Proofs.CutTransparency
import GrammarKit.Proofs.CutCircles
import GrammarKit.Proofs.CutCompilation
import GrammarKit.Proofs.WrittenLeaves
import GrammarKit.Proofs.InputOption
import GrammarKit.Proofs.LiteralEscapes
import GrammarKit.Proofs.TokenSpellings
import GrammarKit.Proofs.ReportCoverage
import GrammarKit.Proofs.EndingWalks
import GrammarKit.Proofs.ContentEquality
