import SourceBundle.Program
import SourceBundle.GoOutliner
import SourceBundle.GoReading
import SourceBundle.GoFile
import SourceBundle.Proofs.PatternLanguage
import SourceBundle.Proofs.RuleVerdict
import SourceBundle.Proofs.IgnorePrecedence
import SourceBundle.Proofs.ComponentMatching
import SourceBundle.Proofs.LiteralPatterns
import SourceBundle.Proofs.BundleAgreement
import SourceBundle.Proofs.DocumentRenderings
import SourceBundle.Proofs.DocumentRecovery
import SourceBundle.Proofs.BundleSuccess
import SourceBundle.Proofs.RepeatedRuns
import SourceBundle.Proofs.BracketExpressions
import SourceBundle.Proofs.BuiltTrees
import SourceBundle.Proofs.DrawnTrees
import SourceBundle.Proofs.PathParents
import SourceBundle.Proofs.PathStages
import SourceBundle.Proofs.RootIgnoreFile
import SourceBundle.Proofs.MergedRules
import SourceBundle.Proofs.PatternEnds
import SourceBundle.Proofs.EscapedPaths
import SourceBundle.Proofs.NegatedRules
import SourceBundle.Proofs.ReorderedEntries
import SourceBundle.Proofs.SortedTrees
import SourceBundle.Proofs.ShownSizes
import SourceBundle.Proofs.GoDocumentation
import SourceBundle.Proofs.RegisteredOutliners
import SourceBundle.Proofs.LoadedContent
import SourceBundle.Proofs.OutlineShape
import SourceBundle.Proofs.OutlineWithoutBodies
