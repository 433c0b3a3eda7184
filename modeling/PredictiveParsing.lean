import PredictiveParsing.Main
import PredictiveParsing.Proofs.Parse.TokensKept
import PredictiveParsing.Proofs.Parse.Transparency
import PredictiveParsing.Proofs.Parse.Completeness
import PredictiveParsing.Proofs.Parse.Endless
import PredictiveParsing.Proofs.Parse.RecoveryEnds
import PredictiveParsing.Proofs.Parse.ReachedInRange
import PredictiveParsing.Proofs.Lexer.Dispatch
import PredictiveParsing.Proofs.Lexer.Tiling
import PredictiveParsing.Proofs.Grouping
import PredictiveParsing.Proofs.Parse.Origin
import PredictiveParsing.Proofs.Tree.SourceTokens
import PredictiveParsing.Proofs.Lexer.Groups
import PredictiveParsing.Proofs.Parse.TextRestored
import PredictiveParsing.Proofs.Grammar.Shadowing
import PredictiveParsing.Proofs.Grammar.Effort
import PredictiveParsing.Proofs.Grammar.Expansion
import PredictiveParsing.Proofs.Grammar.Rounds
import PredictiveParsing.Proofs.Grammar.MoreLookahead
import PredictiveParsing.Proofs.Grammar.WellStructured
import PredictiveParsing.Proofs.Grammar.Coverage
import PredictiveParsing.Proofs.Grammar.Separation
import PredictiveParsing.Proofs.Parse.RuleOrder
import PredictiveParsing.Proofs.Grammar.Leftover
import PredictiveParsing.Proofs.Grammar.Worklist
import PredictiveParsing.Proofs.Grammar.DecisionTable
import PredictiveParsing.Proofs.Grammar.FirstLoop
import PredictiveParsing.Proofs.Parse.Trials
import PredictiveParsing.Proofs.Parse.Lookups
import PredictiveParsing.Proofs.Parse.FirstFailure
import PredictiveParsing.Proofs.Grammar.RecoverySets
import PredictiveParsing.Proofs.Vocabulary.Closure
import PredictiveParsing.Proofs.PatternFacts
import PredictiveParsing.Proofs.Lexer.Unmatched
import PredictiveParsing.Proofs.Lexer.Modes
import PredictiveParsing.Proofs.Lexer.LineBreaks
import PredictiveParsing.Proofs.Lexer.Positions
import PredictiveParsing.Proofs.Tree.Locations
import PredictiveParsing.Proofs.Lexer.SkippedPairs
import PredictiveParsing.Proofs.Lexer.CountedPositions
import PredictiveParsing.Proofs.Lexer.Literals
import PredictiveParsing.Proofs.Lexer.Counters
import PredictiveParsing.Proofs.Parse.TreeSettings
import PredictiveParsing.Proofs.Lexer.Buckets
import PredictiveParsing.Proofs.Parse.Repairs
import PredictiveParsing.Proofs.Parse.Giving
import PredictiveParsing.Proofs.Builtin.Expressions
import PredictiveParsing.Proofs.Builtin.ExpressionsDerived
