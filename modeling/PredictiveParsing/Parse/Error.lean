import PredictiveParsing.Grammar.Decision
import PredictiveParsing.Vocabulary.Token

/-!
# Errors of a parse
-/

namespace PredictiveParsing

inductive RecognitionCause where
  | mismatchedToken (expected : TypeId)
  /-- The paths of the alternatives, none of which matches. -/
  | noViableAlternative (paths : List (List Path))
  | earlyExit (kind : ProductionKind) (occurrence : Nat) (paths : List (List Path))
  | notAllInputParsed
  /-- Neither a further iteration nor what follows the repetition. -/
  | brokenRepetition (kind : ProductionKind) (occurrence : Nat) (exits : TokenSet)
deriving DecidableEq

structure RecognitionError where
  cause : RecognitionCause
  /-- The token at which the parse failed. -/
  token : Token
  previous : Option Token
  /-- Tokens skipped to recover from this error. -/
  resynced : List Token
  /-- Names of the rules entered, the start rule first. -/
  ruleStack : List String
deriving DecidableEq

namespace RecognitionError

def kindName (e : RecognitionError) : String :=
  match e.cause with
  | .mismatchedToken _ => "MismatchedToken"
  | .noViableAlternative _ => "NoViableAlternative"
  | .earlyExit _ _ _ => "EarlyExit"
  | .notAllInputParsed => "NotAllInputParsed"
  | .brokenRepetition _ _ _ => "MismatchedToken"

def message (e : RecognitionError) (v : Vocabulary) : String :=
  let found := e.token.describe
  match e.cause with
  | .mismatchedToken expected =>
    "Expecting token of type " ++ v.name expected ++ " but found " ++ found
  | .noViableAlternative paths =>
    "Expecting one of these possible token sequences:\n" ++ Decision.displayPaths v paths ++
      "but found: " ++ found
  | .earlyExit kind occurrence paths =>
    "Expecting at least one iteration of " ++ kind.methodName ++ toString occurrence ++
      " which starts with one of these possible token sequences:\n" ++
      Decision.displayPaths v paths ++ "but found: " ++ found
  | .notAllInputParsed => "Redundant input, expecting EOF but found: " ++ found
  | .brokenRepetition kind occurrence exits =>
    "Expecting another iteration of " ++ kind.methodName ++ toString occurrence ++
      " or one of [" ++ ", ".intercalate (exits.names v) ++ "] but found " ++ found

end RecognitionError

end PredictiveParsing
