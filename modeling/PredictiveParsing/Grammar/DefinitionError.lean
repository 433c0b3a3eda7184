import PredictiveParsing.Grammar.Production

/-!
# What can be wrong with a grammar
-/

namespace PredictiveParsing

def maxOccurrence : Nat := 255

def maxAlternatives : Nat := 255

/-- Each error names the rule it was found in. -/
inductive DefinitionError where
  | unresolvedReference (rule name : String)
  | duplicateRule (rule : String)
  | nameCollision (rule : String)
  /-- The names on the path from the rule back to itself. -/
  | leftRecursion (rule : String) (path : List String)
  | emptyRepetition (rule : String) (kind : ProductionKind) (occurrence : Nat)
  | emptyAlternative (rule : String) (occurrence branch : Nat)
  | ambiguousAlternatives (rule : String) (occurrence : Nat) (branches : List Nat)
      (path : List String)
  | ambiguousShorter (rule : String) (occurrence earlier later : Nat) (path : List String)
  | tooManyAlternatives (rule : String) (occurrence count : Nat)
  | duplicateOccurrence (rule : String) (kind : ProductionKind) (occurrence : Nat)
      (argument : Option String)
  | invalidOccurrence (rule : String) (kind : ProductionKind) (occurrence : Nat)
deriving DecidableEq, Repr

namespace DefinitionError

def rule : DefinitionError → String
  | .unresolvedReference rule _ => rule
  | .duplicateRule rule => rule
  | .nameCollision rule => rule
  | .leftRecursion rule _ => rule
  | .emptyRepetition rule _ _ => rule
  | .emptyAlternative rule _ _ => rule
  | .ambiguousAlternatives rule _ _ _ => rule
  | .ambiguousShorter rule _ _ _ _ => rule
  | .tooManyAlternatives rule _ _ => rule
  | .duplicateOccurrence rule _ _ _ => rule
  | .invalidOccurrence rule _ _ => rule

/-- Whether the grammar cannot be used at all. Ambiguities and empty branches only make some
branches unreachable. -/
def isFatal : DefinitionError → Bool
  | .emptyAlternative _ _ _ => false
  | .ambiguousAlternatives _ _ _ _ => false
  | .ambiguousShorter _ _ _ _ _ => false
  | _ => true

def kindName : DefinitionError → String
  | .unresolvedReference _ _ => "UnresolvedReference"
  | .duplicateRule _ => "DuplicateRule"
  | .nameCollision _ => "NameCollision"
  | .leftRecursion _ _ => "LeftRecursion"
  | .emptyRepetition _ _ _ => "EmptyRepetition"
  | .emptyAlternative _ _ _ => "EmptyAlternative"
  | .ambiguousAlternatives _ _ _ _ => "AmbiguousAlternatives"
  | .ambiguousShorter _ _ _ _ _ => "AmbiguousPrefix"
  | .tooManyAlternatives _ _ _ => "TooManyAlternatives"
  | .duplicateOccurrence _ _ _ _ => "DuplicateOccurrence"
  | .invalidOccurrence _ _ _ => "InvalidOccurrence"

def joinNumbers (ns : List Nat) : String := " ,".intercalate (ns.map toString)

def message : DefinitionError → String
  | .unresolvedReference rule name =>
    "Invalid grammar, reference to a rule which is not defined: ->" ++ name ++
      "<- inside top level rule: ->" ++ rule ++ "<-"
  | .duplicateRule rule => "Duplicate definition, rule name: '" ++ rule ++ "'"
  | .nameCollision rule => "Rule name '" ++ rule ++ "' is already used by a token type"
  | .leftRecursion rule path =>
    "Left Recursion found in grammar.\nrule: <" ++ rule ++
      "> can be invoked from itself (directly or indirectly)\nwithout consuming any Tokens. " ++
      "The grammar path that causes this is: \n " ++ " --> ".intercalate path ++
      "\n To fix this refactor your grammar to remove the left recursion."
  | .emptyRepetition rule kind occurrence =>
    "The repetition <" ++ kind.methodName ++ toString occurrence ++ "> within Rule <" ++ rule ++
      "> can never consume any tokens.\nThis could lead to an infinite loop."
  | .emptyAlternative rule occurrence branch =>
    "Ambiguous empty alternative: <" ++ toString branch ++ "> in <OR" ++ toString occurrence ++
      "> inside <" ++ rule ++
      "> Rule.\nOnly the last alternative may be an empty alternative."
  | .ambiguousAlternatives rule occurrence branches path =>
    "Ambiguous alternatives: <" ++ joinNumbers branches ++
      "> due to common lookahead prefix\nin <OR" ++ toString occurrence ++ "> inside <" ++ rule ++
      "> Rule,\n<" ++ ", ".intercalate path ++
      "> may appears as a prefix path in all these alternatives."
  | .ambiguousShorter rule occurrence earlier later path =>
    "Ambiguous alternatives: <" ++ joinNumbers [earlier, later] ++ "> in <OR" ++
      toString occurrence ++ "> inside <" ++ rule ++ "> Rule,\n<" ++ ", ".intercalate path ++
      "> may appears as a prefix path in all these alternatives.\n" ++
      "The earlier alternative is always chosen for this input."
  | .tooManyAlternatives rule occurrence count =>
    "An Alternation cannot have more than " ++ toString maxAlternatives ++
      " alternatives:\n<OR" ++ toString occurrence ++ "> inside <" ++ rule ++ "> Rule.\n has " ++
      toString count ++ " alternatives."
  | .duplicateOccurrence rule kind occurrence argument =>
    "->" ++ kind.methodName ++ toString occurrence ++ "<-" ++
      (match argument with
        | some a => " with argument: ->" ++ a ++ "<-"
        | none => "") ++
      "\n appears more than once (2) in the top level rule: ->" ++ rule ++
      "<-.\n Each use of a DSL method within a rule needs a distinct occurrence index."
  | .invalidOccurrence rule kind occurrence =>
    "Invalid occurrence index " ++ toString occurrence ++ " of " ++ kind.methodName ++
      " in rule '" ++ rule ++ "', must be at most " ++ toString maxOccurrence

end DefinitionError

end PredictiveParsing
