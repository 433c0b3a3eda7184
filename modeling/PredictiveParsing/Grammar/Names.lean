import PredictiveParsing.Grammar.DefinitionError

/-!
# Resolving names

Rules share one space of names, which must not overlap with the names of token types.
-/

namespace PredictiveParsing.Names

def clashesFrom (v : Vocabulary) (seen : List String) : List Rule → List DefinitionError
  | [] => []
  | r :: rest =>
    (if seen.contains r.name then [.duplicateRule r.name] else []) ++
    (if (v.lookup? r.name).isSome then [.nameCollision r.name] else []) ++
    clashesFrom v (r.name :: seen) rest

def clashes (v : Vocabulary) (rules : List Rule) : List DefinitionError := clashesFrom v [] rules

/-- The names a rule refers to: those in its definition, then those it tries. -/
def referenced (r : Rule) : List String :=
  (r.nodes.filterMap fun p =>
    match p with
    | .nonTerminal name _ _ => some name
    | _ => none) ++ r.backtracks

def unresolved (rules : List Rule) : List DefinitionError :=
  rules.flatMap fun r => ((referenced r).filter fun name => (ruleNamed? rules name).isNone).map
    (.unresolvedReference r.name)

def resolve (rules : List Rule) : List Rule :=
  rules.map fun r =>
    { r with definition := Production.resolveAll (ruleNamed? rules) r.definition }

end PredictiveParsing.Names
