import PredictiveParsing.Grammar.Recording
import PredictiveParsing.Grammar.Names
import PredictiveParsing.Grammar.Structure
import PredictiveParsing.Grammar.Ambiguity
import PredictiveParsing.Grammar.Config

/-!
# Compiling grammars

A grammar is a list of rule bodies over a vocabulary. Compiling records, resolves, checks and
analyses them; each stage is reached only if the one before found no error.
-/

namespace PredictiveParsing

/-- A grammar that can be parsed with. Any rule can start a parse. -/
structure Grammar (α : Type) where
  vocabulary : Vocabulary
  config : ParserConfig
  rules : List Rule
  bodies : List (List (Op α))
  analysis : Analysis
  /-- Ambiguities that were let pass. -/
  warnings : List DefinitionError

inductive CompileError where
  | invalid (errors : List DefinitionError)
  /-- The lookahead did not come to an end, which happens to no grammar of sound structure. -/
  | endlessLookahead

namespace Grammar

variable {α : Type}

def recordingErrors (v : Vocabulary) (bodies : List (RuleBody α)) : List DefinitionError :=
  let recorded := bodies.map RuleBody.record
  bodies.flatMap RuleBody.occurrenceErrors ++ Names.clashes v recorded ++ Names.unresolved recorded

def compile (v : Vocabulary) (bodies : List (RuleBody α)) (config : ParserConfig) :
    Except CompileError (Grammar α) :=
  match recordingErrors v bodies with
  | e :: es => .error (.invalid (e :: es))
  | [] =>
    let rules := Names.resolve (bodies.map RuleBody.record)
    let fs := FirstSets.ofRules rules
    match Structure.errors v rules fs with
    | e :: es => .error (.invalid (e :: es))
    | [] =>
      match Analysis.ofRules? v rules fs config.maxLookahead with
      | none => .error .endlessLookahead
      | some analysis =>
        let found := Ambiguity.errors v rules fs analysis
        if found.any (·.isFatal) || (config.strict && !found.isEmpty) then .error (.invalid found)
        else .ok
          { vocabulary := v, config, rules, bodies := bodies.map (·.body), analysis
            warnings := found }

def ruleNamed? (g : Grammar α) (name : String) : Option RuleId :=
  PredictiveParsing.ruleNamed? g.rules name

def ruleName (g : Grammar α) (id : RuleId) : String := PredictiveParsing.ruleName g.rules id

def body (g : Grammar α) (id : RuleId) : List (Op α) := g.bodies.getD id []

def validate (g : Grammar α) : List DefinitionError :=
  let fs := FirstSets.ofRules g.rules
  match Names.clashes g.vocabulary g.rules ++ Structure.errors g.vocabulary g.rules fs with
  | [] => Ambiguity.errors g.vocabulary g.rules fs g.analysis
  | errors => errors

def displayRules (g : Grammar α) : String :=
  String.join (g.rules.map (·.display g.vocabulary))

def displayDecisions (g : Grammar α) : String :=
  g.analysis.displayDecisions g.vocabulary g.rules

end Grammar

def DefinitionError.summary (errors : List DefinitionError) : String :=
  "Grammar definition has " ++ toString errors.length ++ " error(s)"

end PredictiveParsing
