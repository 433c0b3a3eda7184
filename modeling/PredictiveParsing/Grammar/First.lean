import PredictiveParsing.Grammar.Production
import PredictiveParsing.Vocabulary.TokenSet

/-!
# Empty derivations and first tokens

Which rules derive nothing at all, and with which tokens each rule can start. Both are least
fixpoints: every round uses what the rounds before have found, and after as many rounds as there
are rules nothing is new. Going over the rules in place until nothing changes finds the same, as
`PredictiveParsing.Proofs.Grammar.FirstLoop` shows.
-/

namespace PredictiveParsing

namespace Production

mutual

/-- Whether a production can derive nothing, given the rules that can. -/
def nullable (known : RuleId → Bool) : Production → Bool
  | .terminal _ _ => false
  | .nonTerminal _ target _ => target.any known
  | .option _ _ => true
  | .repetition mandatory _ definition _ => !mandatory || nullableAll known definition
  | .alternation alternatives _ => nullableBranches known alternatives

def nullableAll (known : RuleId → Bool) : List Production → Bool
  | [] => true
  | p :: ps => nullable known p && nullableAll known ps

def nullableBranches (known : RuleId → Bool) : List (Alternative Production) → Bool
  | [] => false
  | ⟨definition, _, _⟩ :: rest => nullableAll known definition || nullableBranches known rest

end

mutual

/-- The tokens a production can start with, given those of the rules. -/
def first (known : RuleId → Bool) (firsts : RuleId → TokenSet) : Production → TokenSet
  | .terminal token _ => TokenSet.empty.insert token
  | .nonTerminal _ target _ => (target.map firsts).getD .empty
  | .option definition _ => firstOf known firsts definition
  | .repetition _ _ definition _ => firstOf known firsts definition
  | .alternation alternatives _ => firstOfBranches known firsts alternatives

def firstOf (known : RuleId → Bool) (firsts : RuleId → TokenSet) : List Production → TokenSet
  | [] => .empty
  | p :: ps =>
    if nullable known p then (first known firsts p).union (firstOf known firsts ps)
    else first known firsts p

def firstOfBranches (known : RuleId → Bool) (firsts : RuleId → TokenSet) :
    List (Alternative Production) → TokenSet
  | [] => .empty
  | ⟨definition, _, _⟩ :: rest =>
    (firstOf known firsts definition).union (firstOfBranches known firsts rest)

end

end Production

structure FirstSets where
  nullableRules : List Bool
  firstTokens : List TokenSet

namespace FirstSets

def isNullable (fs : FirstSets) (r : RuleId) : Bool := fs.nullableRules.getD r false

def first (fs : FirstSets) (r : RuleId) : TokenSet := fs.firstTokens.getD r .empty

def nullableRound (rules : List Rule) (known : List Bool) : List Bool :=
  rules.map fun r => Production.nullableAll (known.getD · false) r.definition

def nullables (rules : List Rule) : List Bool :=
  Nat.repeat (nullableRound rules) rules.length (rules.map fun _ => false)

def firstRound (rules : List Rule) (known : RuleId → Bool) (firsts : List TokenSet) :
    List TokenSet :=
  rules.map fun r => Production.firstOf known (firsts.getD · .empty) r.definition

def ofRules (rules : List Rule) : FirstSets :=
  let known := nullables rules
  { nullableRules := known
    firstTokens := Nat.repeat (firstRound rules (known.getD · false)) rules.length
      (rules.map fun _ => .empty) }

def nullableAll (fs : FirstSets) (definition : List Production) : Bool :=
  Production.nullableAll fs.isNullable definition

def firstOf (fs : FirstSets) (definition : List Production) : TokenSet :=
  Production.firstOf fs.isNullable fs.first definition

end FirstSets

end PredictiveParsing
