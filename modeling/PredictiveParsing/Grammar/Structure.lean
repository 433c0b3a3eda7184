import PredictiveParsing.Grammar.DefinitionError
import PredictiveParsing.Grammar.First

/-!
# Structure of a grammar

Checks that need the rules alone: no rule reaches itself before a token is consumed, no iteration
consumes nothing, alternations are not too large, and occurrences are told apart.
-/

namespace PredictiveParsing.Structure

mutual

/-- The rules a production can enter before any token is consumed, and whether it always consumes
one. -/
def opening (fs : FirstSets) : Production → List RuleId × Bool
  | .terminal _ _ => ([], true)
  | .nonTerminal _ (some target) _ => ([target], !fs.isNullable target)
  | .nonTerminal _ none _ => ([], false)
  | .option definition _ => ((openingOf fs definition).1, false)
  | .repetition mandatory _ definition _ =>
    let (rules, consumes) := openingOf fs definition
    (rules, mandatory && consumes)
  | .alternation alternatives _ => openingOfBranches fs alternatives

def openingOf (fs : FirstSets) : List Production → List RuleId × Bool
  | [] => ([], false)
  | p :: ps =>
    let (rules, consumes) := opening fs p
    if consumes then (rules, true)
    else
      let (more, consumes) := openingOf fs ps
      (rules ++ more, consumes)

/-- Branches always consume a token if each of them does. -/
def openingOfBranches (fs : FirstSets) : List (Alternative Production) → List RuleId × Bool
  | [] => ([], true)
  | ⟨definition, _, _⟩ :: rest =>
    let (rules, consumes) := openingOf fs definition
    let (more, consumesRest) := openingOfBranches fs rest
    (rules ++ more, consumes && consumesRest)

end

def openingRules (fs : FirstSets) (rules : List Rule) (r : RuleId) : List RuleId :=
  let entered := (openingOf fs (definitionOf rules r)).1
  (List.range rules.length).filter entered.contains

structure CycleSearch where
  visited : List RuleId
  errors : List DefinitionError

/-- Follows opening rules depth first. The path so far comes innermost first; its length is bounded
by the number of rules, as is the first argument. -/
def search (rules : List Rule) (next : RuleId → List RuleId) :
    Nat → List RuleId → CycleSearch → RuleId → CycleSearch
  | 0, _, found, _ => found
  | fuel + 1, path, found, r =>
    if path.contains r then
      let cycle := (r :: (path.takeWhile (· ≠ r) ++ [r])).reverse
      { found with errors := found.errors ++
          [.leftRecursion (ruleName rules r) (cycle.map (ruleName rules))] }
    else if found.visited.contains r then found
    else
      (next r).foldl (search rules next fuel (r :: path))
        { found with visited := r :: found.visited }

def leftRecursions (rules : List Rule) (fs : FirstSets) : List DefinitionError :=
  ((List.range rules.length).foldl
    (search rules (openingRules fs rules) (rules.length + 1) []) ⟨[], []⟩).errors

structure OccurrenceKey where
  kind : ProductionKind
  argument : Option String
  occurrence : Nat
deriving DecidableEq

def OccurrenceKey.of (v : Vocabulary) (p : Production) : OccurrenceKey :=
  { kind := p.kind
    argument := match p with
      | .terminal token _ => some (v.name token)
      | .nonTerminal name _ _ => some name
      | _ => none
    occurrence := p.occurrence }

/-- Reports each key when it occurs for the second time. -/
def duplicatesFrom (seen : List OccurrenceKey) : List OccurrenceKey → List OccurrenceKey
  | [] => []
  | k :: ks =>
    (if seen.count k = 1 then [k] else []) ++ duplicatesFrom (k :: seen) ks

def duplicateOccurrences (v : Vocabulary) (r : Rule) : List DefinitionError :=
  (duplicatesFrom [] (r.nodes.map (.of v))).map fun k =>
    .duplicateOccurrence r.name k.kind k.occurrence k.argument

/-- Repetitions whose iterations can be empty, and alternations with too many branches. -/
def shapeErrors (fs : FirstSets) (r : Rule) : List DefinitionError :=
  r.nodes.filterMap fun p =>
    match p with
    | .repetition _ _ definition occurrence =>
      if fs.nullableAll definition then some (.emptyRepetition r.name p.kind occurrence) else none
    | .alternation alternatives occurrence =>
      if maxAlternatives < alternatives.length then
        some (.tooManyAlternatives r.name occurrence alternatives.length)
      else none
    | _ => none

def errors (v : Vocabulary) (rules : List Rule) (fs : FirstSets) : List DefinitionError :=
  leftRecursions rules fs ++
    rules.flatMap fun r => duplicateOccurrences v r ++ shapeErrors fs r

end PredictiveParsing.Structure
