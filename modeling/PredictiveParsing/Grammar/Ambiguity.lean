import PredictiveParsing.Grammar.Analysis
import PredictiveParsing.Grammar.DefinitionError

/-!
# Ambiguous alternatives

Branches of an alternation that the lookahead does not tell apart. Branches that have a gate or are
marked are left out.
-/

namespace PredictiveParsing.Ambiguity

/-- Whether one of two types matches the other, place by place. -/
def pathsOverlap (v : Vocabulary) : Path → Path → Bool
  | [], [] => true
  | a :: as, b :: bs => (v.isMatch a b || v.isMatch b a) && pathsOverlap v as bs
  | _, _ => false

def emptyBranches (fs : FirstSets) (r : Rule) (branches : List (Alternative Production))
    (occurrence : Nat) : List DefinitionError :=
  branches.zipIdx.filterMap fun (b, index) =>
    if index + 1 < branches.length && !b.hasGate && fs.nullableAll b.definition then
      some (.emptyAlternative r.name occurrence (index + 1))
    else none

def checkedPaths (branches : List (Alternative Production)) (paths : List (List Path)) :
    List (Nat × List Path) :=
  paths.zipIdx.filterMap fun (ps, index) =>
    match branches[index]? with
    | some b => if b.ignoreAmbiguities || b.hasGate then none else some (index + 1, ps)
    | none => none

def rivals (v : Vocabulary) (checked : List (Nat × List Path)) (number : Nat) (path : Path) :
    List Nat :=
  checked.filterMap fun (other, ps) =>
    if other ≠ number && ps.any fun q => pathsOverlap v q path then some other else none

/-- Paths that several branches share, with these branches. Each path is reported once. -/
def sharedPaths (v : Vocabulary) (checked : List (Nat × List Path)) : List (Path × List Nat) :=
  (checked.flatMap fun (number, ps) => ps.map fun path => (number, path)).foldl
    (fun reported (number, path) =>
      if path.isEmpty || reported.any (·.1 == path) then reported
      else
        let others := rivals v checked number path
        if others.isEmpty then reported
        else reported ++ [(path, (number :: others).mergeSort (· ≤ ·))]) []

def ambiguousBranches (v : Vocabulary) (r : Rule) (occurrence : Nat)
    (checked : List (Nat × List Path)) : List DefinitionError :=
  (sharedPaths v checked).map fun (path, numbers) =>
    .ambiguousAlternatives r.name occurrence numbers (path.map v.name)

/-- Paths of an earlier branch that a path of a later one begins with. -/
def shadowingPaths (v : Vocabulary) (r : Rule) (occurrence : Nat)
    (checked : List (Nat × List Path)) : List DefinitionError :=
  checked.flatMap fun (earlier, shorts) => checked.flatMap fun (later, longs) =>
    if earlier < later then
      shorts.flatMap fun short => longs.filterMap fun long =>
        if !short.isEmpty && short.length < long.length &&
            pathsOverlap v short (long.take short.length) then
          some (.ambiguousShorter r.name occurrence earlier later (short.map v.name))
        else none
    else []

def alternationErrors (v : Vocabulary) (fs : FirstSets) (a : Analysis) (id : RuleId) (r : Rule)
    (branches : List (Alternative Production)) (occurrence : Nat) : List DefinitionError :=
  emptyBranches fs r branches occurrence ++
    match a.decisionAt? ⟨id, .or, occurrence⟩ with
    | none => []
    | some d =>
      let checked := checkedPaths branches d.alternatives
      ambiguousBranches v r occurrence checked ++ shadowingPaths v r occurrence checked

def errors (v : Vocabulary) (rules : List Rule) (fs : FirstSets) (a : Analysis) :
    List DefinitionError :=
  rules.zipIdx.flatMap fun (r, id) => r.nodes.flatMap fun p =>
    match p with
    | .alternation branches occurrence => alternationErrors v fs a id r branches occurrence
    | _ => []

end PredictiveParsing.Ambiguity
