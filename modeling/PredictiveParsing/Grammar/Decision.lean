import PredictiveParsing.Grammar.Lookahead
import PredictiveParsing.Vocabulary.Token

/-!
# Decisions

A decision picks the first alternative with a path that the coming tokens match. If every path has
one token, the picks are listed by token type.
-/

namespace PredictiveParsing

structure DecisionKey where
  rule : RuleId
  kind : ProductionKind
  occurrence : Nat
deriving DecidableEq, Repr

structure Decision where
  alternatives : List (List Path)
  /-- The alternative picked for each registered type. -/
  table : Option (List (Option Nat))
deriving DecidableEq, Repr

namespace Decision

def maxTableAlternatives : Nat := 256

def isSingleToken (alternatives : List (List Path)) : Bool :=
  alternatives.length ≤ maxTableAlternatives &&
    alternatives.all fun paths => paths.all fun path => path.length == 1

/-- The first alternative with a path of one token that a token of the type matches. -/
def pick (v : Vocabulary) (alternatives : List (List Path)) (kind : TypeId) : Option Nat :=
  alternatives.findIdx? fun paths => paths.any fun path =>
    match path with
    | [expected] => (v.members expected).contains kind
    | _ => false

def ofPaths (v : Vocabulary) (alternatives : List (List Path)) : Decision :=
  { alternatives
    table :=
      if isSingleToken alternatives then some (v.ids.map (pick v alternatives)) else none }

def matchesPath (v : Vocabulary) (kinds : Nat → TypeId) : Nat → Path → Bool
  | _, [] => true
  | n, expected :: path => v.isMatch (kinds n) expected && matchesPath v kinds (n + 1) path

def choosePath (v : Vocabulary) (enabled : Nat → Bool) (alternatives : List (List Path))
    (kinds : Nat → TypeId) : Option Nat :=
  alternatives.zipIdx.findIdx? fun (paths, index) =>
    enabled index && paths.any (matchesPath v kinds 0)

/-- Picks an alternative for the coming kinds of tokens, given by their distance. With conditions
on alternatives, the table is of no use. -/
def choose (d : Decision) (v : Vocabulary) (kinds : Nat → TypeId) (enabled : Option (List Bool)) :
    Option Nat :=
  match d.table, enabled with
  | some table, none => (table[kinds 0]?).join
  | _, none => choosePath v (fun _ => true) d.alternatives kinds
  | _, some mask => choosePath v (mask.getD · true) d.alternatives kinds

/-- The kinds of a list of tokens, behind which the input ends. -/
def kindsOf (tokens : List Token) : Nat → TypeId := fun n =>
  ((tokens[n]?).map (·.kind)).getD Vocabulary.eof

def displayPath (v : Vocabulary) (path : Path) : String :=
  " [" ++ " ".intercalate (path.map v.name) ++ "]"

def displayPaths (v : Vocabulary) (alternatives : List (List Path)) : String :=
  String.join (alternatives.zipIdx.map fun (paths, index) =>
    "  " ++ toString (index + 1) ++ ":" ++ String.join (paths.map (displayPath v)) ++ "\n")

end Decision

end PredictiveParsing
