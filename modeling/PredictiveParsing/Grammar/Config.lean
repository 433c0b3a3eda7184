import PredictiveParsing.Json.Fields

/-!
# Settings of a parser
-/

namespace PredictiveParsing

inductive LocationTracking where
  | full
  | startOnly
  | offsetOnly
  | none
deriving DecidableEq, Repr, Inhabited

structure ParserConfig where
  /-- How many tokens a decision may look at. -/
  maxLookahead : Nat := 3
  positionTracking : LocationTracking := .full
  recovery : Bool := false
  /-- Whether a parse builds a tree. -/
  outputTree : Bool := true
  /-- Whether ambiguities and empty branches make a grammar unusable. -/
  strict : Bool := true
deriving DecidableEq, Repr, Inhabited

namespace ParserConfig

def trackings : List (String × LocationTracking) :=
  [("full", .full), ("startOnly", .startOnly), ("offsetOnly", .offsetOnly), ("none", .none)]

def fieldNames : List String :=
  ["maxLookahead", "positionTracking", "recovery", "outputCst", "strict"]

def ofJson? (j : Json) : Option ParserConfig := do
  let [lookahead, tracking, recovery, tree, strict] ← j.fields? fieldNames | none
  let d : ParserConfig := {}
  return {
    maxLookahead := ← Json.fieldOr d.maxLookahead Json.word? lookahead
    positionTracking := ← Json.fieldOr d.positionTracking (Json.oneOf? trackings) tracking
    recovery := ← Json.fieldOr d.recovery Json.bool? recovery
    outputTree := ← Json.fieldOr d.outputTree Json.bool? tree
    strict := ← Json.fieldOr d.strict Json.bool? strict }

end ParserConfig

end PredictiveParsing
