import PredictiveParsing.Json.Fields

/-!
# Settings of a lexer
-/

namespace PredictiveParsing

inductive PositionTracking where
  | full
  | startOnly
  | offsetOnly
deriving DecidableEq, Repr, Inhabited

structure LexerConfig where
  positionTracking : PositionTracking := .full
  /-- A carriage return and a line feed after it are one line break. -/
  lineTerminators : List Char := ['\n', '\r']
  /-- Whether unexpected characters are skipped. Otherwise the first one ends the run. -/
  recovery : Bool := true
  /-- Whether patterns whose first characters are not known are refused. -/
  ensureOptimizations : Bool := false
deriving DecidableEq, Repr, Inhabited

namespace LexerConfig

def trackings : List (String × PositionTracking) :=
  [("full", .full), ("startOnly", .startOnly), ("offsetOnly", .offsetOnly)]

def fieldNames : List String :=
  ["positionTracking", "lineTerminators", "recovery", "ensureOptimizations"]

def ofJson? (j : Json) : Option LexerConfig := do
  let [tracking, terminators, recovery, ensure] ← j.fields? fieldNames | none
  let d : LexerConfig := {}
  return {
    positionTracking := ← Json.fieldOr d.positionTracking (Json.oneOf? trackings) tracking
    lineTerminators := ← Json.fieldOr d.lineTerminators (Json.listOf? Json.char?) terminators
    recovery := ← Json.fieldOr d.recovery Json.bool? recovery
    ensureOptimizations := ← Json.fieldOr d.ensureOptimizations Json.bool? ensure }

end LexerConfig

end PredictiveParsing
