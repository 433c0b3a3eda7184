import PredictiveParsing.CommandLine.Folder
import PredictiveParsing.Decimal.Units

/-!
# Surroundings of the program

All that the command line does to the outside goes through a host. A recording host reads from a
folder of its own and keeps what is written, so that a whole run is one value.
-/

namespace PredictiveParsing.CommandLine

structure Phase where
  name : String
  bytes : Nat
  /-- How often the step is run to take its time. -/
  iterations : Nat
  isReported : Bool
deriving DecidableEq, Repr

namespace Phase

def timeLine (p : Phase) (seconds : Float) : String :=
  p.name ++ "\t " ++ Decimal.writeWithUnit Decimal.secondUnits seconds ++ "\t " ++
    Decimal.writeWithUnit Decimal.byteUnits (Float.ofNat p.bytes / seconds) ++ "/s\n"

end Phase

structure Host (m : Type → Type) where
  read : String → m (Except ReadError Source)
  out : String → m Unit
  err : String → m Unit
  /-- Runs a step and, if asked, reports how long it takes. -/
  phase : {β : Type} → Phase → (Unit → β) → m β

structure Transcript where
  out : String
  err : String
deriving DecidableEq, Repr

namespace Transcript

def empty : Transcript := ⟨"", ""⟩

def addOut (t : Transcript) (text : String) : Transcript := { t with out := t.out ++ text }

def addErr (t : Transcript) (text : String) : Transcript := { t with err := t.err ++ text }

end Transcript

/-- Records what is written. Of a phase that is reported only its name is. -/
def Folder.host (f : Folder) : Host (StateM Transcript) where
  read path := pure (f.read path)
  out text := modify (·.addOut text)
  err text := modify (·.addErr text)
  phase p step := do
    if p.isReported then modify (·.addErr (p.name ++ "\n"))
    return step ()

end PredictiveParsing.CommandLine
