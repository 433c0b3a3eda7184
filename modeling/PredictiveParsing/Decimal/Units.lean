import PredictiveParsing.Decimal.Fixed

/-!
# Quantities with units

A quantity is shown in the unit in which it is least but not below one, or, if it is below one in
all of them, in the unit in which it is greatest.
-/

namespace PredictiveParsing.Decimal

structure UnitScale where
  name : String
  factor : Float

def byteUnits : List UnitScale :=
  let kibi : Float := 1.0 / 1024.0
  [⟨"MiB", kibi * kibi⟩, ⟨"KiB", kibi⟩, ⟨"B", 1.0⟩]

def secondUnits : List UnitScale :=
  let milli : Float := 1000.0
  [⟨"s", 1.0⟩, ⟨"ms", milli⟩, ⟨"µs", milli * milli⟩, ⟨"ns", milli * milli * milli⟩]

def isBetter (value best : Float) : Bool :=
  if best >= 1.0 then value < best && value >= 1.0 else value > best

def bestUnit? (units : List UnitScale) (value : Float) : Option (Float × String) :=
  units.foldl (fun best unit =>
    let scaled := value * unit.factor
    match best with
    | none => some (scaled, unit.name)
    | some (b, name) => if isBetter scaled b then some (scaled, unit.name) else some (b, name)) none

def writeWithUnit (units : List UnitScale) (value : Float) : String :=
  match bestUnit? units value with
  | some (scaled, name) => fixed 2 scaled ++ " " ++ name
  | none => fixed 2 value

end PredictiveParsing.Decimal
