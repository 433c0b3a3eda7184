import PredictiveParsing.Decimal.Binary

/-!
# Decimals with a fixed number of places

The exact value of a double, rounded to a number of places. A half goes to the even neighbour.
-/

namespace PredictiveParsing.Decimal

def withPlaces (places n : Nat) : String :=
  let ds := Nat.toDigits 10 n
  let padded := List.replicate (places + 1 - ds.length) '0' ++ ds
  let whole := padded.length - places
  String.ofList (padded.take whole) ++
    if places = 0 then "" else String.ofList ('.' :: padded.drop whole)

def fixed (places : Nat) (x : Float) : String :=
  let sign (negative : Bool) := if negative then "-" else ""
  match Binary.ofFloat x with
  | .nan => "NaN"
  | .infinite negative => sign negative ++ "inf"
  | .finite negative m e =>
    sign negative ++ withPlaces places ((Ratio.ofScaled m e).divPow10 (-places)).round

end PredictiveParsing.Decimal
