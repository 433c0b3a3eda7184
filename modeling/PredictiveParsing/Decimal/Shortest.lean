import PredictiveParsing.Decimal.Binary

/-!
# Shortest decimals

The decimal with the fewest digits that reads back as a given double, and of those the nearest one.
-/

namespace PredictiveParsing.Decimal

structure Digits where
  digits : Nat
  exponent : Int
deriving DecidableEq, Repr

/-- The decimals that read back as a positive double: those between two bounds. -/
structure Rounding where
  value : Ratio
  low : Ratio
  high : Ratio
  closed : Bool

namespace Rounding

/-- Half the way to either neighbour. The lower neighbour of a power of two is half as far, and
a bound itself rounds to an even mantissa. -/
def ofMantissa (m : Nat) (e : Int) : Rounding :=
  let below := if m = 1 <<< 52 && (-1074 : Int) < e then 1 else 2
  { value := .ofScaled (4 * m) (e - 2)
    low := .ofScaled (4 * m - below) (e - 2)
    high := .ofScaled (4 * m + 2) (e - 2)
    closed := m % 2 == 0 }

def admits (i : Rounding) (d : Nat) (p : Int) : Bool :=
  let above (r : Ratio) := if i.closed then (r.divPow10 p).le (.ofNat d) else (r.divPow10 p).lt (.ofNat d)
  let under (r : Ratio) := if i.closed then Ratio.le (.ofNat d) (r.divPow10 p)
    else Ratio.lt (.ofNat d) (r.divPow10 p)
  above i.low && under i.high

/-- The nearest multiple of `10 ^ p` that reads back; of two equally near ones the larger. -/
def onGrid? (i : Rounding) (p : Int) : Option Nat :=
  let r := i.value.divPow10 p
  let d := r.floor
  match i.admits d p, i.admits (d + 1) p with
  | false, false => none
  | true, false => some d
  | false, true => some (d + 1)
  | true, true => if 2 * (r.num % r.den) < r.den then some d else some (d + 1)

end Rounding

def leadingPower (r : Ratio) : Int :=
  let guess : Int := (Nat.toDigits 10 r.num).length - (Nat.toDigits 10 r.den).length
  if (r.divPow10 guess).lt (.ofNat 1) then guess - 1 else guess

def stripZeros : Nat → Nat → Int → Digits
  | 0, d, p => ⟨d, p⟩
  | fuel + 1, d, p => if d % 10 = 0 then stripZeros fuel (d / 10) (p + 1) else ⟨d, p⟩

/-- The shortest decimal of the positive double `m · 2 ^ e`. Seventeen digits always suffice. -/
def shortest (m : Nat) (e : Int) : Digits :=
  let i := Rounding.ofMantissa m e
  let lead := leadingPower i.value
  let grids := (List.range 17).map fun (n : Nat) => lead - (n : Int)
  match grids.findSome? fun p => (i.onGrid? p).map fun d => (d, p) with
  | some (d, p) => stripZeros 20 d p
  | none => ⟨m, e⟩

structure Style where
  /-- Decimal exponents of the leading digit that are written positionally. -/
  positional : Int → Bool
  infinity : String
  nan : String

namespace Digits

def positional (d : Digits) : String :=
  let ds := Nat.toDigits 10 d.digits
  let point : Int := ds.length + d.exponent
  if point ≤ 0 then String.ofList ("0.".toList ++ List.replicate (-point).toNat '0' ++ ds)
  else if (ds.length : Int) ≤ point then
    String.ofList (ds ++ List.replicate d.exponent.toNat '0' ++ ".0".toList)
  else String.ofList (ds.take point.toNat ++ '.' :: ds.drop point.toNat)

def scientific (d : Digits) : String :=
  let ds := Nat.toDigits 10 d.digits
  let fraction := ds.drop 1
  String.ofList (ds.take 1 ++ (if fraction.isEmpty then [] else '.' :: fraction)) ++
    "e" ++ toString (((ds.length : Int) + d.exponent) - 1)

end Digits

/-- Numbers from a ten-thousandth up to, not including, ten to the sixteenth are positional. -/
def plain : Style :=
  { positional := fun lead => -4 ≤ lead && lead < 16
    infinity := "inf"
    nan := "NaN" }

def write (style : Style) (x : Float) : String :=
  let sign (negative : Bool) := if negative then "-" else ""
  match Binary.ofFloat x with
  | .nan => style.nan
  | .infinite negative => sign negative ++ style.infinity
  | .finite negative 0 _ => sign negative ++ "0.0"
  | .finite negative m e =>
    let d := shortest m e
    let lead := ((Nat.toDigits 10 d.digits).length : Int) + d.exponent - 1
    sign negative ++ if style.positional lead then d.positional else d.scientific

end PredictiveParsing.Decimal
