/-!
# The exact value of a double

A finite double is a whole number times a power of two. Both are read off its bits.
-/

namespace PredictiveParsing.Decimal

inductive Binary where
  | finite (negative : Bool) (mantissa : Nat) (exponent : Int)
  | infinite (negative : Bool)
  | nan
deriving DecidableEq, Repr

namespace Binary

def ofBits (bits : Nat) : Binary :=
  let negative := bits >>> 63 == 1
  let biased : Nat := bits >>> 52 % 2048
  let fraction : Nat := bits % (1 <<< 52)
  if biased = 2047 then if fraction = 0 then infinite negative else nan
  else if biased = 0 then finite negative fraction (-1074)
  else finite negative (fraction + (1 <<< 52)) ((biased : Int) - 1075)

def ofFloat (x : Float) : Binary := ofBits x.toBits.toNat

end Binary

structure Ratio where
  num : Nat
  den : Nat

namespace Ratio

def ofScaled (n : Nat) (e : Int) : Ratio :=
  if 0 ≤ e then ⟨n <<< e.toNat, 1⟩ else ⟨n, 1 <<< (-e).toNat⟩

def divPow10 (r : Ratio) (p : Int) : Ratio :=
  if 0 ≤ p then ⟨r.num, r.den * Nat.pow 10 p.toNat⟩ else ⟨r.num * Nat.pow 10 (-p).toNat, r.den⟩

def lt (r s : Ratio) : Bool := r.num * s.den < s.num * r.den

def le (r s : Ratio) : Bool := r.num * s.den ≤ s.num * r.den

def ofNat (n : Nat) : Ratio := ⟨n, 1⟩

def floor (r : Ratio) : Nat := r.num / r.den

/-- The nearest whole number; a half goes to the even neighbour. -/
def round (r : Ratio) : Nat :=
  let twice := 2 * (r.num % r.den)
  let down := r.num / r.den
  if twice < r.den then down
  else if r.den < twice then down + 1
  else if down % 2 = 0 then down else down + 1

end Ratio

end PredictiveParsing.Decimal
