/-!
# Reading decimals

A decimal has digits, a point among them or not, and an exponent or not. The double nearest to it
is its value.
-/

namespace PredictiveParsing.Decimal

def spanDigits (cs : List Char) : List Char × List Char := cs.span Char.isDigit

def ofDigits (ds : List Char) : Nat := ds.foldl (fun n d => 10 * n + (d.toNat - '0'.toNat)) 0

/-- `m · 10 ^ e` as the nearest double. Beyond the bounds the result is infinite or zero. -/
def nearest (m : Nat) (e : Int) : Float :=
  let size := (Nat.toDigits 10 m).length
  if m = 0 then 0.0
  else if 400 < e then 1.0 / 0.0
  else if e + size < -400 then 0.0
  else Float.ofScientific m (decide (e < 0)) e.natAbs

/-- The exponent part of a decimal; no text at all stands for exponent zero. -/
def exponent? : List Char → Option Int
  | [] => some 0
  | c :: cs =>
    if c = 'e' || c = 'E' then
      let (negative, rest) : Bool × List Char := match cs with
        | '-' :: r => (true, r)
        | '+' :: r => (false, r)
        | r => (false, r)
      if !rest.isEmpty && rest.all Char.isDigit then
        some (if negative then -(ofDigits rest : Int) else ofDigits rest)
      else none
    else none

/-- An unsigned decimal with a digit before or after its point. -/
def unsigned? (cs : List Char) : Option Float :=
  let (whole, rest) := spanDigits cs
  let (fraction, rest) := match rest with
    | '.' :: r => spanDigits r
    | r => ([], r)
  if whole.isEmpty && fraction.isEmpty then none
  else (exponent? rest).map fun e => nearest (ofDigits (whole ++ fraction)) (e - fraction.length)

def word? (cs : List Char) : Option Float :=
  let w := String.ofList (cs.map Char.toLower)
  if w = "inf" || w = "infinity" then some (1.0 / 0.0)
  else if w = "nan" then some (0.0 / 0.0)
  else none

def read? (text : String) : Option Float :=
  let magnitude? (cs : List Char) := (word? cs).orElse fun _ => unsigned? cs
  match text.toList with
  | '-' :: cs => (magnitude? cs).map (-·)
  | '+' :: cs => magnitude? cs
  | cs => magnitude? cs

end PredictiveParsing.Decimal
