/-!
# JSON values

Numbers keep their spelling, objects the order of their members. The text of a string is missing
if half of a surrogate pair stands alone in it.
-/

namespace PredictiveParsing

inductive Json where
  | null
  | bool (value : Bool)
  | number (literal : String)
  | string (text : Option String)
  | array (items : List Json)
  | object (members : List (Option String × Json))
deriving Inhabited

namespace Json

def text (s : String) : Json := .string (some s)

def nat (n : Nat) : Json := .number (toString n)

def record (members : List (String × Json)) : Json :=
  .object (members.map fun (key, value) => (some key, value))

def ofOption {α : Type} (f : α → Json) : Option α → Json
  | none => .null
  | some a => f a

def member? (key : String) : Json → Option Json
  | .object members => (members.find? fun (k, _) => k == some key).map (·.2)
  | _ => none

/-- A whole number that is written without point and exponent and fits 64 bits. -/
def word? : Json → Option Nat
  | .number literal =>
    if literal.toList.all Char.isDigit then
      literal.toNat?.filter (· < 1 <<< 64)
    else none
  | _ => none

end Json

end PredictiveParsing
