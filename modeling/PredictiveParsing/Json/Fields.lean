import PredictiveParsing.Json.Value

/-!
# Records from JSON

A record is read from an object, in which members of other names are ignored, or from an array of
its fields in order, which may end early. No field may be given twice.
-/

namespace PredictiveParsing.Json

def fields? (names : List String) : Json → Option (List (Option Json))
  | .object members => do
    let given ← members.mapM fun (key, value) => key.map fun k => (k, value)
    if names.all fun n => (given.filter fun (k, _) => k == n).length ≤ 1 then
      return names.map fun n => given.lookup n
    else none
  | .array items =>
    if items.length ≤ names.length then
      some (items.map some ++ List.replicate (names.length - items.length) none)
    else none
  | _ => none

/-- A field that may be left out but not be of the wrong form. -/
def fieldOr {α : Type} (fallback : α) (read? : Json → Option α) : Option Json → Option α
  | none => some fallback
  | some value => read? value

def bool? : Json → Option Bool
  | .bool b => some b
  | _ => none

def char? : Json → Option Char
  | .string (some s) =>
    match s.toList with
    | [c] => some c
    | _ => none
  | _ => none

def listOf? {α : Type} (read? : Json → Option α) : Json → Option (List α)
  | .array items => items.mapM read?
  | _ => none

/-- One of some named values, as its name, or as an object whose one member of that name is null. -/
def oneOf? {α : Type} (values : List (String × α)) : Json → Option α
  | .string (some name) => values.lookup name
  | .object [(some name, .null)] => values.lookup name
  | _ => none

end PredictiveParsing.Json
