import PredictiveParsing.Json.Value

/-!
# Writing JSON

Two layouts: all on one line, or one item a line with two spaces for each level.
-/

namespace PredictiveParsing.Json

def escape (c : Char) : List Char :=
  if c = '"' || c = '\\' then ['\\', c]
  else if c = '\n' then ['\\', 'n']
  else if c = '\r' then ['\\', 'r']
  else if c = '\t' then ['\\', 't']
  else if c = '\x08' then ['\\', 'b']
  else if c = '\x0c' then ['\\', 'f']
  else if c.toNat < 0x20 then
    "\\u".toList ++ List.replicate (4 - (Nat.toDigits 16 c.toNat).length) '0' ++
      Nat.toDigits 16 c.toNat
  else [c]

def quoted (s : String) : String :=
  String.ofList ('"' :: s.toList.flatMap escape ++ ['"'])

def key (k : Option String) : String := quoted (k.getD "")

def indent (level : Nat) : String := String.ofList (List.replicate (2 * level) ' ')

mutual

def compact : Json → String
  | .null => "null"
  | .bool b => if b then "true" else "false"
  | .number literal => literal
  | .string s => key s
  | .array items => "[" ++ ",".intercalate (compactItems items) ++ "]"
  | .object members => "\x7b" ++ ",".intercalate (compactMembers members) ++ "\x7d"

def compactItems : List Json → List String
  | [] => []
  | item :: rest => compact item :: compactItems rest

def compactMembers : List (Option String × Json) → List String
  | [] => []
  | (k, value) :: rest => (key k ++ ":" ++ compact value) :: compactMembers rest

end

mutual

def prettyAt (level : Nat) : Json → String
  | .null => "null"
  | .bool b => if b then "true" else "false"
  | .number literal => literal
  | .string s => key s
  | .array [] => "[]"
  | .array (item :: rest) =>
    "[\n" ++ ",\n".intercalate (prettyItems (level + 1) (item :: rest)) ++ "\n" ++
      indent level ++ "]"
  | .object [] => "\x7b\x7d"
  | .object (member :: rest) =>
    "\x7b\n" ++ ",\n".intercalate (prettyMembers (level + 1) (member :: rest)) ++ "\n" ++
      indent level ++ "\x7d"

def prettyItems (level : Nat) : List Json → List String
  | [] => []
  | item :: rest => (indent level ++ prettyAt level item) :: prettyItems level rest

def prettyMembers (level : Nat) : List (Option String × Json) → List String
  | [] => []
  | (k, value) :: rest =>
    (indent level ++ key k ++ ": " ++ prettyAt level value) :: prettyMembers level rest

end

def pretty (j : Json) : String := prettyAt 0 j

end PredictiveParsing.Json
