import PredictiveParsing.Text.Table.Invisible

/-!
# Quoted text

Text between quotes, in which the quote, the backslash and whatever does not show are escaped.
-/

namespace PredictiveParsing.Text

def escape (quote c : Char) : List Char :=
  if c = quote || c = '\\' then ['\\', c]
  else if c = '\n' then ['\\', 'n']
  else if c = '\r' then ['\\', 'r']
  else if c = '\t' then ['\\', 't']
  else if c.toNat = 0 then ['\\', '0']
  else if isVisible c then [c]
  else "\\u\x7b".toList ++ Nat.toDigits 16 c.toNat ++ ['\x7d']

def quoted (text : List Char) : String :=
  String.ofList ('"' :: text.flatMap (escape '"') ++ ['"'])

def quotedChar (c : Char) : String :=
  let quote := Char.ofNat 0x27
  String.ofList (quote :: escape quote c ++ [quote])

end PredictiveParsing.Text
