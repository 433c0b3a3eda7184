import PredictiveParsing.Vocabulary.TokenSet
import PredictiveParsing.Vocabulary.Token
import PredictiveParsing.Text.Quoted
import PredictiveParsing.Json.Value

/-!
# Tokens and patterns as text and JSON
-/

namespace PredictiveParsing

namespace Vocabulary

def debugId (id : TypeId) : String := "TokenTypeId(" ++ toString id ++ ")"

end Vocabulary

namespace TokenSet

def debug (s : TokenSet) : String :=
  "\x7b" ++ ", ".intercalate (s.toList.map Vocabulary.debugId) ++ "\x7d"

end TokenSet

namespace Pattern

def debug : Pattern → String
  | .literal text => "Literal(" ++ Text.quoted text.toList ++ ")"
  | .regex source => "Regex(" ++ Text.quoted source.toList ++ ")"
  | .custom pattern =>
    let chars := match pattern.startChars with
      | none => "None"
      | some cs => "Some([" ++ ", ".intercalate (cs.map Text.quotedChar) ++ "])"
    "Custom(CustomPattern \x7b start_chars: " ++ chars ++ ", .. \x7d)"
  | .category => "None"

end Pattern

def LineCol.toJson (p : LineCol) : Json :=
  .record [("line", .nat p.line), ("column", .nat p.column)]

def Span.toJson (s : Span) : Json := .record [("start", .nat s.start), ("end", .nat s.stop)]

namespace Token

def debug (t : Token) : String :=
  Vocabulary.debugId t.kind ++ "(" ++ Text.quoted t.image.toList ++ " @ " ++ t.span.display ++ ")" ++
    if t.inserted then " inserted" else ""

def toJson (t : Token) : Json :=
  .record [
    ("kind", .nat t.kind),
    ("image", .text t.image),
    ("span", t.span.toJson),
    ("start", .ofOption LineCol.toJson t.start),
    ("end", .ofOption LineCol.toJson t.stop),
    ("inserted", .bool t.inserted)]

end Token

end PredictiveParsing
