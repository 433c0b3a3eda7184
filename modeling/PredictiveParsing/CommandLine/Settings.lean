import PredictiveParsing.Grammar.Config
import PredictiveParsing.Lexer.Config
import PredictiveParsing.Json.Reader

/-!
# Settings files
-/

namespace PredictiveParsing.CommandLine

structure Settings where
  lexer : LexerConfig := {}
  parser : ParserConfig := {}
deriving DecidableEq, Repr

namespace Settings

def fieldNames : List String := ["lexer", "parser"]

def ofJson? (j : Json) : Option Settings := do
  let [lexer, parser] ← j.fields? fieldNames | none
  let d : Settings := {}
  return {
    lexer := ← Json.fieldOr d.lexer LexerConfig.ofJson? lexer
    parser := ← Json.fieldOr d.parser ParserConfig.ofJson? parser }

def read? (text : String) : Option Settings := (Json.read? text).bind ofJson?

end Settings

end PredictiveParsing.CommandLine
