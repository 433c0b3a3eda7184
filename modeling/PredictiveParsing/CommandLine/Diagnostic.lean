import PredictiveParsing.Lexer.Run
import PredictiveParsing.Parse.Error

/-!
# Diagnostics

A diagnostic is a problem of the input with its place. Where the position is not known it is
counted from the text.
-/

namespace PredictiveParsing.CommandLine

structure Diagnostic where
  offset : Nat
  position : Option LineCol
  message : String
deriving DecidableEq, Repr

namespace Diagnostic

def ofLexical (e : LexicalError) : Diagnostic := ⟨e.span.start, e.start, e.message⟩

def ofRecognition (v : Vocabulary) (e : RecognitionError) : Diagnostic :=
  ⟨e.token.span.start, e.token.start, e.message v⟩

def place (d : Diagnostic) (text : String) : LineCol :=
  d.position.getD (.ofOffset text.toList d.offset)

def line (d : Diagnostic) (path text : String) : String :=
  path ++ ":" ++ (d.place text).display ++ " " ++ d.message ++ "\n"

end Diagnostic

end PredictiveParsing.CommandLine
