import PredictiveParsing.Vocabulary.Basic
import PredictiveParsing.Text.Span

/-!
# Tokens

A token is a stretch of the text with the type it was read as. Error recovery can put tokens in
that no text stands for.
-/

namespace PredictiveParsing

structure Token where
  kind : TypeId
  image : String
  span : Span
  /-- Position of the first character. -/
  start : Option LineCol
  /-- Position of the last character. -/
  stop : Option LineCol
  /-- Whether error recovery made the token up. -/
  inserted : Bool
deriving DecidableEq, Repr, Inhabited

namespace Token

def eof (offset : Nat) : Token :=
  { kind := Vocabulary.eof, image := "", span := .point offset, start := none, stop := none,
    inserted := false }

def insertedBefore (kind : TypeId) (before : Token) : Token :=
  { kind, image := "", span := .point before.span.start, start := before.start,
    stop := before.start, inserted := true }

def isEof (t : Token) : Bool := t.kind == Vocabulary.eof

def describe (t : Token) : String := if t.isEof then "end of input" else "'" ++ t.image ++ "'"

end Token

end PredictiveParsing
