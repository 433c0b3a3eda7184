import PredictiveParsing.Lexer.Config
import PredictiveParsing.Text.Span

/-!
# The cursor of a lexer

A cursor is a place in a text with its byte offset and, if tracked, its line and column. These are
numbers without a bound; `PredictiveParsing.Proofs.Lexer.Counters` tells for which texts 32 bits are
enough for them.
-/

namespace PredictiveParsing.Lexer

structure Cursor where
  offset : Nat
  position : LineCol
  rest : List Char
deriving DecidableEq, Repr

namespace Cursor

def start (text : List Char) : Cursor := ⟨0, .first, text⟩

def shown (cfg : LexerConfig) (p : LineCol) : Option LineCol :=
  if cfg.positionTracking = .offsetOnly then none else some p

/-- The position behind some characters, and that of the last of them, given the position of the
first and that of the last character read so far. A carriage return and the line feed after it end
one line. -/
def walk (terminators : List Char) (p last : LineCol) : List Char → LineCol × LineCol
  | [] => (p, last)
  | '\r' :: '\n' :: cs =>
    if terminators.contains '\r' then
      walk terminators ⟨p.line + 1, 1⟩ ⟨p.line, p.column + 1⟩ cs
    else walk terminators ⟨p.line, p.column + 1⟩ p ('\n' :: cs)
  | c :: cs =>
    if terminators.contains c then walk terminators ⟨p.line + 1, 1⟩ p cs
    else walk terminators ⟨p.line, p.column + 1⟩ p cs

/-- Moves over an image, behind which `rest` is left. The second result is the position of the last
character. Without line breaks only the column moves. -/
def advance (cfg : LexerConfig) (cur : Cursor) (image rest : List Char) (lineBreaks : Bool) :
    Cursor × Option LineCol :=
  let offset := cur.offset + Text.byteLength image
  if cfg.positionTracking = .offsetOnly then (⟨offset, cur.position, rest⟩, none)
  else if lineBreaks then
    let (p, last) := walk cfg.lineTerminators cur.position cur.position image
    (⟨offset, p, rest⟩, some last)
  else
    let p : LineCol := ⟨cur.position.line, cur.position.column + image.length⟩
    (⟨offset, p, rest⟩, some ⟨p.line, p.column - 1⟩)

@[simp] theorem rest_advance (cfg : LexerConfig) (cur : Cursor) (image rest : List Char)
    (lineBreaks : Bool) : (advance cfg cur image rest lineBreaks).1.rest = rest := by
  unfold advance
  split
  · rfl
  · split <;> rfl

end Cursor

end PredictiveParsing.Lexer
