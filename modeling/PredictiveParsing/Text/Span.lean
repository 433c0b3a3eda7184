import PredictiveParsing.Text.Bytes

/-!
# Spans and positions

A span is a range of byte offsets. A position is a line and a column, both counted from one;
columns count characters.
-/

namespace PredictiveParsing

/-- The bytes from `start` up to, not including, `stop`. -/
structure Span where
  start : Nat
  stop : Nat
deriving DecidableEq, Repr, Inhabited

namespace Span

def point (offset : Nat) : Span := ⟨offset, offset⟩

def isEmpty (s : Span) : Bool := s.stop ≤ s.start

def length (s : Span) : Nat := s.stop - s.start

def display (s : Span) : String := toString s.start ++ ".." ++ toString s.stop

def text? (s : Span) (text : List Char) : Option (List Char) := Text.slice? text s.start s.stop

end Span

structure LineCol where
  line : Nat
  column : Nat
deriving DecidableEq, Repr, Inhabited

namespace LineCol

def first : LineCol := ⟨1, 1⟩

def display (p : LineCol) : String := toString p.line ++ ":" ++ toString p.column

/-- The position after reading one more character, where only a line feed ends a line. -/
def next (p : LineCol) (c : Char) : LineCol :=
  if c = '\n' then ⟨p.line + 1, 1⟩ else ⟨p.line, p.column + 1⟩

/-- The position of a byte offset. An offset past the end stands for the end. -/
def ofOffset (text : List Char) (offset : Nat) : LineCol :=
  go first offset text
where
  go (p : LineCol) : Nat → List Char → LineCol
    | _, [] => p
    | offset, c :: cs => if offset < c.utf8Size then p else go (p.next c) (offset - c.utf8Size) cs

end LineCol

end PredictiveParsing
