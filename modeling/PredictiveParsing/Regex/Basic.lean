import PredictiveParsing.Text.CharSet

/-!
# Regular expressions

The expressions that token patterns are written in, after names, flags and escapes are gone. A
sequence and a choice of more than two parts lean to the right.
-/

namespace PredictiveParsing

/-- A condition on the place between two characters. Word conditions come in an ASCII form too. -/
inductive Regex.Look where
  | textStart
  | textEnd
  | lineStart
  | lineEnd
  /-- Lines may also end with a carriage return, or with one and a line feed. -/
  | anyLineStart
  | anyLineEnd
  | wordBoundary (ascii : Bool)
  | notWordBoundary (ascii : Bool)
  | wordStart (ascii : Bool)
  | wordEnd (ascii : Bool)
  /-- No word character before the place. -/
  | wordStartHalf (ascii : Bool)
  /-- No word character behind the place. -/
  | wordEndHalf (ascii : Bool)
deriving DecidableEq, Repr

inductive Regex where
  | empty
  | look (condition : Regex.Look)
  | literal (text : List Char)
  /-- One character of a set, which may be empty. Sets written where only ASCII is wanted are told
  apart from others. -/
  | chars (ascii : Bool) (set : CharSet)
  | seq (first second : Regex)
  | alt (first second : Regex)
  /-- `least` or more copies, at most `most` if there is such a bound. -/
  | copies (body : Regex) (least : Nat) (most : Option Nat) (greedy : Bool)
  /-- A numbered group. -/
  | group (index : Nat) (body : Regex)
deriving DecidableEq, Repr, Inhabited

namespace Regex

/-- The parts of a sequence. Another expression is its own only part, the empty one has none. -/
def parts : Regex → List Regex
  | .empty => []
  | .seq a b => a :: parts b
  | r => [r]

def branches : Regex → List Regex
  | .alt a b => a :: branches b
  | r => [r]

def size : Regex → Nat
  | .seq a b => size a + size b + 1
  | .alt a b => size a + size b + 1
  | .copies body _ _ _ => size body + 1
  | .group _ body => size body + 1
  | _ => 1

/-- The least length of a match. An expression without one is thought unable to match. -/
def minLength? : Regex → Option Nat
  | .empty => some 0
  | .look _ => some 0
  | .literal text => some text.length
  | .chars _ set => if set.isEmpty then none else some 1
  | .seq a b => do return (← minLength? a) + (← minLength? b)
  | .alt a b => do return min (← minLength? a) (← minLength? b)
  | .copies body least _ _ => (minLength? body).map (least * ·)
  | .group _ body => minLength? body

def maxLength? : Regex → Option Nat
  | .empty => some 0
  | .look _ => some 0
  | .literal text => some text.length
  | .chars _ set => if set.isEmpty then none else some 1
  | .seq a b => do return (← maxLength? a) + (← maxLength? b)
  | .alt a b => do return max (← maxLength? a) (← maxLength? b)
  | .copies body _ most _ => do return (← most) * (← maxLength? body)
  | .group _ body => maxLength? body

def alwaysReads (r : Regex) : Bool := r.minLength?.any (0 < ·)

def readsNothing (r : Regex) : Bool := r.maxLength? == some 0

end Regex

end PredictiveParsing
