import PredictiveParsing.Vocabulary.TokenType
import PredictiveParsing.Pattern.Analysis
import PredictiveParsing.Text.Bytes

/-!
# Patterns of token types

A pattern compiles to a matcher, which tells how many bytes match at an offset, and to the facts a
lexer relies on.
-/

namespace PredictiveParsing

inductive FirstChars where
  | among (set : CharSet)
  /-- Nothing is known, so the pattern has to be tried everywhere. -/
  | any
deriving DecidableEq, Repr

structure PatternFacts where
  first : FirstChars
  nullable : Bool
  /-- Whether a match can contain a line terminator. -/
  lineBreaks : Bool
deriving DecidableEq, Repr

inductive Matcher where
  | literal (text : List Char)
  | regex (find : List Char → Option FoundSpan)
  | custom (pattern : CustomPattern)

inductive PatternError where
  | malformed
  /-- A category has nothing to match. -/
  | notMatchable
deriving DecidableEq, Repr

namespace Matcher

/-- The number of bytes that match at an offset, where `rest` is the text from there on. A custom
matcher's answer counts only if a character ends there. -/
def matchAt (m : Matcher) (text : List Char) (offset : Nat) (rest : List Char) : Option Nat :=
  match m with
  | .literal image => if image.isPrefixOf rest then some (Text.byteLength image) else none
  | .regex find => (find rest).map (·.2)
  | .custom pattern =>
    (pattern.matchAt text offset).filter fun n => (Text.splitBytes? n rest).isSome

end Matcher

namespace Pattern

def compileLiteral (terminators text : List Char) : Matcher × PatternFacts :=
  (.literal text,
    { first := match text with
        | [] => .any
        | c :: _ => .among (.single c)
      nullable := text.isEmpty
      lineBreaks := text.any terminators.contains })

variable [RegexLibrary]

/-- The facts are those of the expression by itself; what is searched for is the same expression at
the start of the text. Nullable is only what is known to be. -/
def compileRegex (terminators : List Char) (tree : RegexTree)
    (find : List Char → Option FoundSpan) : Matcher × PatternFacts :=
  (.regex find,
    { first := match tree.firstChars? with
        | some (_, set) => .among set
        | none => .any
      nullable := RegexLibrary.minLength? tree == some 0
      lineBreaks := tree.canContain terminators })

/-- Nothing is known of a custom pattern but the hint it comes with. -/
def compileCustom (pattern : CustomPattern) : Matcher × PatternFacts :=
  (.custom pattern,
    { first := match pattern.startChars with
        | some cs => .among (.ofChars cs)
        | none => .any
      nullable := false
      lineBreaks := false })

def compile (terminators : List Char) : Pattern → Except PatternError (Matcher × PatternFacts)
  | .literal text => .ok (compileLiteral terminators text.toList)
  | .regex source =>
    match RegexLibrary.parse? source, RegexLibrary.compile? (RegexLibrary.atStart source) with
    | some tree, some find => .ok (compileRegex terminators tree find)
    | _, _ => .error .malformed
  | .custom pattern => .ok (compileCustom pattern)
  | .category => .error .notMatchable

end Pattern

end PredictiveParsing
