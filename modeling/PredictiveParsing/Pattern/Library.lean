import PredictiveParsing.Text.ByteRange
import PredictiveParsing.Text.CharSet

/-!
# Libraries of regular expressions

Regular expressions are read, measured and searched for by a library, which is a parameter of all
that is built from them. Of its syntax trees no more is kept than the analysis of a pattern looks
at: which condition a look-around asks for, whether a repetition is greedy and how a group is called
do not matter there. The texts of its complaints are left out too.
-/

namespace PredictiveParsing

/-- A regular expression as a library reads it. A literal and a class of bytes may hold parts of
characters. -/
inductive RegexTree where
  | empty
  | look
  | literal (bytes : List UInt8)
  | charClass (set : CharSet)
  | byteClass (ranges : List ByteRange)
  /-- `least` or more copies, at most `most` if there is such a bound. -/
  | repetition (least : Nat) (most : Option Nat) (body : RegexTree)
  | capture (body : RegexTree)
  | concat (parts : List RegexTree)
  | alternation (branches : List RegexTree)
deriving Inhabited

abbrev FoundSpan := Nat × Nat

class RegexLibrary where
  /-- Reads the notation of an expression. -/
  parse? : String → Option RegexTree
  /-- The least length of a match in bytes. Nothing is known of some expressions. -/
  minLength? : RegexTree → Option Nat
  /-- Compiles an expression to a search for its first match in a text. What takes too much memory
  is refused. -/
  compile? : String → Option (List Char → Option FoundSpan)

/-- An expression as a group that has to match at the start of a text. -/
def RegexLibrary.atStart (source : String) : String := "\\A(?:" ++ source ++ ")"

end PredictiveParsing
