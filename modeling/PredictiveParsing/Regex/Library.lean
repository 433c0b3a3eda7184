import PredictiveParsing.Pattern.Library
import PredictiveParsing.Regex.ByteAutomaton
import PredictiveParsing.Regex.Match
import PredictiveParsing.Regex.Reader
import PredictiveParsing.Text.Utf8

/-!
# A library to run with

Reader, matcher and measure make up a library of regular expressions. It searches a text at its start
only and compiles no expression that could match elsewhere. Classes that are named by a property of
characters (`\p`, `\P`) are not read, and what is wrong with a malformed expression is not told.
-/

namespace PredictiveParsing

namespace CharRange

def isAscii (r : CharRange) : Bool := r.first.toNat < 0x80 && r.last.toNat < 0x80

def bytes (r : CharRange) : ByteRange := ⟨r.first.toNat.toUInt8, r.last.toNat.toUInt8⟩

end CharRange

namespace RegexTree

mutual

/-- An expression with a class that is empty may have no least length, even if it matches without
the class. -/
def minLength? : RegexTree → Option Nat
  | .empty => some 0
  | .look => some 0
  | .literal bytes => some bytes.length
  | .charClass set => (set.map fun r => r.first.utf8Size).min?
  | .byteClass ranges => if ranges.isEmpty then none else some 1
  | .repetition least _ body => (minLength? body).map (least * ·)
  | .capture body => minLength? body
  | .concat parts => minLengthOfParts? parts
  | .alternation branches => minLengthOfBranches? branches

def minLengthOfParts? : List RegexTree → Option Nat
  | [] => some 0
  | part :: parts => do return (← minLength? part) + (← minLengthOfParts? parts)

def minLengthOfBranches? : List RegexTree → Option Nat
  | [] => none
  | [branch] => minLength? branch
  | branch :: branches => do return min (← minLength? branch) (← minLengthOfBranches? branches)

end

def andThen (first : RegexTree) : RegexTree → RegexTree
  | .concat parts => .concat (first :: parts)
  | second => .concat [first, second]

def orElse (first : RegexTree) : RegexTree → RegexTree
  | .alternation branches => .alternation (first :: branches)
  | second => .alternation [first, second]

/-- One character of a set, as a class of bytes where only ASCII is wanted. -/
def ofSet (ascii : Bool) (set : CharSet) : RegexTree :=
  if ascii && List.all set CharRange.isAscii then .byteClass (set.map CharRange.bytes)
  else .charClass set

end RegexTree

namespace Regex

def toTree : Regex → RegexTree
  | .empty => .empty
  | .look _ => .look
  | .literal text => .literal (Text.utf8 text)
  | .chars ascii set => .ofSet ascii set
  | .seq a b => (toTree a).andThen (toTree b)
  | .alt a b => (toTree a).orElse (toTree b)
  | .copies body least most _ => .repetition least most (toTree body)
  | .group _ body => .capture (toTree body)

def isAnchored : Regex → Bool
  | .look .textStart => true
  | .seq (.look .textStart) _ => true
  | _ => false

def findAtStart (r : Regex) (text : List Char) : Option FoundSpan :=
  (r.match? text).map fun stop => (0, stop)

instance library : RegexLibrary where
  parse? source := (read? source).map toTree
  minLength? := RegexTree.minLength?
  compile? source := do
    let r ← read? source
    if r.isAnchored && r.fitsMemory then some r.findAtStart else none

end Regex

end PredictiveParsing
