import PredictiveParsing.Pattern.Library
import PredictiveParsing.Text.Utf8

/-!
# What a regular expression can match

Facts read off the tree without a text: which characters a match can start with, and whether it can
contain one of some characters. A look-around counts as empty.
-/

namespace PredictiveParsing

namespace ByteRange

def isAscii (r : ByteRange) : Bool := r.last < 0x80

def chars (r : ByteRange) : CharRange := ⟨Char.ofNat r.first.toNat, Char.ofNat r.last.toNat⟩

def containsAscii (r : ByteRange) (c : Char) : Bool :=
  c.toNat < 0x80 && r.first.toNat ≤ c.toNat && c.toNat ≤ r.last.toNat

end ByteRange

namespace RegexTree

mutual

/-- The characters that a match can start with, and whether the expression can be skipped. There is
no answer where a match can start with a part of a character. -/
def firstChars? : RegexTree → Option (Bool × CharSet)
  | .empty => some (true, [])
  | .look => some (true, [])
  | .literal bytes => (Text.firstChar? bytes).map fun c => (false, .single c)
  | .charClass set => some (false, set)
  | .byteClass ranges =>
    if ranges.all ByteRange.isAscii then some (false, ranges.map ByteRange.chars) else none
  | .repetition least _ body =>
    (firstChars? body).map fun (skips, set) => (skips || least == 0, set)
  | .capture body => firstChars? body
  | .concat parts => firstOfParts? parts
  | .alternation branches => firstOfBranches? branches

/-- Parts behind one that cannot be skipped do not count. -/
def firstOfParts? : List RegexTree → Option (Bool × CharSet)
  | [] => some (true, [])
  | part :: parts => do
    let (skips, set) ← firstChars? part
    if skips then
      let (skips, more) ← firstOfParts? parts
      return (skips, set ++ more)
    else return (false, set)

def firstOfBranches? : List RegexTree → Option (Bool × CharSet)
  | [] => some (false, [])
  | branch :: branches => do
    let (skips, set) ← firstChars? branch
    let (skipsMore, more) ← firstOfBranches? branches
    return (skips || skipsMore, set ++ more)

end

mutual

def canContain (cs : List Char) : RegexTree → Bool
  | .empty => false
  | .look => false
  | .literal bytes => (Text.decode bytes).any cs.contains
  | .charClass set => set.any fun r => cs.any r.contains
  | .byteClass ranges => ranges.any fun r => cs.any r.containsAscii
  | .repetition _ _ body => canContain cs body
  | .capture body => canContain cs body
  | .concat parts => oneCanContain cs parts
  | .alternation branches => oneCanContain cs branches

def oneCanContain (cs : List Char) : List RegexTree → Bool
  | [] => false
  | t :: ts => canContain cs t || oneCanContain cs ts

end

end RegexTree

end PredictiveParsing
