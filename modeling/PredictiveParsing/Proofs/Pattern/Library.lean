import PredictiveParsing.Pattern.Library
import PredictiveParsing.Text.Bytes
import PredictiveParsing.Text.Utf8

/-!
# What is relied on of a library

An expression matches the bytes that its tree is composed of, whatever is around them: a look-around
consumes nothing. A search that prefers earlier starts and earlier branches finds one of these
matches, and that it finds no others is all that is asked of it.
-/

namespace PredictiveParsing

namespace RegexTree

inductive Matches : RegexTree → List UInt8 → Prop
  | empty : Matches .empty []
  | look : Matches .look []
  | literal {bytes : List UInt8} : Matches (.literal bytes) bytes
  | charClass {set : CharSet} {c : Char} (h : set.contains c = true) :
    Matches (.charClass set) (String.utf8EncodeChar c)
  | byteClass {ranges : List ByteRange} {r : ByteRange} {b : UInt8} (hRange : r ∈ ranges)
    (hFirst : r.first ≤ b) (hLast : b ≤ r.last) : Matches (.byteClass ranges) [b]
  | noCopy {most : Option Nat} {body : RegexTree} : Matches (.repetition 0 most body) []
  /-- One copy that is required or allowed, and what is then left of the repetition. -/
  | copy {least : Nat} {most : Option Nat} {body : RegexTree} {u w : List UInt8}
    (hBound : 0 < least ∨ most ≠ some 0) (hFirst : Matches body u)
    (hFurther : Matches (.repetition (least - 1) (most.map (· - 1)) body) w) :
    Matches (.repetition least most body) (u ++ w)
  | capture {body : RegexTree} {w : List UInt8} (h : Matches body w) : Matches (.capture body) w
  | noPart : Matches (.concat []) []
  | part {t : RegexTree} {ts : List RegexTree} {u w : List UInt8} (hFirst : Matches t u)
    (hRest : Matches (.concat ts) w) : Matches (.concat (t :: ts)) (u ++ w)
  | branch {t : RegexTree} {ts : List RegexTree} {w : List UInt8} (hBranch : t ∈ ts)
    (h : Matches t w) : Matches (.alternation ts) w

mutual

/-- No literal and no class of bytes takes a character apart. -/
def isWhole : RegexTree → Bool
  | .empty => true
  | .look => true
  | .literal bytes => Text.utf8 (Text.decode bytes) == bytes
  | .charClass _ => true
  | .byteClass ranges => ranges.all fun r => r.last < 0x80
  | .repetition _ _ body => isWhole body
  | .capture body => isWhole body
  | .concat parts => areWhole parts
  | .alternation branches => areWhole branches

def areWhole : List RegexTree → Bool
  | [] => true
  | t :: ts => isWhole t && areWhole ts

end

end RegexTree

namespace RegexLibrary

/-- What the documentation of a library says of its answers, as far as it is relied on. -/
structure Lawful [RegexLibrary] : Prop where
  /-- Only what can be read is compiled. A search finds a match of the tree, which begins and ends
  where characters do. -/
  finds {source : String} {find : List Char → Option FoundSpan}
    (h : compile? source = some find) : ∃ tree, parse? source = some tree ∧
      ∀ text start stop, find text = some (start, stop) → ∃ front image behind,
        text = front ++ image ++ behind ∧ start = Text.byteLength front ∧
          stop = Text.byteLength (front ++ image) ∧ tree.Matches (Text.utf8 image)
  /-- The start of the text is required where it is asked for in front of an expression. -/
  starts {source : String} {tree : RegexTree} {find : List Char → Option FoundSpan}
    (h : parse? source = some tree) (hFind : compile? (atStart source) = some find)
    {text : List Char} {start stop : Nat} (hFound : find text = some (start, stop)) : start = 0
  /-- A group behind the start of the text matches what the expression in it does. -/
  groups {source : String} {tree grouped : RegexTree} (h : parse? source = some tree)
    (hGrouped : parse? (atStart source) = some grouped) {bytes : List UInt8}
    (hMatch : grouped.Matches bytes) : tree.Matches bytes
  /-- No match is shorter than the least length. -/
  bounds {tree : RegexTree} {n : Nat} (h : minLength? tree = some n) {bytes : List UInt8}
    (hMatch : tree.Matches bytes) : n ≤ bytes.length
  /-- Characters are not taken apart. -/
  whole {source : String} {tree : RegexTree} (h : parse? source = some tree) : tree.isWhole = true

variable [RegexLibrary] {source : String} {tree : RegexTree} {find : List Char → Option FoundSpan}
  {text : List Char} {start stop : Nat}

/-- What is found of an expression at the start of a text is a match of the expression by itself. -/
theorem Lawful.exists_matches (hLaws : Lawful) (hTree : parse? source = some tree)
    (hFind : compile? (atStart source) = some find) (h : find text = some (start, stop)) :
    ∃ image behind, text = image ++ behind ∧ stop = Text.byteLength image ∧
      tree.Matches (Text.utf8 image) := by
  obtain ⟨grouped, hGrouped, hFound⟩ := hLaws.finds hFind
  obtain ⟨front, image, behind, rfl, hStart, rfl, hMatch⟩ := hFound text start stop h
  have hFront : Text.byteLength front = 0 := hStart ▸ hLaws.starts hTree hFind h
  cases front with
  | nil => exact ⟨image, behind, rfl, rfl, hLaws.groups hTree hGrouped hMatch⟩
  | cons c cs => exact absurd hFront (Nat.ne_of_gt (Text.byteLength_pos (List.cons_ne_nil c cs)))

end RegexLibrary

end PredictiveParsing
