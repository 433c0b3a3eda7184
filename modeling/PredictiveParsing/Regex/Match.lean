import PredictiveParsing.Regex.Thread

/-!
# Matching

A match starts at a fixed place and sees no text before it. All ways through the expression are
followed at once, one character after the other: earlier branches are preferred to later ones, and
another copy to leaving a greedy repetition. What is preferred less than a match is given up.

Some conditions hang on the next character. Threads wait at them until it is known, and if one of
them is let through then, all threads are explored once more from where they stand. Beyond ASCII a
word cannot be told by the next byte. If such a character is met while Unicode words are asked for,
the match starts again, and conditions are decided as soon as they are met.
-/

namespace PredictiveParsing.Regex

structure Place where
  before : Option Char
  after : Option Char
deriving DecidableEq, Repr

def isWordChar (ascii : Bool) : Option Char → Bool
  | none => false
  | some c => (if ascii then asciiWordSet else CharSet.word).contains c

namespace Look

def holds (p : Place) : Look → Bool
  | .textStart => p.before.isNone
  | .textEnd => p.after.isNone
  | .lineStart => p.before.isNone || p.before == some '\n'
  | .lineEnd => p.after.isNone || p.after == some '\n'
  | .anyLineStart =>
    p.before.isNone || p.before == some '\n' || (p.before == some '\r' && p.after != some '\n')
  | .anyLineEnd =>
    p.after.isNone || p.after == some '\r' || (p.after == some '\n' && p.before != some '\r')
  | .wordBoundary ascii => isWordChar ascii p.before != isWordChar ascii p.after
  | .notWordBoundary ascii => isWordChar ascii p.before == isWordChar ascii p.after
  | .wordStart ascii => !isWordChar ascii p.before && isWordChar ascii p.after
  | .wordEnd ascii => isWordChar ascii p.before && !isWordChar ascii p.after
  | .wordStartHalf ascii => !isWordChar ascii p.before
  | .wordEndHalf ascii => !isWordChar ascii p.after

/-- Whether the condition holds whatever comes next. -/
def isSettled (before : Option Char) : Look → Bool
  | .textStart => before.isNone
  | .lineStart => before.isNone || before == some '\n'
  | .anyLineStart => before.isNone || before == some '\n'
  | .wordStartHalf ascii => !isWordChar ascii before
  | _ => false

def isUnicodeWord : Look → Bool
  | .wordBoundary ascii => !ascii
  | .notWordBoundary ascii => !ascii
  | .wordStart ascii => !ascii
  | .wordEnd ascii => !ascii
  | .wordStartHalf ascii => !ascii
  | .wordEndHalf ascii => !ascii
  | _ => false

end Look

def asksForWords : Regex → Bool
  | .look condition => condition.isUnicodeWord
  | .seq a b => asksForWords a || asksForWords b
  | .alt a b => asksForWords a || asksForWords b
  | .copies body _ _ _ => asksForWords body
  | .group _ body => asksForWords body
  | _ => false

/-- When a thread gets past a condition. -/
inductive Mode where
  /-- As soon as it is met. -/
  | atOnce
  /-- When the next character is known. With `asciiOnly`, that has to be in ASCII. -/
  | waiting (asciiOnly : Bool)
deriving DecidableEq, Repr

def threadsAt (mode : Mode) (bound : Nat) (p : Place) (ts : List Thread) : List Thread :=
  match mode with
  | .atOnce => explore bound (Look.holds p) ts
  | .waiting _ =>
    let waiting := explore bound (Look.isSettled p.before) ts
    let isReleased (t : Thread) : Bool := t.condition?.any fun (condition, _) =>
      condition.holds p && !condition.isSettled p.before
    if waiting.any isReleased then explore bound (Look.holds p) waiting else waiting

/-- Follows threads through a text. `consumed` counts bytes, `atMatch` tells whether there was a
match at the place before, and `found` is the preferred match so far. The outer result is missing
where the mode does not allow the next character. -/
def follow (mode : Mode) (bound : Nat) (ts : List Thread) (before : Option Char) (consumed : Nat)
    (atMatch : Bool) (found : Option Nat) : List Char → Option (Option Nat)
  | [] =>
    let here := threadsAt mode bound ⟨before, none⟩ ts
    some (if here.any List.isEmpty then some consumed else found)
  | c :: text =>
    let here := threadsAt mode bound ⟨before, some c⟩ ts
    if here.isEmpty && !atMatch then some found
    else if mode == .waiting true && 0x80 ≤ c.toNat then none
    else
      let isMatch := here.any List.isEmpty
      let found := if isMatch then some consumed else found
      let next := (here.takeWhile fun t => !t.isEmpty).filterMap (Thread.read? c)
      follow mode bound next (some c) (consumed + c.utf8Size) isMatch found text

def match? (r : Regex) (text : List Char) : Option Nat :=
  let start (mode : Mode) :=
    follow mode r.explorationBound [[.expression r 0]] none 0 false none text
  match start (.waiting r.asksForWords) with
  | some found => found
  | none => (start .atOnce).getD none

end PredictiveParsing.Regex
