/-!
# Sets of characters as ranges

A set is a list of inclusive ranges, in any order and possibly overlapping. `normalize` brings
it into the one form in which ranges ascend and no two of them overlap or touch; U+D7FF and U+E000
are neighbours, since no character lies between them.
-/

namespace PredictiveParsing

structure CharRange where
  first : Char
  last : Char
deriving DecidableEq, Repr

namespace CharRange

def contains (r : CharRange) (c : Char) : Bool := r.first ≤ c && c ≤ r.last

def single (c : Char) : CharRange := ⟨c, c⟩

end CharRange

abbrev CharSet := List CharRange

namespace CharSet

def maxChar : Char := Char.ofNat 0x10FFFF

def next? (c : Char) : Option Char :=
  if c.toNat = 0xD7FF then some (Char.ofNat 0xE000)
  else if c.toNat < 0x10FFFF then some (Char.ofNat (c.toNat + 1))
  else none

/-- The character before `c`; the first character stands for its own predecessor. -/
def previous (c : Char) : Char :=
  if c.toNat = 0xE000 then Char.ofNat 0xD7FF else Char.ofNat (c.toNat - 1)

def contains (s : CharSet) (c : Char) : Bool := s.any (·.contains c)

def all : CharSet := [⟨Char.ofNat 0, maxChar⟩]

def single (c : Char) : CharSet := [CharRange.single c]

def ofChars (cs : List Char) : CharSet := cs.map CharRange.single

def ofCodePoints (ranges : List (Nat × Nat)) : CharSet :=
  ranges.map fun (lo, hi) => ⟨Char.ofNat lo, Char.ofNat hi⟩

def joins (r q : CharRange) : Bool :=
  q.first ≤ r.last || next? r.last == some q.first

/-- Puts a range in front of an ascending list and merges what it meets. -/
def merge (r : CharRange) : CharSet → CharSet
  | [] => [r]
  | q :: rest =>
    if joins r q then merge ⟨r.first, if r.last ≤ q.last then q.last else r.last⟩ rest
    else r :: q :: rest

def normalize (s : CharSet) : CharSet :=
  ((s.filter fun r => r.first ≤ r.last).mergeSort fun r q => r.first ≤ q.first).foldr merge []

def gapsFrom : Option Char → CharSet → CharSet
  | none, _ => []
  | some c, [] => [⟨c, maxChar⟩]
  | some c, r :: rest =>
    (if c < r.first then [⟨c, previous r.first⟩] else []) ++ gapsFrom (next? r.last) rest

def complement (s : CharSet) : CharSet := gapsFrom (some (Char.ofNat 0)) s.normalize

def union (s t : CharSet) : CharSet := s ++ t

def inter (s t : CharSet) : CharSet :=
  s.flatMap fun r => t.filterMap fun q =>
    let lo := if r.first ≤ q.first then q.first else r.first
    let hi := if r.last ≤ q.last then r.last else q.last
    if lo ≤ hi then some ⟨lo, hi⟩ else none

def diff (s t : CharSet) : CharSet := s.inter t.complement

end CharSet

end PredictiveParsing
