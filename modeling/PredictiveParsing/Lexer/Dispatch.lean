import PredictiveParsing.Pattern
import PredictiveParsing.Vocabulary.Basic

/-!
# Dispatch on the first character

A table lists for each bucket of characters the types whose matches can start with one of them, in
the order of declaration. Each ASCII character has a bucket of its own; any other bucket covers
1024 code points.
-/

namespace PredictiveParsing

structure DispatchTable where
  buckets : Array (List TypeId)
deriving Inhabited

namespace DispatchTable

def asciiBuckets : Nat := 128

def bucket (c : Char) : Nat :=
  if c.toNat < asciiBuckets then c.toNat else asciiBuckets + c.toNat / 1024

def bucketCount : Nat := asciiBuckets + 0x10FFFF / 1024 + 1

def reaches (set : CharSet) (b : Nat) : Bool :=
  set.any fun r => bucket r.first ≤ b && b ≤ bucket r.last

/-- The candidates of a bucket. A type is not repeated right after itself, unless nothing is known
of its first characters. -/
def candidatesIn (types : List (TypeId × FirstChars)) (b : Nat) : List TypeId :=
  types.foldl (fun found (id, first) =>
    match first with
    | .any => found ++ [id]
    | .among set =>
      if reaches set b && found.getLast? != some id then found ++ [id] else found) []

def build (types : List (TypeId × FirstChars)) : DispatchTable :=
  ⟨(Array.range bucketCount).map (candidatesIn types)⟩

def candidates (t : DispatchTable) (c : Char) : List TypeId := (t.buckets[bucket c]?).getD []

end DispatchTable

end PredictiveParsing
