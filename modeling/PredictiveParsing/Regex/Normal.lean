import PredictiveParsing.Regex.Basic

/-!
# Normal forms of expressions

The functions below put expressions together and keep them in a normal form: neighbouring texts are
one text, choices between single characters are one set, and what all branches of a choice begin
with stands in front of it.
-/

namespace PredictiveParsing.Regex

def never : Regex := .chars false []

def ofSet (ascii : Bool) (set : CharSet) : Regex :=
  match set.normalize with
  | [] => never
  | [r] => if r.first = r.last then .literal [r.first] else .chars ascii [r]
  | s => .chars ascii s

def ofParts : List Regex → Regex
  | [] => .empty
  | [r] => r
  | r :: rs => .seq r (ofParts rs)

def ofBranches : List Regex → Regex
  | [] => never
  | [r] => r
  | r :: rs => .alt r (ofBranches rs)

def joinLiterals : List Regex → List Regex
  | [] => []
  | .literal s :: rs =>
    match joinLiterals rs with
    | .literal t :: rest => .literal (s ++ t) :: rest
    | rest => .literal s :: rest
  | r :: rs => r :: joinLiterals rs

def sequence (rs : List Regex) : Regex := ofParts (joinLiterals (rs.flatMap parts))

def singleChar? : Regex → Option Char
  | .literal [c] => some c
  | _ => none

def charSet? : Regex → Option CharSet
  | .chars _ s => some s
  | _ => none

def sequenceParts? : Regex → Option (List Regex)
  | .seq a b => some (a :: parts b)
  | _ => none

def commonStart : List Regex → List Regex → List Regex
  | x :: xs, y :: ys => if x = y then x :: commonStart xs ys else []
  | _, _ => []

def sharedStart : List (List Regex) → List Regex
  | [] => []
  | p :: ps => ps.foldl commonStart p

/-- A choice whose branches are not choices. The first argument bounds how often something is put
in front of it. -/
def choiceOf : Nat → List Regex → Regex
  | 0, rs => ofBranches rs
  | fuel + 1, rs =>
    match rs with
    | [] => never
    | [r] => r
    | rs =>
      match rs.mapM singleChar?, rs.mapM charSet?, rs.mapM sequenceParts? with
      | some cs, _, _ => ofSet false (.ofChars cs)
      | _, some sets, _ => ofSet false sets.flatten
      | _, _, some lists =>
        match sharedStart lists with
        | [] => ofBranches rs
        | start =>
          let rests := lists.map fun ps => sequence (ps.drop start.length)
          sequence (start ++ [choiceOf fuel (rests.flatMap branches)])
      | _, _, _ => ofBranches rs

def choice (rs : List Regex) : Regex :=
  choiceOf ((rs.map size).foldl (· + ·) 0 + 1) (rs.flatMap branches)

/-- A repetition. What reads nothing is repeated once at most; no copies are the empty expression,
and exactly one is the body itself. -/
def repetition (body : Regex) (least : Nat) (most : Option Nat) (greedy : Bool) : Regex :=
  let (least, most) : Nat × Option Nat :=
    if body.readsNothing then (min least 1, some (min (most.getD 1) 1)) else (least, most)
  if least = 0 ∧ most = some 0 then .empty
  else if least = 1 ∧ most = some 1 then body
  else .copies body least most greedy

end PredictiveParsing.Regex
