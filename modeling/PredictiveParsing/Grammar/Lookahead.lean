import PredictiveParsing.Grammar.Continuation

/-!
# Lookahead paths

The sequences of token types that tell the alternatives of a decision apart. A path grows by one
token a round, and only as long as another alternative has a path for the same tokens.
-/

namespace PredictiveParsing

abbrev Path := List TypeId

/-- A path and what remains to be parsed behind it. -/
structure Partial where
  path : Path
  rest : Continuation

namespace Lookahead

def prepend (token : TypeId) (ps : List Partial) : List Partial :=
  ps.map fun p => { p with path := token :: p.path }

/-- All ways in which a continuation can go on for `room` tokens, or to its end. The first argument
bounds the number of steps along one way; the result is missing if it does not suffice. -/
def expand (rules : List Rule) : Nat → Nat → Continuation → Option (List Partial)
  | 0, _, _ => none
  | _ + 1, 0, rest => some [⟨[], rest⟩]
  | _ + 1, _ + 1, [] => some [⟨[], []⟩]
  | fuel + 1, room + 1, .token token :: rest =>
    (expand rules fuel room rest).map (prepend token)
  | fuel + 1, room + 1, .again definition separator :: rest => do
    let body := .sequence definition :: .again definition separator :: rest
    let enter := match separator with
      | some s => .token s :: body
      | none => body
    return (← expand rules fuel (room + 1) enter) ++ (← expand rules fuel (room + 1) rest)
  | fuel + 1, room + 1, .sequence [] :: rest => expand rules fuel (room + 1) rest
  | fuel + 1, room + 1, .sequence (p :: ps) :: rest => do
    let rest := if ps.isEmpty then rest else .sequence ps :: rest
    match p with
    | .terminal token _ => (expand rules fuel room rest).map (prepend token)
    | .nonTerminal _ none _ => expand rules fuel (room + 1) rest
    | .nonTerminal _ (some target) _ =>
      expand rules fuel (room + 1) (.sequence (definitionOf rules target) :: rest)
    | .option definition _ =>
      return (← expand rules fuel (room + 1) (.sequence definition :: rest)) ++
        (← expand rules fuel (room + 1) rest)
    | .repetition true separator definition _ =>
      expand rules fuel (room + 1) (.sequence definition :: .again definition separator :: rest)
    | .repetition false none definition _ =>
      expand rules fuel (room + 1) (.again definition none :: rest)
    | .repetition false (some s) definition _ =>
      return (← expand rules fuel (room + 1)
          (.sequence definition :: .again definition (some s) :: rest)) ++
        (← expand rules fuel (room + 1) rest)
    | .alternation alternatives _ =>
      return (← alternatives.mapM fun a =>
        expand rules fuel (room + 1) (.sequence a.definition :: rest)).flatten

def largest (rules : List Rule) : Nat :=
  (rules.map fun r => Production.sizeAll r.definition).foldl max 0

/-- More steps than any way takes for `room` tokens if no rule reaches itself and no iteration ends
before a token is consumed: nested definitions without a token are no deeper than there are
rules. -/
def stepBound (rules : List Rule) (room : Nat) (rest : Continuation) : Nat :=
  let nested := Nat.pow (2 * largest rules + 4) (rules.length + 2)
  let size := (rest.map Segment.size).foldl (· + ·) 0
  (room + 1) * (size + 2 + (room + 1) * nested) * nested

def expand? (rules : List Rule) (room : Nat) (rest : Continuation) : Option (List Partial) :=
  expand rules (stepBound rules room rest) room rest

def shareMember (v : Vocabulary) (a b : TypeId) : Bool :=
  (v.members a).any (v.members b).contains

def overlap (v : Vocabulary) : Path → Path → Bool
  | [], [] => true
  | a :: as, b :: bs => shareMember v a b && overlap v as bs
  | _, _ => false

/-- Whether no alternative but that of the given index has a path for the same tokens. -/
def isUnique (v : Vocabulary) (partials : List (List Partial)) (index : Nat) (path : Path) :
    Bool :=
  partials.zipIdx.all fun (ps, other) => other == index || ps.all fun q => !overlap v path q.path

structure Found where
  paths : List Path
  growing : List Partial

/-- A path is final if it is unique, ends its alternative, or has the largest length. -/
def settle (v : Vocabulary) (rules : List Rule) (k : Nat) (partials : List (List Partial))
    (index : Nat) (found : Found) (p : Partial) : Option Found :=
  if isUnique v partials index p.path || p.rest.isEmpty || k ≤ p.path.length then
    some { found with paths :=
      if found.paths.contains p.path then found.paths else found.paths ++ [p.path] }
  else
    (expand? rules 1 p.rest).map fun longer =>
      { found with growing :=
        found.growing ++ longer.map fun q => { q with path := p.path ++ q.path } }

/-- One round for all alternatives, each of which looks at the others' paths before the round. -/
def round (v : Vocabulary) (rules : List Rule) (k : Nat) (found : List Found) :
    Option (List Found) :=
  let partials := found.map (·.growing)
  found.zipIdx.mapM fun (f, index) =>
    f.growing.foldlM (settle v rules k partials index) ⟨f.paths, []⟩

def rounds (v : Vocabulary) (rules : List Rule) (k : Nat) :
    Nat → List Found → Option (List Found)
  | 0, found => some found
  | n + 1, found =>
    if found.all (·.growing.isEmpty) then some found
    else do rounds v rules k n (← round v rules k found)

/-- The paths of each alternative, none longer than `k`, or than one token if `k` is zero. -/
def paths? (v : Vocabulary) (rules : List Rule) (k : Nat) (alternatives : List Continuation) :
    Option (List (List Path)) := do
  let start ← alternatives.mapM fun rest => (expand? rules 1 rest).map fun ps => Found.mk [] ps
  return (← rounds v rules k (max k 1) start).map (·.paths)

end Lookahead

end PredictiveParsing
