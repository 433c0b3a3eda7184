import PredictiveParsing.Grammar.First

/-!
# What remains to be parsed

A continuation is a list of segments that are parsed one after the other.
-/

namespace PredictiveParsing

inductive Segment where
  | sequence (definition : List Production)
  /-- Any number of further iterations, each after a separator if there is one. -/
  | again (definition : List Production) (separator : Option TypeId)
  | token (token : TypeId)
deriving Inhabited

abbrev Continuation := List Segment

namespace Segment

def size : Segment → Nat
  | .sequence definition => 1 + Production.sizeAll definition
  | .again definition _ => 2 + Production.sizeAll definition
  | .token _ => 1

end Segment

namespace FirstSets

/-- The tokens that can come next, and whether there can be none. -/
def firstOfContinuation (fs : FirstSets) : Continuation → TokenSet × Bool
  | [] => (.empty, true)
  | .token token :: _ => (TokenSet.empty.insert token, false)
  | .sequence definition :: rest =>
    if fs.nullableAll definition then
      let (later, empty) := firstOfContinuation fs rest
      ((fs.firstOf definition).union later, empty)
    else (fs.firstOf definition, false)
  | .again definition separator :: rest =>
    let (later, empty) := firstOfContinuation fs rest
    match separator with
    | some s => (later.insert s, empty)
    | none => ((fs.firstOf definition).union later, empty)

def follow (fs : FirstSets) (v : Vocabulary) (rest : Continuation) : TokenSet :=
  (fs.firstOfContinuation rest).1.withSubtypes v

end FirstSets

end PredictiveParsing
