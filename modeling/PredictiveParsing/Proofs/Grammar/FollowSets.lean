import PredictiveParsing.Proofs.Grammar.Follow

/-!
# Sets of what can follow

Sets of the kinds that can follow each rule, given from outside, are large enough if they are closed
under calls. With such sets it can be computed that one token decides at every place.
-/

namespace PredictiveParsing

abbrev FollowSets := List TokenSet

namespace FollowSets

variable (follows : FollowSets) (v : Vocabulary) (fs : FirstSets)

def ofRule (r : RuleId) : TokenSet := follows.getD r .empty

def behind (r : RuleId) (after : Continuation) : TokenSet :=
  if (fs.firstOfContinuation after).2 then (fs.follow v after).union (follows.ofRule r)
  else fs.follow v after

def begins (ps : List Production) : TokenSet := fs.follow v [.sequence ps]

def areDisjoint (s t : TokenSet) : Bool := s.toList.all fun kind => !t.contains kind

/-- No two alternatives share a first kind, and if the last one can be empty, none of the others
begins with what follows. -/
def tellsApart (next : TokenSet) (alternatives : List (Alternative Production)) : Bool :=
  let firsts := alternatives.map fun a => begins v fs a.definition
  decide (firsts.Pairwise fun s t => areDisjoint s t = true) &&
    (!alternatives.getLast?.any (fun a => fs.nullableAll a.definition) ||
      firsts.dropLast.all (areDisjoint · next))

/-- Whether the sets are closed at a place, and tell what to do there by one token. -/
def checkSite (r : RuleId) : Site → Bool
  | ⟨.terminal _ _, _⟩ => true
  | ⟨.nonTerminal _ none _, _⟩ => true
  | ⟨.nonTerminal _ (some callee) _, after⟩ =>
    (follows.behind v fs r after).toList.all (follows.ofRule callee).contains
  | ⟨.option definition _, after⟩ =>
    areDisjoint (begins v fs definition) (follows.behind v fs r after)
  | ⟨.repetition _ separator definition _, after⟩ =>
    areDisjoint (begins v fs definition) (follows.behind v fs r after) &&
      separator.all fun s => (v.members s).all fun kind => !(follows.behind v fs r after).contains kind
  | ⟨.alternation alternatives _, after⟩ =>
    tellsApart v fs (follows.behind v fs r after) alternatives

def check (rules : List Rule) (start : RuleId) : Bool :=
  (follows.ofRule start).contains Vocabulary.eof &&
    (Analysis.sites rules).all fun (r, site) => follows.checkSite v (.ofRules rules) r site

end FollowSets

namespace FollowSets

variable {follows : FollowSets} {v : Vocabulary} {fs : FirstSets} {rules : List Rule}
  {start r : RuleId} {after : Continuation} {kind : TypeId} {site : Site}

section Closed

variable (hSolid : AreSolid rules) (h : follows.check v rules start = true)

include h

include hSolid

end Closed

section Alternatives

variable {next : TokenSet} {alternatives : List (Alternative Production)}
  {a b : Alternative Production} {m n : Nat}

end Alternatives

end FollowSets

end PredictiveParsing
