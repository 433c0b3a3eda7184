import PredictiveParsing.Proofs.Grammar.Reads
import PredictiveParsing.Proofs.Grammar.Sites

/-!
# What can follow

The tokens that can come behind a place of a rule in a text of the start rule, the end of the text
among them, and the conditions under which one token is enough to decide at every place. All of it
is told by derivations, without the sets that the analysis computes.
-/

namespace PredictiveParsing

inductive Reachable (rules : List Rule) (start : RuleId) : RuleId → Prop
  | start : Reachable rules start start
  | call {caller callee : RuleId} {name : String} {occurrence : Nat} {after : Continuation}
      (hCaller : Reachable rules start caller)
      (hSite : (caller, ⟨.nonTerminal name (some callee) occurrence, after⟩) ∈
        Analysis.sites rules) : Reachable rules start callee

/-- The kinds of tokens that can come behind a rule. -/
inductive FollowsRule (rules : List Rule) (v : Vocabulary) (start : RuleId) :
    RuleId → TypeId → Prop
  | atEnd : FollowsRule rules v start start Vocabulary.eof
  | begins {caller callee : RuleId} {name : String} {occurrence : Nat} {after : Continuation}
      {kind : TypeId} (hCaller : Reachable rules start caller)
      (hSite : (caller, ⟨.nonTerminal name (some callee) occurrence, after⟩) ∈
        Analysis.sites rules)
      (h : BeginsWith rules v after kind) : FollowsRule rules v start callee kind
  | passed {caller callee : RuleId} {name : String} {occurrence : Nat} {after : Continuation}
      {kind : TypeId} (hCaller : Reachable rules start caller)
      (hSite : (caller, ⟨.nonTerminal name (some callee) occurrence, after⟩) ∈
        Analysis.sites rules)
      (hNull : Nullable rules after) (h : FollowsRule rules v start caller kind) :
      FollowsRule rules v start callee kind

/-- The kinds of tokens that can come behind a place, given what is behind it in its rule. -/
def Follows (rules : List Rule) (v : Vocabulary) (start r : RuleId) (after : Continuation)
    (kind : TypeId) : Prop :=
  BeginsWith rules v after kind ∨ Nullable rules after ∧ FollowsRule rules v start r kind

/-- What comes behind a rule that is being parsed: all that remains of the rules around it. -/
structure FollowedBy (rules : List Rule) (v : Vocabulary) (start r : RuleId)
    (outer : Continuation) : Prop where
  reachable : Reachable rules start r
  follows : ∀ {xs}, Derives rules v outer xs → FollowsRule rules v start r (headKind xs)

section

variable {rules : List Rule} {v : Vocabulary} {start r : RuleId} {outer after : Continuation}
  {xs : List Token}

namespace FollowedBy

variable (h : FollowedBy rules v start r outer)

include h

theorem follows_after (hDerives : Derives rules v (after ++ outer) xs) :
    Follows rules v start r after (headKind xs) := by
  by_cases hBegins : BeginsWith rules v after (headKind xs)
  · exact .inl hBegins
  · obtain ⟨n, hReads⟩ := Derives.reads hDerives
    obtain ⟨hNull, hOuter⟩ := hReads.skip hBegins
    exact .inr ⟨hNull, h.follows hOuter.derives⟩

theorem call {name : String} {callee : RuleId} {occurrence : Nat}
    (hSite : (r, ⟨.nonTerminal name (some callee) occurrence, after⟩) ∈ Analysis.sites rules) :
    FollowedBy rules v start callee (after ++ outer) := by
  refine ⟨.call h.reachable hSite, fun {xs} hDerives => ?_⟩
  rcases h.follows_after hDerives with hBegins | ⟨hNull, hFollows⟩
  · exact .begins h.reachable hSite hBegins
  · exact .passed h.reachable hSite hNull hFollows

end FollowedBy

end

namespace Grammar

variable {α : Type}

def Begins (g : Grammar α) (ps : List Production) (kind : TypeId) : Prop :=
  BeginsWith g.rules g.vocabulary [.sequence ps] kind

/-- One token decides at every place that a parse can come to. -/
structure IsLL1 (g : Grammar α) (start : RuleId) : Prop where
  /-- No two alternatives begin with the same kind of token. -/
  alternatives : ∀ {r} {alternatives : List (Alternative Production)} {occurrence after},
    Reachable g.rules start r →
    (r, ⟨.alternation alternatives occurrence, after⟩) ∈ Analysis.sites g.rules →
    ∀ {m n : Nat} {a b}, alternatives[m]? = some a → alternatives[n]? = some b → m ≠ n →
    ∀ {kind}, g.Begins a.definition kind → ¬ g.Begins b.definition kind
  /-- If the last alternative can be empty, no other one begins with what comes behind. -/
  lastAlternative : ∀ {r} {alternatives : List (Alternative Production)} {occurrence after},
    Reachable g.rules start r →
    (r, ⟨.alternation alternatives occurrence, after⟩) ∈ Analysis.sites g.rules →
    ∀ {last}, alternatives.getLast? = some last → Nullable g.rules [.sequence last.definition] →
    ∀ {n : Nat} {a}, alternatives[n]? = some a → n + 1 < alternatives.length →
    ∀ {kind}, g.Begins a.definition kind → ¬ Follows g.rules g.vocabulary start r after kind
  option : ∀ {r definition occurrence after}, Reachable g.rules start r →
    (r, ⟨.option definition occurrence, after⟩) ∈ Analysis.sites g.rules →
    ∀ {kind}, g.Begins definition kind → ¬ Follows g.rules g.vocabulary start r after kind
  repetition : ∀ {r mandatory separator definition occurrence after},
    Reachable g.rules start r →
    (r, ⟨.repetition mandatory separator definition occurrence, after⟩) ∈ Analysis.sites g.rules →
    ∀ {kind}, g.Begins definition kind → ¬ Follows g.rules g.vocabulary start r after kind
  separator : ∀ {r mandatory separator definition occurrence after}, Reachable g.rules start r →
    (r, ⟨.repetition mandatory (some separator) definition occurrence, after⟩) ∈
      Analysis.sites g.rules →
    ∀ {kind}, g.vocabulary.isMatch kind separator = true →
      ¬ Follows g.rules g.vocabulary start r after kind

end Grammar

end PredictiveParsing
