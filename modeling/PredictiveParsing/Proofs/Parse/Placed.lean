import PredictiveParsing.Proofs.Grammar.Sites
import PredictiveParsing.Proofs.Parse.Reading

/-!
# Productions in their places

The productions that a run still has to read are places of the rule that is being parsed. What
comes behind them there is what the tables of the analysis were computed from, and before any error
the tables are asked for just these places.
-/

namespace PredictiveParsing.Parse

variable {α : Type}

/-- Productions in front of a continuation that are, nested ones included, places of a rule. -/
def Placed (g : Grammar α) (r : RuleId) (ps : List Production)
    (k : List Production × Continuation) : Prop :=
  ∀ site ∈ Site.along k.2 (ps ++ k.1), (r, site) ∈ Analysis.sites g.rules

namespace Placed

variable {g : Grammar α} {r : RuleId} {ps qs d : List Production} {p : Production}
  {k : List Production × Continuation} {occurrence : Nat}

theorem left (h : Placed g r (ps ++ qs) k) : Placed g r ps (qs ++ k.1, k.2) := by
  rw [Placed, List.append_assoc] at h
  exact h

theorem tail (h : Placed g r (p :: ps) k) : Placed g r ps k :=
  fun site hSite => h site (List.mem_append_right _ hSite)

theorem right (h : Placed g r (ps ++ qs) k) : Placed g r qs k := by
  induction ps with
  | nil => exact h
  | cons p ps ih => exact ih h.tail

theorem within (h : Placed g r [p] k) :
    ∀ site ∈ Site.within (inSequence [] k) p, (r, site) ∈ Analysis.sites g.rules :=
  fun site hSite => h site (List.mem_append_left _ hSite)

theorem site (h : Placed g r [p] k) : (r, ⟨p, inSequence [] k⟩) ∈ Analysis.sites g.rules := by
  refine h.within _ ?_
  cases p with
  | terminal | nonTerminal | option | repetition | alternation => exact List.mem_cons_self

theorem of_along {after : Continuation}
    (h : ∀ site ∈ Site.along after d, (r, site) ∈ Analysis.sites g.rules) :
    Placed g r d ([], after) := by
  rw [Placed, List.append_nil]
  exact h

theorem option (h : Placed g r [.option d occurrence] k) :
    Placed g r d ([], inSequence [] k) :=
  of_along fun site hSite => h.within site (List.mem_cons_of_mem _ hSite)

theorem iteration {mandatory : Bool} {separator : Option TypeId}
    (h : Placed g r [.repetition mandatory separator d occurrence] k) :
    Placed g r d ([], .again d separator :: inSequence [] k) :=
  of_along fun site hSite => h.within site (List.mem_cons_of_mem _ hSite)

theorem alternative {alternatives : List (Alternative Production)}
    {branch : Alternative Production} (h : Placed g r [.alternation alternatives occurrence] k)
    (hBranch : branch ∈ alternatives) : Placed g r branch.definition ([], inSequence [] k) :=
  of_along fun site hSite => h.within site (List.mem_cons_of_mem _ (Site.mem_amongBranches hBranch hSite))

theorem definition (hRule : r < g.rules.length) :
    Placed g r (definitionOf g.rules r) ([], []) := by
  refine of_along fun site hSite => Analysis.mem_sites.mpr ⟨g.rules[r], ?_, ?_⟩
  · exact List.getElem?_eq_getElem hRule
  · rwa [definitionOf, List.getElem?_eq_getElem hRule] at hSite

end Placed

structure Input.LoopAt (i : Input α) (r : RuleId) (k : List Production × Continuation)
    (loop : Input.Loop α) (occurrence : Nat) : Prop where
  key : loop.key = ⟨r, .ofRepetition loop.mandatory loop.separator, occurrence⟩
  placed : Placed i.grammar r [.repetition loop.mandatory loop.separator
    (i.grammar.shape loop.body) occurrence] k
  propagates : Op.propagatesAll loop.body = true

structure Untroubled (i : Input α) (r : RuleId) (s : State) : Prop where
  inside : Inside i s
  rule : s.currentRule = r
  errors : s.errors = []

section Untroubled

variable {i : Input α} {r : RuleId} {s t : State} {sources : List (RuleBody α)}

theorem Untroubled.of_frame (h : Untroubled i r s) (hFrame : Frame i s t)
    (hErrors : t.errors = s.errors) : Untroubled i r t :=
  ⟨h.inside.of_frame hFrame, hFrame.currentRule.trans h.rule, hErrors.trans h.errors⟩

theorem Untroubled.key (h : Untroubled i r s) (kind : ProductionKind) (occurrence : Nat) :
    s.key kind occurrence = ⟨r, kind, occurrence⟩ := by
  rw [State.key, h.rule]

theorem callFollow?_eq_some (hCompiled : i.grammar.IsCompiled sources) (hs : s.calls ≠ [])
    {name : String} {id : RuleId} {occurrence : Nat} {after : Continuation}
    (hSite : (s.currentRule, ⟨.nonTerminal name (some id) occurrence, after⟩) ∈
      Analysis.sites i.grammar.rules) : i.callFollow? (⟨id, occurrence⟩ :: s.calls) =
        some ((FirstSets.ofRules i.grammar.rules).follow i.grammar.vocabulary after) := by
  obtain ⟨caller, calls, hCaller⟩ := List.exists_cons_of_ne_nil hs
  rw [State.currentRule, hCaller] at hSite
  rw [hCaller, Input.callFollow?]
  exact hCompiled.callFollow hSite

theorem Untroubled.callFollow? (hs : Untroubled i r s) (hCompiled : i.grammar.IsCompiled sources)
    {name : String} {id : RuleId} {occurrence : Nat} {after : Continuation}
    (hSite : (r, ⟨.nonTerminal name (some id) occurrence, after⟩) ∈
      Analysis.sites i.grammar.rules) : i.callFollow? (⟨id, occurrence⟩ :: s.calls) =
        some ((FirstSets.ofRules i.grammar.rules).follow i.grammar.vocabulary after) :=
  callFollow?_eq_some hCompiled hs.inside.calls (hs.rule.symm ▸ hSite)

end Untroubled

end PredictiveParsing.Parse
