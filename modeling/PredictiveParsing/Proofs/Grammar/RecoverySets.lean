import PredictiveParsing.Builtin.JsonText
import PredictiveParsing.Proofs.Grammar.Forms
import PredictiveParsing.Proofs.Grammar.Unambiguous

/-!
# The sets that recovery goes by

A token is among those that can follow a place of a rule exactly if some expansion of the rule's own
body has it behind the production of that place. An expansion is found for every token of a set, and
what an expansion has behind a production is no more than the place leaves to be derived.
-/

namespace PredictiveParsing

open Relation
open PredictiveParsing.Part (row further)

variable {rules : List Rule} {c d : Continuation} {a b form front back parts : List Part}
  {p q : Production} {ps qs : List Production} {token kind : TypeId} {site : Site} {r : RuleId}

theorem LeadsWith.append (h : LeadsWith rules token form) (back : List Part) :
    LeadsWith rules token (form ++ back) := by
  induction h with
  | here h => exact .here h
  | behind hNull _ ih => exact .behind hNull ih

theorem LeadsWith.behind_row (h : LeadsWith rules token back)
    (hNull : Nullable rules [.sequence ps]) : LeadsWith rules token (row ps ++ back) := by
  induction ps with
  | nil => exact h
  | cons p ps ih =>
    obtain ⟨hHead, hRest⟩ := nullable_sequence_cons.mp hNull
    exact .behind (nullable_sequence_cons.mpr ⟨hHead, nullable_sequence_nil⟩) (ih hRest)

/-! ## An expansion for every token -/

namespace Production

variable {known : RuleId → Bool} {firsts : RuleId → TokenSet}

mutual

theorem exists_leads_of_mem_first (hKnown : KnowsEmpty rules known)
    (hFirsts : KnowsFirst rules firsts token) (p : Production) (h : token ∈ first known firsts p) :
    ∃ form, Choices [.production p] form ∧ LeadsWith rules token form := by
  cases p with
  | terminal other occurrence =>
    rw [first, TokenSet.mem_insert, or_iff_left TokenSet.not_mem_empty] at h
    exact ⟨_, .refl, .here h.symm⟩
  | nonTerminal name target occurrence =>
    cases target with
    | none => exact absurd h TokenSet.not_mem_empty
    | some target => exact ⟨_, .refl, .here (hFirsts target h).2⟩
  | option definition occurrence =>
    rw [first] at h
    obtain ⟨form, hChoices, hLeads⟩ := exists_leads_of_mem_firstOf hKnown hFirsts definition h
    refine ⟨form, (choices_chosen .option []).trans ?_, hLeads⟩
    rwa [List.append_nil]
  | repetition mandatory separator definition occurrence =>
    rw [first] at h
    obtain ⟨form, hChoices, hLeads⟩ := exists_leads_of_mem_firstOf hKnown hFirsts definition h
    refine ⟨form, (choices_chosen (.iterations 0) []).trans ?_, hLeads⟩
    rwa [further, List.append_nil, List.append_nil]
  | alternation alternatives occurrence =>
    rw [first] at h
    obtain ⟨branch, hBranch, form, hChoices, hLeads⟩ :=
      exists_branch_leads_of_mem_first hKnown hFirsts alternatives h
    refine ⟨form, (choices_chosen (.alternative branch hBranch) []).trans ?_, hLeads⟩
    rwa [List.append_nil]

theorem exists_leads_of_mem_firstOf (hKnown : KnowsEmpty rules known)
    (hFirsts : KnowsFirst rules firsts token) (ps : List Production)
    (h : token ∈ firstOf known firsts ps) :
    ∃ form, Choices (row ps) form ∧ LeadsWith rules token form := by
  cases ps with
  | nil => exact absurd h TokenSet.not_mem_empty
  | cons p ps =>
    rcases mem_firstOf_cons.mp h with h | ⟨hNull, h⟩
    · obtain ⟨form, hChoices, hLeads⟩ := exists_leads_of_mem_first hKnown hFirsts p h
      exact ⟨form ++ row ps, choices_append_right hChoices (row ps), hLeads.append (row ps)⟩
    · obtain ⟨form, hChoices, hLeads⟩ := exists_leads_of_mem_firstOf hKnown hFirsts ps h
      have hEmpty : Nullable rules [.sequence [p]] := nullable_sequence_cons.mpr
        ⟨exists_expands_of_nullable hKnown p hNull, nullable_sequence_nil⟩
      exact ⟨_, choices_append_left hChoices [.production p], .behind hEmpty hLeads⟩

theorem exists_branch_leads_of_mem_first (hKnown : KnowsEmpty rules known)
    (hFirsts : KnowsFirst rules firsts token) (branches : List (Alternative Production))
    (h : token ∈ firstOfBranches known firsts branches) : ∃ branch ∈ branches,
      ∃ form, Choices (row branch.definition) form ∧ LeadsWith rules token form := by
  cases branches with
  | nil => exact absurd h TokenSet.not_mem_empty
  | cons branch rest =>
    rw [firstOfBranches, TokenSet.mem_union] at h
    rcases h with h | h
    · obtain ⟨other, hOther, hLeads⟩ := exists_branch_leads_of_mem_first hKnown hFirsts rest h
      exact ⟨other, List.mem_cons_of_mem _ hOther, hLeads⟩
    · exact ⟨branch, List.mem_cons_self,
        exists_leads_of_mem_firstOf hKnown hFirsts branch.definition h⟩

end

end Production

theorem exists_leads_of_firsts {segment : Segment}
    (h : token ∈ segment.firsts (FirstSets.ofRules rules)) (hBehind : Realizes c back) :
    ∃ parts form, Realizes (segment :: c) parts ∧ Choices parts form ∧
      LeadsWith rules token form := by
  have hBody (ps : List Production) (h : token ∈ (FirstSets.ofRules rules).firstOf ps) :
      ∃ form, Choices (row ps ++ back) form ∧ LeadsWith rules token form := by
    obtain ⟨form, hChoices, hLeads⟩ := Production.exists_leads_of_mem_firstOf
      FirstSets.knowsEmpty FirstSets.knowsFirst ps h
    exact ⟨_, choices_append_right hChoices back, hLeads.append back⟩
  cases segment with
  | sequence ps =>
    obtain ⟨form, hChoices, hLeads⟩ := hBody ps h
    exact ⟨_, form, hBehind.sequence ps, hChoices, hLeads⟩
  | again definition separator =>
    cases separator with
    | none =>
      obtain ⟨form, hChoices, hLeads⟩ := hBody definition h
      refine ⟨_, form, hBehind.again definition none 1, ?_, hLeads⟩
      simpa [further] using hChoices
    | some separator =>
      rw [Segment.firsts, TokenSet.mem_insert, or_iff_left TokenSet.not_mem_empty] at h
      exact ⟨_, _, hBehind.again definition (some separator) 1, .refl, .here h.symm⟩
  | token other =>
    rw [Segment.firsts, TokenSet.mem_insert, or_iff_left TokenSet.not_mem_empty] at h
    exact ⟨_, _, hBehind.token other, .refl, .here h.symm⟩

theorem exists_leads_of_vanishes {segment : Segment}
    (hVanish : segment.vanishes (FirstSets.ofRules rules) = true) (hBehind : Realizes c back)
    (hChoices : Choices back form) (hLeads : LeadsWith rules token form) :
    ∃ parts form', Realizes (segment :: c) parts ∧ Choices parts form' ∧
      LeadsWith rules token form' := by
  cases segment with
  | sequence ps =>
    have hNull : Nullable rules [.sequence ps] := FirstSets.nullable_of_vanishes hVanish
    exact ⟨_, _, hBehind.sequence ps, choices_append_left hChoices (row ps),
      hLeads.behind_row hNull⟩
  | again definition separator =>
    exact ⟨_, form, hBehind.again definition separator 0, hChoices, hLeads⟩
  | token other => cases hVanish

theorem exists_leads_of_continuation
    (h : token ∈ ((FirstSets.ofRules rules).firstOfContinuation c).1) :
    ∃ back form, Realizes c back ∧ Choices back form ∧ LeadsWith rules token form := by
  induction c with
  | nil => exact absurd h TokenSet.not_mem_empty
  | cons segment c ih =>
    rcases mem_firstOfContinuation.mp h with h | ⟨hVanish, h⟩
    · obtain ⟨_, hBehind⟩ := exists_realizes c
      exact exists_leads_of_firsts h hBehind
    · obtain ⟨_, _, hBehind, hChoices, hLeads⟩ := ih h
      exact exists_leads_of_vanishes hVanish hBehind hChoices hLeads

/-! ## No more than is left to be derived -/

def Part.segment : Part → Segment
  | .production p => .sequence [p]
  | .separator token => .token token

/-- Whatever a continuation can begin with, another one can too, and the same for nothing at all. -/
structure Subsumes (rules : List Rule) (d c : Continuation) : Prop where
  nullable : Nullable rules c → Nullable rules d
  first : ∀ token, First rules c token → First rules d token

namespace Subsumes

theorem refl (c : Continuation) : Subsumes rules c c := ⟨id, fun _ => id⟩

theorem trans {e : Continuation} (h : Subsumes rules e d) (h' : Subsumes rules d c) :
    Subsumes rules e c :=
  ⟨h.nullable ∘ h'.nullable, fun token => h.first token ∘ h'.first token⟩

theorem append {c' d' : Continuation} (h : Subsumes rules d c) (h' : Subsumes rules d' c') :
    Subsumes rules (d ++ d') (c ++ c') := by
  constructor
  · rw [nullable_append, nullable_append]
    exact And.imp h.nullable h'.nullable
  · intro token
    rw [first_append, first_append]
    exact Or.imp (h.first token) (And.imp h.nullable (h'.first token))

theorem expands {segment : Segment} (h : segment.Expands rules c) : Subsumes rules [segment] c :=
  ⟨nullable_of_expands h, fun _ => first_of_expands h⟩

theorem nil_of_nullable (h : Nullable rules c) : Subsumes rules c [] :=
  ⟨fun _ => h, fun _ hFirst => absurd hFirst not_first_nil⟩

theorem production (h : p.Expands rules c) : Subsumes rules [.sequence [p]] c := by
  refine (expands (.cons h)).trans ?_
  have hEmpty : Subsumes rules (c ++ [.sequence []]) (c ++ []) :=
    (refl c).append (nil_of_nullable nullable_sequence_nil)
  rwa [List.append_nil] at hEmpty

theorem row (ps : List Production) :
    Subsumes rules [.sequence ps] ((Part.row ps).map Part.segment) := by
  induction ps with
  | nil => exact nil_of_nullable nullable_sequence_nil
  | cons p ps ih =>
    refine Subsumes.trans (d := [.sequence [p]] ++ [.sequence ps]) ⟨?_, fun token => ?_⟩
      ((refl _).append ih)
    · rw [nullable_append, nullable_sequence_cons, nullable_sequence_cons]
      exact fun ⟨⟨hHead, _⟩, hRest⟩ => ⟨hHead, hRest⟩
    · rw [first_append, first_sequence_cons, first_sequence_cons, nullable_sequence_cons]
      rintro ((hHead | ⟨-, hNone⟩) | ⟨⟨hHead, -⟩, hRest⟩)
      · exact .inl hHead
      · exact absurd hNone not_first_sequence_nil
      · exact .inr ⟨hHead, hRest⟩

theorem further (separator : Option TypeId) (definition : List Production) (n : Nat) :
    Subsumes rules [.again definition separator]
      ((Part.further separator definition n).map Part.segment) := by
  induction n with
  | zero => exact nil_of_nullable (nullable_of_expands .stop nullable_nil)
  | succ n ih =>
    rw [Part.further, List.map_append, List.map_append]
    have hRest : Subsumes rules ([.sequence definition] ++ [.again definition separator])
        ((Part.row definition).map Part.segment ++
          (Part.further separator definition n).map Part.segment) := (row definition).append ih
    cases separator with
    | none => exact (expands .another).trans hRest
    | some separator => exact (expands .separated).trans ((refl [.token separator]).append hRest)

theorem chosen (h : p.Chooses parts) :
    Subsumes rules [.sequence [p]] (parts.map Part.segment) := by
  cases h with
  | noOption => exact production .noOption
  | option => exact (production .option).trans (row _)
  | noIteration => exact production .noIteration
  | iterations n =>
    rw [List.map_append]
    exact (production .iteration).trans ((row _).append (further _ _ n))
  | alternative branch hBranch => exact (production (.alternative branch hBranch)).trans (row _)

theorem choice (h : Choice a b) : Subsumes rules (a.map Part.segment) (b.map Part.segment) := by
  obtain ⟨front, back, hChooses⟩ := h
  rw [List.map_append, List.map_append, List.map_append]
  exact (refl _).append ((chosen hChooses).append (refl _))

theorem choices (h : Choices a b) : Subsumes rules (a.map Part.segment) (b.map Part.segment) := by
  induction h with
  | refl => exact refl _
  | tail _ hChoice ih => exact ih.trans (choice hChoice)

theorem realizes (h : Realizes c back) : Subsumes rules c (back.map Part.segment) := by
  induction h with
  | nil => exact refl _
  | sequence ps _ ih =>
    rw [List.map_append]
    exact (row ps).append ih
  | again definition separator n _ ih =>
    rw [List.map_append]
    exact (further separator definition n).append ih
  | token token _ ih => exact (refl [.token token]).append ih

end Subsumes

theorem Part.BeginsWith.first {part : Part} (h : part.BeginsWith rules token) :
    First rules [part.segment] token := by
  cases part with
  | separator other =>
    obtain rfl : other = token := h
    exact first_token
  | production p =>
    cases p with
    | terminal other occurrence =>
      obtain rfl : other = token := h
      exact (Subsumes.production .terminal).first other first_token
    | nonTerminal name target occurrence =>
      cases target with
      | none => cases h
      | some callee =>
        have hFirst : First rules [.sequence (definitionOf rules callee)] token := h
        have hCallee : callee < rules.length := by
          by_contra hOut
          rw [definitionOf, List.getElem?_eq_none (Nat.le_of_not_lt hOut)] at hFirst
          exact not_first_sequence_nil hFirst
        exact (Subsumes.production (.reference hCallee)).first token hFirst
    | option | repetition | alternation => cases h

theorem Part.Vanishes.nullable {part : Part} (h : part.Vanishes rules) :
    Nullable rules [part.segment] := by
  cases part with
  | production p => exact h
  | separator other => cases h

theorem LeadsWith.first (h : LeadsWith rules token form) :
    First rules (form.map Part.segment) token := by
  induction h with
  | here hBegins => exact first_append.mpr (.inl hBegins.first)
  | behind hNull _ ih => exact first_append.mpr (.inr ⟨hNull.nullable, ih⟩)

theorem beginsWith_of_mem_follow (h : kind ∈ (FirstSets.ofRules rules).follow v c) :
    BeginsWith rules v c kind := by
  obtain ⟨token, hToken, hMatch⟩ := TokenSet.mem_withSubtypes.mp h
  obtain ⟨back, form, hBack, hChoices, hLeads⟩ := exists_leads_of_continuation hToken
  have hFirst : First rules c token :=
    ((Subsumes.realizes hBack).trans (Subsumes.choices hChoices)).first token hLeads.first
  exact ⟨token, hFirst, hMatch⟩

/-! ## The tables -/

theorem Analysis.mem_along {rules : List Rule} (h : (r, site) ∈ Analysis.sites rules) :
    site ∈ Site.along [] (definitionOf rules r) := by
  obtain ⟨rule, hRule, hSite⟩ := Analysis.mem_sites.mp h
  rwa [definitionOf, hRule]

namespace Grammar.IsCompiled

variable {α : Type} {g : Grammar α} {sources : List (RuleBody α)} (h : g.IsCompiled sources)

include h

theorem mem_follow_iff (hSite : (r, site) ∈ Analysis.sites g.rules)
    (hSame : ∀ after, (r, ⟨site.production, after⟩) ∈ Analysis.sites g.rules →
      (FirstSets.ofRules g.rules).follow g.vocabulary after =
        (FirstSets.ofRules g.rules).follow g.vocabulary site.after) :
    kind ∈ (FirstSets.ofRules g.rules).follow g.vocabulary site.after ↔
      FollowsWithin g.rules g.vocabulary r site.production kind := by
  constructor
  · intro hKind
    obtain ⟨token, hToken, hMatch⟩ := TokenSet.mem_withSubtypes.mp hKind
    obtain ⟨back, form, hBack, hChoices, hLeads⟩ := exists_leads_of_continuation hToken
    obtain ⟨behind, front, hBehind, hExpansion⟩ :=
      Site.exists_choices_along _ (Analysis.mem_along hSite) hBack
    cases hBehind
    rw [List.append_nil] at hExpansion
    refine ⟨front, form, token, hExpansion.trans ?_, hLeads, hMatch⟩
    exact choices_append_left (choices_append_left hChoices [.production site.production]) front
  · rintro ⟨front, back, token, hExpansion, hLeads, hMatch⟩
    obtain ⟨after, behind, hPlace, hBehind, hChoices⟩ := placedBefore_of_choices hExpansion rfl
    have hOther : (r, ⟨site.production, after⟩) ∈ Analysis.sites g.rules := by
      obtain ⟨rule, hRule, -⟩ := Analysis.mem_sites.mp hSite
      rw [definitionOf, hRule] at hPlace
      exact Analysis.mem_sites.mpr ⟨rule, hRule, hPlace⟩
    rw [← hSame after hOther]
    have hFirst : First g.rules after token :=
      ((Subsumes.realizes hBehind).trans (Subsumes.choices hChoices)).first token hLeads.first
    exact TokenSet.mem_withSubtypes.mpr
      ⟨token, hFirst.mem h.areSolid (h.isSolid_after hOther), hMatch⟩

end Grammar.IsCompiled

/-- What recovery takes to follow a token, a reference or a repetition within its rule is exactly
what follows it in some expansion of the rule's own body. -/
theorem follow_sets_exact {α : Type} {v : Vocabulary} {bodies : List (RuleBody α)}
    {config : ParserConfig} {g : Grammar α} (hCompile : Grammar.compile v bodies config = .ok g)
    (r : RuleId) (rule : Rule) (hRule : g.rules[r]? = some rule) :
    (∀ token occurrence, .terminal token occurrence ∈ rule.nodes → ∃ set,
      g.analysis.terminalFollows.lookup ⟨r, token, occurrence⟩ = some set ∧
        ∀ kind, kind ∈ set ↔ FollowsWithin g.rules v r (.terminal token occurrence) kind) ∧
    (∀ name target occurrence, .nonTerminal name target occurrence ∈ rule.nodes → ∃ callee set,
      target = some callee ∧ g.analysis.callFollows.lookup ⟨r, callee, occurrence⟩ = some set ∧
        ∀ kind, kind ∈ set ↔ FollowsWithin g.rules v r (.nonTerminal name target occurrence) kind) ∧
    (∀ mandatory separator definition occurrence,
      .repetition mandatory separator definition occurrence ∈ rule.nodes → ∃ set,
        g.analysis.repetitionExits.lookup
          ⟨r, .ofRepetition mandatory separator, occurrence⟩ = some set ∧
        ∀ kind, kind ∈ set ↔ FollowsWithin g.rules v r
          (.repetition mandatory separator definition occurrence) kind) := by
  obtain ⟨h, rfl, -⟩ := Grammar.compile_ok hCompile
  refine ⟨fun token occurrence hNode => ?_, fun name target occurrence hNode => ?_,
    fun mandatory separator definition occurrence hNode => ?_⟩
  · obtain ⟨after, hSite⟩ := Analysis.exists_site_of_mem_nodes hRule hNode
    refine ⟨_, h.terminalFollow hSite, fun kind => h.mem_follow_iff hSite fun other hOther => ?_⟩
    exact Option.some.inj ((h.terminalFollow hOther).symm.trans (h.terminalFollow hSite))
  · obtain ⟨after, hSite⟩ := Analysis.exists_site_of_mem_nodes hRule hNode
    obtain ⟨callee, rfl, -⟩ := h.target_of_site hSite
    refine ⟨callee, _, rfl, h.callFollow hSite, fun kind => h.mem_follow_iff hSite
      fun other hOther => ?_⟩
    exact Option.some.inj ((h.callFollow hOther).symm.trans (h.callFollow hSite))
  · obtain ⟨after, hSite⟩ := Analysis.exists_site_of_mem_nodes hRule hNode
    refine ⟨_, h.repetitionExit hSite, fun kind => h.mem_follow_iff hSite fun other hOther => ?_⟩
    exact Option.some.inj ((h.repetitionExit hOther).symm.trans (h.repetitionExit hSite))

open JsonText in
/-- An item of an object is followed by a comma or the bracket, all of the items by the bracket. -/
theorem follow_sets_exact_json : ∃ g,
    Grammar.compile (.ofTypes types) JsonText.rules {} = .ok g ∧
    FollowsWithin g.rules (.ofTypes types) 1 (.nonTerminal "objectItem" (some 2) 0) comma ∧
    ¬ FollowsWithin g.rules (.ofTypes types) 1 (.nonTerminal "objectItem" (some 2) 0) string ∧
    FollowsWithin g.rules (.ofTypes types) 1 (.repetition false (some comma)
      [.nonTerminal "objectItem" (some 2) 0] 0) rcurly ∧
    ¬ FollowsWithin g.rules (.ofTypes types) 1 (.repetition false (some comma)
      [.nonTerminal "objectItem" (some 2) 0] 0) comma := by
  obtain ⟨g, hCompile, hChecked⟩ := Grammar.exists_compiled (v := .ofTypes types)
    (p := fun g => (g.analysis.callFollows.lookup ⟨1, 2, 0⟩).any (fun set =>
        set.contains comma && !set.contains string) &&
      (g.analysis.repetitionExits.lookup ⟨1, .manySep, 0⟩).any (fun set =>
        set.contains rcurly && !set.contains comma))
    (by decide +kernel : (Grammar.compile (.ofTypes types) JsonText.rules {}).toOption.any _ = true)
  have hRule : g.rules[1]? = some ⟨"object", [.terminal lcurly 0, .repetition false (some comma)
      [.nonTerminal "objectItem" (some 2) 0] 0, .terminal rcurly 0], []⟩ := by
    rw [(Grammar.compile_ok hCompile).1.rules]
    rfl
  obtain ⟨-, hCalls, hRepetitions⟩ := follow_sets_exact hCompile 1 _ hRule
  obtain ⟨callee, items, hTarget, hItems, hItem⟩ := hCalls "objectItem" (some 2) 0
    (by simp [Rule.nodes, Production.nodesOf, Production.nodes])
  obtain ⟨exits, hExits, hExit⟩ := hRepetitions false (some comma)
    [.nonTerminal "objectItem" (some 2) 0] 0
    (by simp [Rule.nodes, Production.nodesOf, Production.nodes])
  cases hTarget
  change g.analysis.repetitionExits.lookup ⟨1, .manySep, 0⟩ = some exits at hExits
  simp only [hItems, hExits, Option.any_some, Bool.and_eq_true, Bool.not_eq_true',
    ← Bool.not_eq_true, TokenSet.contains_iff] at hChecked
  obtain ⟨⟨hComma, hString⟩, hBracket, hInside⟩ := hChecked
  exact ⟨g, hCompile, (hItem comma).mp hComma, fun h => hString ((hItem string).mpr h),
    (hExit rcurly).mp hBracket, fun h => hInside ((hExit comma).mpr h)⟩

end PredictiveParsing
