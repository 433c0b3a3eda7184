import PredictiveParsing.Proofs.Grammar.Deciding

/-!
# One token of lookahead

With one token of lookahead the paths of an alternative are all that it can begin with, shared with
other alternatives or not. So a decision enters whatever the next token begins, and picks an
alternative that the token begins if there is one.
-/

namespace PredictiveParsing

variable {v : Vocabulary} {rules : List Rule} {kinds : Nat → TypeId}

section Paths

variable {j : Nat} {cs : List Continuation} {c : Continuation} {result : List (List Path)}
  {paths : List Path} {path : Path} (hRules : AllRules (Production.IsResolved rules) rules)
  (hAll : ∀ c ∈ cs, Throughout (Production.IsResolved rules) c)
  (h : Lookahead.paths? v rules 1 cs = some result) (hc : cs[j]? = some c)
  (hPaths : result[j]? = some paths)

include hRules hAll h hc hPaths

theorem Lookahead.mem_paths?_of_starts (hStarts : Starts rules c path) : path ∈ paths := by
  obtain ⟨start, found, hRounds, rfl, -, hStart⟩ := paths?_eq_some h
  obtain ⟨fuel, ps, hExpand, hj⟩ := hStart j c hc
  rw [List.getElem?_map] at hPaths
  obtain ⟨f, hf, rfl⟩ := Option.map_eq_some_iff.mp hPaths
  have hResolved := hAll c (List.mem_of_getElem? hc)
  obtain ⟨p, hp, rfl⟩ := List.mem_map.mp ((mem_expand_one hRules hResolved hExpand).mpr hStarts)
  have hRound : rounds v rules 1 (0 + 1) start = some found := hRounds
  refine mem_rounds_of_final hRound hj hf hp ?_
  have hFinds := finds_expand (X := (Starts rules · p.path)) isLeftmost_starts hRules hResolved hExpand
  rcases hFinds.path p hp with hOne | ⟨-, hEnd⟩
  · simp [isFinal, hOne]
  · simp [isFinal, hEnd]

theorem any_matchesPath_iff : paths.any (Decision.matchesPath v kinds 0) = true ↔
    BeginsWith rules v c (kinds 0) ∨ Nullable rules c := by
  refine ⟨begins_of_any hRules hAll h hc hPaths, fun hStarts => List.any_eq_true.mpr ?_⟩
  rcases hStarts with ⟨token, hFirst, hMatch⟩ | hNull
  · refine ⟨[token], Lookahead.mem_paths?_of_starts hRules hAll h hc hPaths (.token hFirst), ?_⟩
    rw [Decision.matchesPath, Decision.matchesPath, Bool.and_true]
    exact hMatch
  · exact ⟨[], Lookahead.mem_paths?_of_starts hRules hAll h hc hPaths (.empty hNull), rfl⟩

end Paths

variable {α : Type} {g : Grammar α} {sources : List (RuleBody α)} {r : RuleId}
  {definition : List Production} {alternatives : List (Alternative Production)}
  {after : Continuation} {occurrence : Nat}

/-- At no place does a decision gain anything from more than one token of lookahead. -/
def Grammar.NeedsOneToken (g : Grammar α) : Prop :=
  ∀ place ∈ Analysis.sites g.rules,
    Analysis.decision? g.vocabulary g.rules g.config.maxLookahead place.2 =
      Analysis.decision? g.vocabulary g.rules 1 place.2

instance (g : Grammar α) : Decidable g.NeedsOneToken :=
  inferInstanceAs (Decidable (∀ place ∈ Analysis.sites g.rules, _ = _))

/-- The next token tells which alternative to pick: one that it begins, or else one that can be
empty. -/
structure Decision.Picks (g : Grammar α) (alternatives : List (Alternative Production))
    (d : Decision) : Prop where
  picked : ∀ (kinds : Nat → TypeId) {n}, g.vocabulary.isRegistered (kinds 0) = true →
    d.choose g.vocabulary kinds none = some n → ∃ a, alternatives[n]? = some a ∧
      (g.Begins a.definition (kinds 0) ∨ Nullable g.rules [.sequence a.definition] ∧
        ∀ b ∈ alternatives, ¬ g.Begins b.definition (kinds 0))
  none : ∀ (kinds : Nat → TypeId), g.vocabulary.isRegistered (kinds 0) = true →
    d.choose g.vocabulary kinds none = Option.none → ∀ a ∈ alternatives,
      ¬ g.Begins a.definition (kinds 0) ∧ ¬ Nullable g.rules [.sequence a.definition]

namespace Grammar.IsCompiled

variable (h : g.IsCompiled sources) (hOne : g.NeedsOneToken)

include h hOne

theorem exists_decision_one {site : Site} (hSite : (r, site) ∈ Analysis.sites g.rules) :
    ∃ d?, Analysis.decision? g.vocabulary g.rules 1 site = some d? ∧
      ∀ d, d? = some d → g.analysis.decisionAt? (Analysis.key r site.production) = some d := by
  obtain ⟨d?, hDecision⟩ := h.exists_decision hSite
  refine ⟨d?, (hOne _ hSite).symm.trans hDecision, ?_⟩
  rintro d rfl
  exact h.decisionAt? hSite hDecision

omit hOne in
theorem enters_one {more : Continuation} {paths : List (List Path)}
    (hEnter : Throughout (Production.IsResolved g.rules) (.sequence definition :: more))
    (hAfter : Throughout (Production.IsResolved g.rules) after)
    (hPaths : Lookahead.paths? g.vocabulary g.rules 1 [.sequence definition :: more, after] =
      some paths) : Decision.Enters g definition (.ofPaths g.vocabulary [paths.headD []]) := by
  refine enters_ofPaths h.areResolved hEnter hAfter hPaths fun kinds entering hEntering hBegins => ?_
  have hAll : ∀ c ∈ [.sequence definition :: more, after],
      Throughout (Production.IsResolved g.rules) c := by
    simpa using ⟨hEnter, hAfter⟩
  refine (any_matchesPath_iff (j := 0) h.areResolved hAll hPaths rfl hEntering).mpr (.inl ?_)
  exact (beginsWith_append (c := [.sequence definition])).mpr (.inl hBegins)

theorem enters_option_one
    (hSite : (r, ⟨.option definition occurrence, after⟩) ∈ Analysis.sites g.rules) :
    ∃ d, g.analysis.decisionAt? ⟨r, .option, occurrence⟩ = some d ∧ d.Enters g definition := by
  obtain ⟨d?, hDecision, hFound⟩ := h.exists_decision_one hOne hSite
  obtain ⟨paths, hPaths, rfl⟩ := Option.map_eq_some_iff.mp hDecision
  obtain ⟨hNodes, hAfter⟩ := h.areResolved.site hSite
  refine ⟨_, hFound _ rfl, h.enters_one ?_ hAfter hPaths⟩
  exact throughout_cons.mpr ⟨fun q hq => hNodes q (List.mem_cons_of_mem _ hq), hAfter⟩

theorem enters_repetition_one {mandatory : Bool} {separator : Option TypeId}
    (hSite : (r, ⟨.repetition mandatory separator definition occurrence, after⟩) ∈
      Analysis.sites g.rules) :
    ∃ d, g.analysis.decisionAt? ⟨r, .ofRepetition mandatory separator, occurrence⟩ = some d ∧
      d.Enters g definition := by
  obtain ⟨d?, hDecision, hFound⟩ := h.exists_decision_one hOne hSite
  obtain ⟨paths, hPaths, rfl⟩ := Option.map_eq_some_iff.mp hDecision
  obtain ⟨hNodes, hAfter⟩ := h.areResolved.site hSite
  have hBody := fun q hq => hNodes q (List.mem_cons_of_mem _ hq)
  refine ⟨_, hFound _ rfl, h.enters_one ?_ hAfter hPaths⟩
  exact throughout_cons.mpr ⟨hBody, throughout_cons.mpr ⟨hBody, hAfter⟩⟩

/-- Only the last alternative can be empty, so an alternative that the next token begins comes
before it. -/
theorem picks_one (hStrict : g.config.strict = true)
    (hUngated : AllRules Production.IsUngated g.rules)
    (hSite : (r, ⟨.alternation alternatives occurrence, after⟩) ∈ Analysis.sites g.rules) :
    ∃ d, g.analysis.decisionAt? ⟨r, .or, occurrence⟩ = some d ∧ d.Picks g alternatives := by
  obtain ⟨d?, hDecision, hFound⟩ := h.exists_decision_one hOne hSite
  obtain ⟨paths, hPaths, rfl⟩ := Option.map_eq_some_iff.mp hDecision
  have hLength := Lookahead.length_paths? hPaths
  rw [List.length_map] at hLength
  have hIff : ∀ (kinds : Nat → TypeId) (n : Nat) a ps, alternatives[n]? = some a →
      paths[n]? = some ps → (ps.any (Decision.matchesPath g.vocabulary kinds 0) = true ↔
        g.Begins a.definition (kinds 0) ∨ Nullable g.rules [.sequence a.definition]) :=
    fun kinds n a ps ha hps => any_matchesPath_iff h.areResolved
      (h.areResolved.throughout_entry hSite) hPaths (getElem?_map_entry ha) hps
  refine ⟨_, hFound _ rfl, fun kinds n hKind hPicked => ?_, fun kinds hKind hNone a hMem => ?_⟩
  · rw [Decision.choose_ofPaths hKind, List.findIdx?_eq_some_iff_getElem] at hPicked
    obtain ⟨hn, hAny, hEarlier⟩ := hPicked
    have ha : alternatives[n]? = some alternatives[n] := List.getElem?_eq_getElem (hLength ▸ hn)
    refine ⟨_, ha, ?_⟩
    have hFits := (hIff kinds n _ _ ha (List.getElem?_eq_getElem hn)).mp hAny
    refine or_iff_not_imp_left.mpr fun hNot => ?_
    have hNull := hFits.resolve_left hNot
    have hLast := h.eq_last_of_nullable hStrict hUngated hSite ha hNull
    refine ⟨hNull, fun b hb hBegins => ?_⟩
    obtain ⟨m, hm⟩ := List.getElem?_of_mem hb
    have hLt := (List.getElem?_eq_some_iff.mp hm).1
    rcases Nat.lt_or_eq_of_le (Nat.le_of_lt_succ (hLast ▸ hLt)) with hBefore | rfl
    · have hps := List.getElem?_eq_getElem (Nat.lt_trans hBefore hn)
      exact hEarlier m hBefore ((hIff kinds m b _ hm hps).mpr (.inl hBegins))
    · obtain rfl := Option.some.inj (hm.symm.trans ha)
      exact hNot hBegins
  · rw [Decision.choose_ofPaths hKind, List.findIdx?_eq_none_iff] at hNone
    obtain ⟨n, ha⟩ := List.getElem?_of_mem hMem
    have hn : n < paths.length := hLength ▸ (List.getElem?_eq_some_iff.mp ha).1
    have hNot := hNone _ (List.getElem_mem hn)
    rw [← Bool.not_eq_true, hIff kinds n a _ ha (List.getElem?_eq_getElem hn)] at hNot
    exact not_or.mp hNot

end Grammar.IsCompiled

end PredictiveParsing
