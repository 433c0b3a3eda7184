import PredictiveParsing.Proofs.Grammar.Follow
import PredictiveParsing.Proofs.Grammar.LookaheadPaths

/-!
# One token decides

Where the kinds of tokens that alternatives can begin with are disjoint, a decision looks at one
token, whatever lookahead the grammar allows: it enters what the token can begin, and picks the
alternative that the token can begin or that can be empty in front of it.
-/

namespace PredictiveParsing

variable {v : Vocabulary} {rules : List Rule} {kinds : Nat → TypeId}

theorem shareMember_iff {a b : TypeId} : Lookahead.shareMember v a b = true ↔
    ∃ kind, v.isMatch kind a = true ∧ v.isMatch kind b = true := by
  simp only [Lookahead.shareMember, List.any_eq_true, List.contains_iff_mem,
    Vocabulary.mem_members]

theorem findIdx?_congr {β : Type} {p q : β → Bool} {xs : List β} (h : ∀ x ∈ xs, p x = q x) :
    xs.findIdx? p = xs.findIdx? q := by
  induction xs with
  | nil => rfl
  | cons x xs ih =>
    rw [List.findIdx?_cons, List.findIdx?_cons, h x List.mem_cons_self,
      ih fun y hy => h y (List.mem_cons_of_mem _ hy)]

namespace Decision

variable {alternatives : List (List Path)} {path p : Path} {n : Nat}

theorem matchesPath_of_prefix (hPrefix : p <+: path) (h : matchesPath v kinds n path = true) :
    matchesPath v kinds n p = true := by
  induction p generalizing path n with
  | nil => rfl
  | cons token p ih =>
    obtain ⟨more, rfl⟩ := hPrefix
    rw [List.cons_append, matchesPath, Bool.and_eq_true] at h
    rw [matchesPath, Bool.and_eq_true]
    exact ⟨h.1, ih ⟨more, rfl⟩ h.2⟩

theorem choosePath_true : choosePath v (fun _ => true) alternatives kinds =
    alternatives.findIdx? fun paths => paths.any (matchesPath v kinds 0) := by
  conv_rhs => rw [← List.zipIdx_map_fst 0 alternatives, List.findIdx?_map]
  simp only [choosePath, Bool.true_and]
  rfl

theorem choose_ofPaths (hKind : v.isRegistered (kinds 0) = true) :
    (ofPaths v alternatives).choose v kinds none =
      alternatives.findIdx? fun paths => paths.any (matchesPath v kinds 0) := by
  unfold choose ofPaths
  by_cases hSingle : isSingleToken alternatives = true
  · have hLt : kinds 0 < v.ids.length := by
      rw [Vocabulary.ids, List.length_range]
      exact of_decide_eq_true hKind
    have hPick : (v.ids.map (pick v alternatives))[kinds 0]? =
        some (pick v alternatives (kinds 0)) := by
      rw [List.getElem?_map, List.getElem?_eq_getElem hLt]
      simp [Vocabulary.ids]
    simp only [hSingle, if_true, hPick, Option.join_some]
    rw [isSingleToken, Bool.and_eq_true, List.all_eq_true] at hSingle
    refine findIdx?_congr fun paths hPaths => ?_
    rw [Bool.eq_iff_iff, List.any_eq_true, List.any_eq_true]
    refine exists_congr fun path => and_congr_right fun hPath => ?_
    have hLength := List.all_eq_true.mp (hSingle.2 paths hPaths) path hPath
    obtain ⟨token, rfl⟩ := List.length_eq_one_iff.mp (beq_iff_eq.mp hLength)
    simp only [matchesPath, Bool.and_true]
    rw [List.contains_iff_mem, Vocabulary.mem_members]
  · simp only [hSingle]
    exact choosePath_true

end Decision

/-! ## Alternatives -/

section Alternatives

variable {k j : Nat} {cs : List Continuation} {c : Continuation} {result : List (List Path)}
  {paths : List Path} (hRules : AllRules (Production.IsResolved rules) rules)
  (hAll : ∀ c ∈ cs, Throughout (Production.IsResolved rules) c)
  (h : Lookahead.paths? v rules k cs = some result) (hc : cs[j]? = some c)
  (hPaths : result[j]? = some paths)

include hRules hAll h hc hPaths

theorem begins_of_any (hAny : paths.any (Decision.matchesPath v kinds 0) = true) :
    BeginsWith rules v c (kinds 0) ∨ Nullable rules c := by
  obtain ⟨path, hPath, hMatch⟩ := List.any_eq_true.mp hAny
  obtain ⟨p, hStarts, hPrefix⟩ := Lookahead.begun_of_mem_paths? hRules hAll h hc hPaths hPath
  have hBegun := Decision.matchesPath_of_prefix hPrefix hMatch
  cases hStarts with
  | empty hNull => exact .inr hNull
  | token hFirst =>
    rw [Decision.matchesPath, Bool.and_eq_true] at hBegun
    exact .inl ⟨_, hFirst, hBegun.1⟩

theorem any_of_first {token : TypeId} (hFirst : First rules c token)
    (hMatch : v.isMatch (kinds 0) token = true)
    (hOthers : ∀ other c', other ≠ j → cs[other]? = some c' → ∀ kind,
      v.isMatch kind token = true → ¬ BeginsWith rules v c' kind) :
    paths.any (Decision.matchesPath v kinds 0) = true := by
  refine List.any_eq_true.mpr ⟨[token], ?_, ?_⟩
  · refine Lookahead.mem_paths?_of_unique hRules hAll h hc hPaths (.token hFirst) ?_
    intro other c' hOther hc' q hq
    cases hq with
    | empty => rfl
    | @token token' hFirst' =>
      rw [Lookahead.overlap, Lookahead.overlap, Bool.and_true, Bool.eq_false_iff]
      intro hShared
      obtain ⟨kind, hKind, hKind'⟩ := shareMember_iff.mp hShared
      exact hOthers other c' hOther hc' kind hKind ⟨token', hFirst', hKind'⟩
  · rw [Decision.matchesPath, Decision.matchesPath, Bool.and_true]
    exact hMatch

theorem any_of_nullable (hNull : Nullable rules c)
    (hOthers : ∀ other c', other ≠ j → cs[other]? = some c' → ¬ Nullable rules c') :
    paths.any (Decision.matchesPath v kinds 0) = true := by
  refine List.any_eq_true.mpr ⟨[], ?_, rfl⟩
  refine Lookahead.mem_paths?_of_unique hRules hAll h hc hPaths (.empty hNull) ?_
  intro other c' hOther hc' q hq
  cases hq with
  | empty hNull' => exact absurd hNull' (hOthers other c' hOther hc')
  | token => rfl

end Alternatives

/-! ## Places -/

def Production.IsUngated : Production → Prop
  | .alternation alternatives _ => ∀ a ∈ alternatives, a.hasGate = false
  | _ => True

instance : DecidablePred Production.IsUngated
  | .alternation alternatives _ =>
    inferInstanceAs (Decidable (∀ a ∈ alternatives, a.hasGate = false))
  | .terminal _ _ => .isTrue trivial
  | .nonTerminal _ _ _ => .isTrue trivial
  | .option _ _ => .isTrue trivial
  | .repetition _ _ _ _ => .isTrue trivial

variable {α : Type} {g : Grammar α} {sources : List (RuleBody α)} {start r : RuleId}
  {definition : List Production} {after : Continuation} {occurrence : Nat}

structure Decision.Enters (g : Grammar α) (definition : List Production) (d : Decision) : Prop where
  entered : ∀ kinds : Nat → TypeId, g.vocabulary.isRegistered (kinds 0) = true →
    g.Begins definition (kinds 0) → (d.choose g.vocabulary kinds none).isSome = true
  begins : ∀ kinds : Nat → TypeId, g.vocabulary.isRegistered (kinds 0) = true →
    ¬ Nullable g.rules [.sequence definition] →
    (d.choose g.vocabulary kinds none).isSome = true → g.Begins definition (kinds 0)

section Entering

variable {more : Continuation} {k : Nat} {paths : List (List Path)}
  (hRules : AllRules (Production.IsResolved g.rules) g.rules)
  (hEnter : Throughout (Production.IsResolved g.rules) (.sequence definition :: more))
  (hAfter : Throughout (Production.IsResolved g.rules) after)
  (h : Lookahead.paths? g.vocabulary g.rules k [.sequence definition :: more, after] = some paths)

include hRules hEnter hAfter h

theorem enters_ofPaths (hEntered : ∀ (kinds : Nat → TypeId) entering, paths[0]? = some entering →
      g.Begins definition (kinds 0) →
      entering.any (Decision.matchesPath g.vocabulary kinds 0) = true) :
    Decision.Enters g definition (.ofPaths g.vocabulary [paths.headD []]) := by
  have hAll : ∀ c ∈ [.sequence definition :: more, after],
      Throughout (Production.IsResolved g.rules) c := by
    simpa using ⟨hEnter, hAfter⟩
  obtain ⟨entering, leaving, rfl⟩ := List.length_eq_two.mp (Lookahead.length_paths? h)
  have hChoose : ∀ {kinds : Nat → TypeId}, g.vocabulary.isRegistered (kinds 0) = true →
      ((Decision.ofPaths g.vocabulary [entering]).choose g.vocabulary kinds none).isSome =
        entering.any (Decision.matchesPath g.vocabulary kinds 0) := by
    intro kinds hKind
    rw [Decision.choose_ofPaths hKind, List.findIdx?_cons]
    split
    · next hAny => rw [hAny]; rfl
    · next hAny => rw [Bool.eq_false_iff.mpr hAny]; rfl
  constructor
  · intro kinds hKind hBegins
    rw [List.headD_cons, hChoose hKind]
    exact hEntered kinds entering rfl hBegins
  · intro kinds hKind hFull hSome
    rw [List.headD_cons, hChoose hKind] at hSome
    rcases begins_of_any (j := 0) hRules hAll h rfl rfl hSome with hBegins | hNull
    · exact (beginsWith_append (c := [.sequence definition]).mp hBegins).resolve_right
        fun hNull => hFull hNull.1
    · exact absurd (nullable_append (c := [.sequence definition]).mp hNull).1 hFull

theorem enters_of_disjoint (hDisjoint : ∀ {kind}, g.Begins definition kind →
      ¬ BeginsWith g.rules g.vocabulary after kind) :
    Decision.Enters g definition (.ofPaths g.vocabulary [paths.headD []]) := by
  refine enters_ofPaths hRules hEnter hAfter h fun kinds entering hEntering => ?_
  rintro ⟨token, hFirst, hMatch⟩
  have hAll : ∀ c ∈ [.sequence definition :: more, after],
      Throughout (Production.IsResolved g.rules) c := by
    simpa using ⟨hEnter, hAfter⟩
  refine any_of_first (j := 0) hRules hAll h rfl hEntering
    (first_append (c := [.sequence definition]).mpr (.inl hFirst)) hMatch ?_
  intro other c' hOther hc' kind hMatch'
  match other with
  | 0 => exact absurd rfl hOther
  | 1 =>
    cases hc'
    exact hDisjoint ⟨token, hFirst, hMatch'⟩
  | other + 2 => cases hc'

end Entering

abbrev Alternative.entry (a : Alternative Production) : Continuation := [.sequence a.definition]

section Entries

variable {alternatives : List (Alternative Production)} {n : Nat}

theorem getElem?_map_entry {a : Alternative Production} (h : alternatives[n]? = some a) :
    (alternatives.map Alternative.entry)[n]? = some a.entry := by
  rw [List.getElem?_map, h]
  rfl

theorem exists_of_getElem?_entry {c : Continuation}
    (h : (alternatives.map Alternative.entry)[n]? = some c) :
    ∃ a, alternatives[n]? = some a ∧ a.entry = c := by
  rw [List.getElem?_map] at h
  exact Option.map_eq_some_iff.mp h

theorem Segment.Inherits.entries {P : Production → Prop} {Q : Segment → Prop}
    (hQ : Segment.Inherits P Q)
    (h : ∀ p ∈ (Production.alternation alternatives occurrence).nodes, P p) :
    ∀ c ∈ alternatives.map Alternative.entry, ∀ segment ∈ c, Q segment := by
  refine List.forall_mem_map.mpr fun a ha => List.forall_mem_singleton.mpr ?_
  exact hQ.sequence _ fun p hp =>
    h p (List.mem_cons_of_mem _ (Production.mem_nodesOfBranches ha hp))

theorem AllRules.throughout_entry {P : Production → Prop} (h : AllRules P rules)
    (hSite : (r, ⟨.alternation alternatives occurrence, after⟩) ∈ Analysis.sites rules) :
    ∀ c ∈ alternatives.map Alternative.entry, Throughout P c :=
  Segment.Inherits.parts.entries (h.site hSite).1

end Entries

theorem Grammar.areResolved_of_named {α : Type} {sources : List (RuleBody α)}
    (h : recordingErrors v sources = []) : AllRules
      (Production.IsResolved (Names.resolve (sources.map RuleBody.record)))
      (Names.resolve (sources.map RuleBody.record)) := by
  intro rule hRule p hp
  cases p with
  | nonTerminal name target occurrence =>
    obtain ⟨id, rfl, hName⟩ := target_of_named h hRule hp
    rw [← ruleNamed?_resolve, PredictiveParsing.ruleNamed?,
      List.findIdx?_eq_some_iff_getElem] at hName
    exact ⟨id, rfl, hName.1⟩
  | terminal | option | repetition | alternation => trivial

namespace Grammar.IsCompiled

variable (h : g.IsCompiled sources)

include h

theorem areResolved : AllRules (Production.IsResolved g.rules) g.rules := by
  rw [h.rules]
  exact areResolved_of_named h.named

theorem exists_decision {site : Site} (hSite : (r, site) ∈ Analysis.sites g.rules) :
    ∃ d?, Analysis.decision? g.vocabulary g.rules g.config.maxLookahead site = some d? :=
  Analysis.exists_decision_of_ofRules? h.analysed hSite

theorem enters_option (hOne : g.IsLL1 start) (hReach : Reachable g.rules start r)
    (hSite : (r, ⟨.option definition occurrence, after⟩) ∈ Analysis.sites g.rules) :
    ∃ d, g.analysis.decisionAt? ⟨r, .option, occurrence⟩ = some d ∧ d.Enters g definition := by
  obtain ⟨d?, hDecision⟩ := h.exists_decision hSite
  obtain ⟨paths, hPaths, rfl⟩ := Option.map_eq_some_iff.mp hDecision
  obtain ⟨hNodes, hAfter⟩ := h.areResolved.site hSite
  refine ⟨_, h.decisionAt? hSite hDecision, enters_of_disjoint h.areResolved ?_ hAfter hPaths ?_⟩
  · exact throughout_cons.mpr ⟨fun q hq => hNodes q (List.mem_cons_of_mem _ hq), hAfter⟩
  · exact fun hBegins hNext => hOne.option hReach hSite hBegins (.inl hNext)

theorem enters_repetition {mandatory : Bool} {separator : Option TypeId} (hOne : g.IsLL1 start)
    (hReach : Reachable g.rules start r)
    (hSite : (r, ⟨.repetition mandatory separator definition occurrence, after⟩) ∈
      Analysis.sites g.rules) :
    ∃ d, g.analysis.decisionAt? ⟨r, .ofRepetition mandatory separator, occurrence⟩ = some d ∧
      d.Enters g definition := by
  obtain ⟨d?, hDecision⟩ := h.exists_decision hSite
  obtain ⟨paths, hPaths, rfl⟩ := Option.map_eq_some_iff.mp hDecision
  obtain ⟨hNodes, hAfter⟩ := h.areResolved.site hSite
  have hBody := fun q hq => hNodes q (List.mem_cons_of_mem _ hq)
  refine ⟨_, h.decisionAt? hSite hDecision, enters_of_disjoint h.areResolved ?_ hAfter hPaths ?_⟩
  · exact throughout_cons.mpr ⟨hBody, throughout_cons.mpr ⟨hBody, hAfter⟩⟩
  · exact fun hBegins hNext => hOne.repetition hReach hSite hBegins (.inl hNext)

theorem not_nullable_iteration {mandatory : Bool} {separator : Option TypeId}
    (hSite : (r, ⟨.repetition mandatory separator definition occurrence, after⟩) ∈
      Analysis.sites g.rules) : ¬ Nullable g.rules [.sequence definition] := by
  intro hNull
  have hSolid : (FirstSets.ofRules g.rules).nullableAll definition = false :=
    (h.areSolid.site hSite).1 _ (Production.mem_nodes_self _)
  have hKnown := hNull.vanishes
  rw [snd_sequence, hSolid] at hKnown
  cases hKnown

section Choice

variable {alternatives : List (Alternative Production)} (hStrict : g.config.strict = true)
  (hUngated : AllRules Production.IsUngated g.rules)
  (hSite : (r, ⟨.alternation alternatives occurrence, after⟩) ∈ Analysis.sites g.rules)

include hStrict hUngated hSite

theorem not_nullable_alternative {n : Nat} {a : Alternative Production}
    (ha : alternatives[n]? = some a) (hLast : n + 1 < alternatives.length) :
    ¬ Nullable g.rules [.sequence a.definition] := by
  intro hNull
  have hKnown := hNull.vanishes
  rw [snd_sequence] at hKnown
  have hGate : a.hasGate = false :=
    (hUngated.site hSite).1 _ (Production.mem_nodes_self _) a (List.mem_of_getElem? ha)
  obtain ⟨rule, hRule, hNode⟩ := Analysis.mem_nodes_of_site hSite
  have hRuleErrors := List.flatMap_eq_nil_iff.mp (h.unambiguous hStrict) (rule, r)
    (List.mk_mem_zipIdx_iff_getElem?.mpr hRule)
  have hErrors := List.flatMap_eq_nil_iff.mp hRuleErrors _ hNode
  have hEmpty := (List.append_eq_nil_iff.mp hErrors).1
  rw [Ambiguity.emptyBranches, List.filterMap_eq_nil_iff] at hEmpty
  have hNone := hEmpty (a, n) (List.mk_mem_zipIdx_iff_getElem?.mpr ha)
  simp [hLast, hGate, hKnown] at hNone

theorem eq_last_of_nullable {n : Nat} {a : Alternative Production}
    (ha : alternatives[n]? = some a) (hNull : Nullable g.rules [.sequence a.definition]) :
    n + 1 = alternatives.length := by
  have hLt := (List.getElem?_eq_some_iff.mp ha).1
  by_contra hOther
  exact h.not_nullable_alternative hStrict hUngated hSite ha (by omega) hNull

variable {k n : Nat} {a : Alternative Production} {paths : List (List Path)} {ps : List Path}
  (hOne : g.IsLL1 start) (hReach : Reachable g.rules start r) (ha : alternatives[n]? = some a)
  (hFits : g.Begins a.definition (kinds 0) ∨ Nullable g.rules [.sequence a.definition] ∧
    Follows g.rules g.vocabulary start r after (kinds 0))

include hOne hReach ha hFits

theorem any_of_fits (hPaths : Lookahead.paths? g.vocabulary g.rules k
      (alternatives.map Alternative.entry) = some paths) (hn : paths[n]? = some ps) :
    ps.any (Decision.matchesPath g.vocabulary kinds 0) = true := by
  have hAll := h.areResolved.throughout_entry hSite
  have hEntry := getElem?_map_entry ha
  rcases hFits with ⟨token, hFirst, hMatch⟩ | ⟨hNull, -⟩
  · refine any_of_first h.areResolved hAll hPaths hEntry hn hFirst hMatch ?_
    intro other c' hOther hc' kind hMatch'
    obtain ⟨b, hb, rfl⟩ := exists_of_getElem?_entry hc'
    exact hOne.alternatives hReach hSite ha hb hOther.symm ⟨token, hFirst, hMatch'⟩
  · refine any_of_nullable h.areResolved hAll hPaths hEntry hn hNull ?_
    intro other c' hOther hc' hNull'
    obtain ⟨b, hb, rfl⟩ := exists_of_getElem?_entry hc'
    have hEnd := h.eq_last_of_nullable hStrict hUngated hSite ha hNull
    have hEnd' := h.eq_last_of_nullable hStrict hUngated hSite hb hNull'
    omega

theorem not_any_of_earlier (hPaths : Lookahead.paths? g.vocabulary g.rules k
      (alternatives.map Alternative.entry) = some paths) {m : Nat} (hm : m < n)
    (hps : paths[m]? = some ps) : ¬ ps.any (Decision.matchesPath g.vocabulary kinds 0) = true := by
  intro hAny
  have hLt := (List.getElem?_eq_some_iff.mp ha).1
  have hb : alternatives[m]? = some alternatives[m] := List.getElem?_eq_getElem (by omega)
  rcases begins_of_any h.areResolved (h.areResolved.throughout_entry hSite) hPaths
    (getElem?_map_entry hb) hps hAny with hBegins | hNull
  · rcases hFits with hBegins' | ⟨hNull, hFollows⟩
    · exact hOne.alternatives hReach hSite hb ha (Nat.ne_of_lt hm) hBegins hBegins'
    · refine hOne.lastAlternative hReach hSite ?_ hNull hb (by omega) hBegins hFollows
      rw [List.getLast?_eq_getElem?, ← h.eq_last_of_nullable hStrict hUngated hSite ha hNull]
      exact ha
  · exact h.not_nullable_alternative hStrict hUngated hSite hb (by omega) hNull

theorem chooses (hKind : g.vocabulary.isRegistered (kinds 0) = true) :
    ∃ d, g.analysis.decisionAt? ⟨r, .or, occurrence⟩ = some d ∧
      d.choose g.vocabulary kinds none = some n := by
  obtain ⟨d?, hDecision⟩ := h.exists_decision hSite
  obtain ⟨paths, hPaths, rfl⟩ := Option.map_eq_some_iff.mp hDecision
  refine ⟨_, h.decisionAt? hSite hDecision, ?_⟩
  have hLength := Lookahead.length_paths? hPaths
  rw [List.length_map] at hLength
  have hn : n < paths.length := hLength ▸ (List.getElem?_eq_some_iff.mp ha).1
  rw [Decision.choose_ofPaths hKind, List.findIdx?_eq_some_iff_getElem]
  refine ⟨hn, ?_, fun m hm => ?_⟩
  · exact h.any_of_fits hStrict hUngated hSite hOne hReach ha hFits hPaths
      (List.getElem?_eq_getElem hn)
  · exact h.not_any_of_earlier hStrict hUngated hSite hOne hReach ha hFits hPaths hm
      (List.getElem?_eq_getElem (Nat.lt_trans hm hn))

end Choice

end Grammar.IsCompiled

end PredictiveParsing
