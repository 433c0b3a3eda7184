import PredictiveParsing.Proofs.Grammar.Rounds
import PredictiveParsing.Proofs.Grammar.Unambiguous

/-!
# More lookahead

What a strict parser accepts with some lookahead, it accepts with more. Rules of sound structure can
be analysed with any lookahead; and as every path begins with one that less lookahead finds, paths
that overlap would have overlapped before.
-/

namespace PredictiveParsing

namespace Ambiguity

variable {v : Vocabulary} {checked checked' : List (Nat × List Path)} {n : Nat}

theorem Apart.of_take (h : Apart v checked) (hn : 0 < n)
    (hTake : ∀ m qs, (m, qs) ∈ checked' → ∃ ps, (m, ps) ∈ checked ∧ ∀ q ∈ qs, q.take n ∈ ps) :
    Apart v checked' := by
  have hSome : ∀ {p : Path}, p ≠ [] → p.take n ≠ [] := by
    intro p hp hNone
    rcases List.take_eq_nil_iff.mp hNone with hn' | hp'
    · exact Nat.ne_of_gt hn hn'
    · exact hp hp'
  constructor
  · intro m ps hm m' qs hm' hOther p hp hp' q hq
    obtain ⟨ps₀, hm₀, hps⟩ := hTake m ps hm
    obtain ⟨qs₀, hm₀', hqs⟩ := hTake m' qs hm'
    have hApart := h.unshared m ps₀ hm₀ m' qs₀ hm₀' hOther _ (hps p hp) (hSome hp') _ (hqs q hq)
    by_contra hOverlap
    rw [Bool.not_eq_false] at hOverlap
    exact Bool.eq_false_iff.mp hApart (pathsOverlap_take hOverlap n)
  · intro m ps hm m' qs hm' hLater p hp hp' q hq hShorter
    obtain ⟨ps₀, hm₀, hps⟩ := hTake m ps hm
    obtain ⟨qs₀, hm₀', hqs⟩ := hTake m' qs hm'
    by_contra hOverlap
    rw [Bool.not_eq_false] at hOverlap
    rcases Nat.lt_or_ge p.length n with hShort | hLong
    -- A path that is not cut shadows what is left of the longer one.
    · have hLess : (p.take n).length < (q.take n).length := by
        rw [List.length_take, List.length_take]
        omega
      have hApart := h.unshadowed m ps₀ hm₀ m' qs₀ hm₀' hLater _ (hps p hp) (hSome hp') _ (hqs q hq)
        hLess
      rw [List.take_of_length_le (Nat.le_of_lt hShort), List.take_take,
        Nat.min_eq_left (Nat.le_of_lt hShort), hOverlap] at hApart
      cases hApart
    -- Paths that are both cut have become equally long.
    · have hApart := h.unshared m ps₀ hm₀ m' qs₀ hm₀' (Nat.ne_of_gt hLater) _ (hps p hp) (hSome hp')
        _ (hqs q hq)
      have hCut := pathsOverlap_take hOverlap n
      rw [List.take_take, Nat.min_eq_left hLong, pathsOverlap_comm, hApart] at hCut
      cases hCut

end Ambiguity

/-! ## Analysing -/

section Analysing

variable {v : Vocabulary} {rules : List Rule} {k : Nat}

variable (hOpens : ∀ c : Continuation, (∀ segment ∈ c, segment.IsSound rules) →
  Lookahead.Opens rules (Lookahead.expand? rules 1 c))

include hOpens

theorem exists_decision? {site : Site} (hNodes : ∀ p ∈ site.production.nodes, p.IsSound rules)
    (hAfter : ∀ segment ∈ site.after, segment.IsSound rules) :
    ∃ d?, Analysis.decision? v rules k site = some d? := by
  obtain ⟨p, after⟩ := site
  have hEntering : ∀ enter : Continuation, (∀ segment ∈ enter, segment.IsSound rules) →
      ∃ paths, Lookahead.paths? v rules k [enter, after] = some paths := fun enter hEnter =>
    Lookahead.exists_paths? hOpens
      (List.forall_mem_cons.mpr ⟨hEnter, List.forall_mem_singleton.mpr hAfter⟩)
  cases p with
  | terminal | nonTerminal => exact ⟨none, rfl⟩
  | option definition occurrence =>
    obtain ⟨paths, hPaths⟩ := hEntering (.sequence definition :: after) (List.forall_mem_cons.mpr
      ⟨Segment.isSound_sequence fun q hq => hNodes q (List.mem_cons_of_mem _ hq), hAfter⟩)
    exact ⟨_, Option.map_eq_some_iff.mpr ⟨paths, hPaths, rfl⟩⟩
  | repetition mandatory separator definition occurrence =>
    have hAgain := Segment.inherits_isSound.again mandatory separator definition occurrence hNodes
    obtain ⟨paths, hPaths⟩ := hEntering
      (.sequence definition :: .again definition separator :: after)
      (List.forall_mem_cons.mpr ⟨Segment.isSound_sequence hAgain.parts,
        List.forall_mem_cons.mpr ⟨hAgain, hAfter⟩⟩)
    exact ⟨_, Option.map_eq_some_iff.mpr ⟨paths, hPaths, rfl⟩⟩
  | alternation alternatives occurrence =>
    obtain ⟨paths, hPaths⟩ :=
      Lookahead.exists_paths? (v := v) (k := k) hOpens (Segment.inherits_isSound.entries hNodes)
    exact ⟨_, Option.map_eq_some_iff.mpr ⟨paths, hPaths, rfl⟩⟩

theorem exists_ofRules? (hRules : AllRules (Production.IsSound rules) rules) (fs : FirstSets) :
    ∃ a, Analysis.ofRules? v rules fs k = some a := by
  refine exists_bind_mapM ?_ fun decisions => ⟨_, rfl⟩
  rintro ⟨id, site⟩ hSite
  obtain ⟨hNodes, hAfter⟩ := hRules.inherits_site Segment.inherits_isSound hSite
  obtain ⟨d?, hDecision⟩ := exists_decision? (v := v) (k := k) hOpens hNodes hAfter
  exact ⟨_, Option.map_eq_some_iff.mpr ⟨d?, hDecision, rfl⟩⟩

end Analysing

namespace Grammar

variable {α : Type} {g g' : Grammar α} {sources : List (RuleBody α)}

theorem IsCompiled.areSound (h : g.IsCompiled sources) :
    AllRules (Production.IsSound g.rules) g.rules :=
  fun r hr p hp => ⟨h.areResolved r hr p hp, h.areSolid r hr p hp⟩

theorem IsCompiled.opens (h : g.IsCompiled sources) (c : Continuation)
    (hc : ∀ segment ∈ c, segment.IsSound g.rules) :
    Lookahead.Opens g.rules (Lookahead.expand? g.rules 1 c) := by
  have hLeft := (List.append_eq_nil_iff.mp h.sound).1
  exact Lookahead.opens_expand? h.areSound (Structure.isOrdered_of_leftRecursions hLeft) hc

theorem IsCompiled.exists_lenient (h : g.IsCompiled sources) (k : Nat) :
    ∃ a, Grammar.IsCompiled
      { g with config := { g.config with maxLookahead := k, strict := false }, analysis := a }
      sources := by
  obtain ⟨a, ha⟩ := exists_ofRules? (v := g.vocabulary) (k := k) h.opens h.areSound
    (.ofRules g.rules)
  exact ⟨a, h.rules, h.bodies, h.named, h.sound, ha, fun hStrict => by cases hStrict⟩

theorem IsCompiled.errors_eq_nil (h : g.IsCompiled sources) (hStrict : g.config.strict = true)
    (h' : g'.IsCompiled sources) (hVocabulary : g'.vocabulary = g.vocabulary)
    (hLe : g.config.maxLookahead ≤ g'.config.maxLookahead) :
    Ambiguity.errors g'.vocabulary g'.rules (.ofRules g'.rules) g'.analysis = [] := by
  have hRules : g'.rules = g.rules := h'.rules.trans h.rules.symm
  refine Ambiguity.errors_eq_nil.mpr fun id r hr branches occurrence hNode => ?_
  obtain ⟨more, hMore, hDecisionMore⟩ := h'.exists_paths hr hNode
  rw [hRules] at hr hMore
  rw [hVocabulary] at hMore
  obtain ⟨less, hLess, hDecisionLess⟩ := h.exists_paths hr hNode
  have hNone := Ambiguity.errors_eq_nil.mp (h.unambiguous hStrict) id r hr branches occurrence hNode
  obtain ⟨hEmpty, hApart⟩ := (Ambiguity.alternationErrors_eq_nil hDecisionLess).mp hNone
  refine (Ambiguity.alternationErrors_eq_nil hDecisionMore).mpr ⟨hRules ▸ hEmpty, ?_⟩
  rw [hVocabulary]
  have hPositive : 0 < max g.config.maxLookahead 1 := Nat.le_max_right _ 1
  refine hApart.of_take hPositive fun m qs hm => ?_
  obtain ⟨index, b, rfl, hb, hqs, hChecked⟩ := Ambiguity.mem_checkedPaths.mp hm
  have hLength : more.length = less.length :=
    (Lookahead.length_paths? hMore).trans (Lookahead.length_paths? hLess).symm
  obtain ⟨ps, hps⟩ := exists_getElem?_of_length hLength hqs
  refine ⟨ps, Ambiguity.mem_checkedPaths.mpr ⟨index, b, rfl, hb, hps, hChecked⟩, fun q hq => ?_⟩
  obtain ⟨after, hSite⟩ := Analysis.exists_site_of_mem_nodes hr hNode
  have hSound := (h.areSound.inherits_site Segment.inherits_isSound hSite).1
  have hBranches := Segment.inherits_isSound.entries hSound
  exact Lookahead.take_mem_paths? h.opens hBranches hLe hLess hMore hps hqs hq

theorem IsCompiled.compile_eq (h : g.IsCompiled sources) {config : ParserConfig}
    (hLookahead : config.maxLookahead = g.config.maxLookahead)
    (hNone : Ambiguity.errors g.vocabulary g.rules (.ofRules g.rules) g.analysis = []) :
    compile g.vocabulary sources config = .ok { g with config, warnings := [] } := by
  have hCompiled : IsCompiled { g with config } sources :=
    { h with
      analysed := hLookahead ▸ h.analysed
      unambiguous := fun _ => hNone }
  have hAccepted := compile_of_isCompiled hCompiled
  rwa [hNone] at hAccepted

end Grammar

variable {α : Type} {v : Vocabulary} {bodies : List (RuleBody α)} {config : ParserConfig}
  {g : Grammar α} {k' : Nat}

/-- What compiles in strict mode with some lookahead does so with more. -/
theorem compile_more_lookahead (h : Grammar.compile v bodies config = .ok g)
    (hStrict : config.strict = true) (hLe : config.maxLookahead ≤ k') :
    ∃ g', Grammar.compile v bodies { config with maxLookahead := k' } = .ok g' := by
  obtain ⟨hCompiled, rfl, rfl⟩ := Grammar.compile_ok h
  obtain ⟨a, hLenient⟩ := hCompiled.exists_lenient k'
  have hNone := hCompiled.errors_eq_nil hStrict hLenient rfl hLe
  exact ⟨_, hLenient.compile_eq rfl hNone⟩

namespace CommonStart

def types : List TokenType :=
  [.literal "A" "a", .literal "B" "b", .literal "C" "c"]

def rules : List (RuleBody Unit) :=
  [⟨"start", [.choice 0 [.plain [.token 1, .token 2],
    .plain [.consume 1 1 none fun _ a => a, .token 3]] fun _ a => a]⟩]

end CommonStart

theorem compile_more_lookahead_commonStart :
    ∃ g g', Grammar.compile (.ofTypes CommonStart.types) CommonStart.rules { maxLookahead := 2 } =
        .ok g ∧
      Grammar.compile (.ofTypes CommonStart.types) CommonStart.rules { maxLookahead := 5 } =
        .ok g' := by
  have hAccepted : (Grammar.compile (.ofTypes CommonStart.types) CommonStart.rules
      { maxLookahead := 2 }).toOption.any (fun _ => true) = true := by decide +kernel
  obtain ⟨g, hCompile, -⟩ := Grammar.exists_compiled hAccepted
  obtain ⟨g', hCompile'⟩ := compile_more_lookahead hCompile rfl (by decide : 2 ≤ 5)
  exact ⟨g, g', hCompile, hCompile'⟩

/-- Less lookahead need not suffice. -/
example : (Grammar.compile (.ofTypes CommonStart.types) CommonStart.rules
    { maxLookahead := 1 }).toOption.isNone = true := by decide +kernel

end PredictiveParsing
