import PredictiveParsing.Proofs.Grammar.Deciding

/-!
# Alternations without ambiguities

The checks of lookahead report nothing exactly if all paths of the branches that they look at are
apart: none of them overlaps a path of another branch, or the beginning of a path of a later one.
-/

namespace PredictiveParsing

namespace Ambiguity

variable {v : Vocabulary} {checked : List (Nat × List Path)} {p q : Path} {n : Nat}

/-! ## Overlaps -/

theorem pathsOverlap_comm : pathsOverlap v p q = pathsOverlap v q p := by
  induction p generalizing q with
  | nil => cases q <;> rfl
  | cons a p ih =>
    cases q with
    | nil => rfl
    | cons b q => rw [pathsOverlap, pathsOverlap, ih, Bool.or_comm]

theorem pathsOverlap_take (h : pathsOverlap v p q = true) (n : Nat) :
    pathsOverlap v (p.take n) (q.take n) = true := by
  induction p generalizing q n with
  | nil =>
    cases q with
    | nil => simp [pathsOverlap]
    | cons b q => cases h
  | cons a p ih =>
    cases q with
    | nil => cases h
    | cons b q =>
      rw [pathsOverlap, Bool.and_eq_true] at h
      cases n with
      | zero => rfl
      | succ n =>
        rw [List.take_succ_cons, List.take_succ_cons, pathsOverlap, Bool.and_eq_true]
        exact ⟨h.1, ih h.2 n⟩

/-! ## Reports -/

theorem foldl_prefix {α β : Type} {step : List β → α → List β}
    (hGrow : ∀ found x, found <+: step found x) (xs : List α) (found : List β) : found <+: xs.foldl step found := by
  induction xs generalizing found with
  | nil => exact List.prefix_rfl
  | cons x xs ih => exact (hGrow found x).trans (ih _)

theorem foldl_eq_nil {α β : Type} {step : List β → α → List β}
    (hGrow : ∀ found x, found <+: step found x) (xs : List α) :
    xs.foldl step [] = [] ↔ ∀ x ∈ xs, step [] x = [] := by
  induction xs with
  | nil => simp
  | cons x xs ih =>
    rw [List.foldl_cons, List.forall_mem_cons]
    constructor
    · intro h
      have hPrefix := foldl_prefix hGrow xs (step [] x)
      rw [h] at hPrefix
      have hFirst : step [] x = [] := List.prefix_nil.mp hPrefix
      rw [hFirst] at h
      exact ⟨hFirst, ih.mp h⟩
    · rintro ⟨hFirst, hRest⟩
      rw [hFirst]
      exact ih.mpr hRest

theorem rivals_eq_nil : rivals v checked n p = [] ↔
    ∀ other ps, (other, ps) ∈ checked → other ≠ n → ∀ q ∈ ps, pathsOverlap v q p = false := by
  rw [rivals, List.filterMap_eq_nil_iff, Prod.forall]
  refine forall_congr' fun other => forall_congr' fun ps => imp_congr_right fun _ => ?_
  by_cases hSame : other = n
  · simp [hSame]
  · simp [hSame]

theorem sharedPaths_eq_nil : sharedPaths v checked = [] ↔
    ∀ number ps, (number, ps) ∈ checked → ∀ p ∈ ps, p ≠ [] → rivals v checked number p = [] := by
  rw [sharedPaths, foldl_eq_nil]
  · constructor
    · intro h number ps hMem p hp hSome
      have hNone := h (number, p) (List.mem_flatMap.mpr ⟨_, hMem, List.mem_map_of_mem hp⟩)
      by_contra hRivals
      simp [hSome, hRivals] at hNone
    · rintro h ⟨number, p⟩ hEntry
      obtain ⟨⟨number', ps⟩, hMem, hPath⟩ := List.mem_flatMap.mp hEntry
      obtain ⟨p', hp, hSame⟩ := List.mem_map.mp hPath
      cases hSame
      by_cases hSome : p = []
      · simp [hSome]
      · simp [h number ps hMem p hp hSome]
  · rintro found ⟨number, path⟩
    simp only
    split
    · exact List.prefix_rfl
    · split
      · exact List.prefix_rfl
      · exact List.prefix_append _ _

structure Apart (v : Vocabulary) (checked : List (Nat × List Path)) : Prop where
  unshared : ∀ m ps, (m, ps) ∈ checked → ∀ n qs, (n, qs) ∈ checked → n ≠ m →
    ∀ p ∈ ps, p ≠ [] → ∀ q ∈ qs, pathsOverlap v q p = false
  unshadowed : ∀ m ps, (m, ps) ∈ checked → ∀ n qs, (n, qs) ∈ checked → m < n →
    ∀ p ∈ ps, p ≠ [] → ∀ q ∈ qs, p.length < q.length → pathsOverlap v p (q.take p.length) = false

theorem shadowingPaths_eq_nil {r : Rule} {occurrence : Nat} :
    shadowingPaths v r occurrence checked = [] ↔
      ∀ m ps, (m, ps) ∈ checked → ∀ n qs, (n, qs) ∈ checked → m < n → ∀ p ∈ ps, p ≠ [] →
        ∀ q ∈ qs, p.length < q.length → pathsOverlap v p (q.take p.length) = false := by
  simp only [shadowingPaths, List.flatMap_eq_nil_iff, Prod.forall]
  refine forall_congr' fun m => forall_congr' fun ps => imp_congr_right fun _ =>
    forall_congr' fun n => forall_congr' fun qs => imp_congr_right fun _ => ?_
  by_cases hLt : m < n
  · rw [if_pos hLt]
    simp only [List.flatMap_eq_nil_iff, List.filterMap_eq_nil_iff, hLt, true_imp_iff]
    refine forall_congr' fun p => imp_congr_right fun _ => ?_
    by_cases hSome : p = []
    · simp [hSome]
    · simp [hSome]
  · simp [hLt]

theorem apart_iff {r : Rule} {occurrence : Nat} : Apart v checked ↔
    ambiguousBranches v r occurrence checked ++ shadowingPaths v r occurrence checked = [] := by
  rw [List.append_eq_nil_iff, ambiguousBranches, List.map_eq_nil_iff, sharedPaths_eq_nil,
    shadowingPaths_eq_nil]
  simp only [rivals_eq_nil]
  constructor
  · intro h
    exact ⟨fun m ps hm p hp hSome n qs hn hOther =>
      h.unshared m ps hm n qs hn hOther p hp hSome, h.unshadowed⟩
  · rintro ⟨hUnshared, hUnshadowed⟩
    exact ⟨fun m ps hm n qs hn hOther p hp hSome =>
      hUnshared m ps hm p hp hSome n qs hn hOther, hUnshadowed⟩

theorem mem_checkedPaths {branches : List (Alternative Production)} {paths : List (List Path)}
    {number : Nat} {ps : List Path} : (number, ps) ∈ checkedPaths branches paths ↔
      ∃ index b, number = index + 1 ∧ branches[index]? = some b ∧ paths[index]? = some ps ∧
        b.ignoreAmbiguities = false ∧ b.hasGate = false := by
  rw [checkedPaths, List.mem_filterMap]
  constructor
  · rintro ⟨⟨ps', index⟩, hEntry, hKept⟩
    simp only at hKept
    split at hKept
    · next b hb =>
      split at hKept
      · cases hKept
      · next hChecked =>
        cases hKept
        simp only [Bool.or_eq_true, not_or, Bool.not_eq_true] at hChecked
        exact ⟨index, b, rfl, hb, List.mk_mem_zipIdx_iff_getElem?.mp hEntry, hChecked⟩
    · cases hKept
  · rintro ⟨index, b, rfl, hb, hps, hMarked, hGated⟩
    refine ⟨(ps, index), List.mk_mem_zipIdx_iff_getElem?.mpr hps, ?_⟩
    simp [hb, hMarked, hGated]

/-! ## Alternations of a grammar -/

variable {rules : List Rule} {fs : FirstSets} {a : Analysis}

theorem errors_eq_nil : errors v rules fs a = [] ↔
    ∀ id r, rules[id]? = some r → ∀ branches occurrence,
      .alternation branches occurrence ∈ r.nodes →
        alternationErrors v fs a id r branches occurrence = [] := by
  rw [errors, List.flatMap_eq_nil_iff, Prod.forall, forall_comm]
  refine forall_congr' fun id => forall_congr' fun r => ?_
  rw [List.mk_mem_zipIdx_iff_getElem?]
  refine imp_congr_right fun _ => ?_
  rw [List.flatMap_eq_nil_iff]
  constructor
  · exact fun h branches occurrence hNode => h _ hNode
  · intro h p hp
    cases p with
    | alternation branches occurrence => exact h branches occurrence hp
    | terminal | nonTerminal | option | repetition => rfl

theorem alternationErrors_eq_nil {id : RuleId} {r : Rule} {branches : List (Alternative Production)}
    {occurrence : Nat} {d : Decision} (hDecision : a.decisionAt? ⟨id, .or, occurrence⟩ = some d) :
    alternationErrors v fs a id r branches occurrence = [] ↔
      emptyBranches fs r branches occurrence = [] ∧
        Apart v (checkedPaths branches d.alternatives) := by
  rw [alternationErrors, hDecision, List.append_eq_nil_iff]
  exact and_congr_right fun _ => apart_iff.symm

end Ambiguity

theorem Analysis.exists_site_of_mem_nodes {rules : List Rule} {id : RuleId} {r : Rule}
    {p : Production} (hr : rules[id]? = some r) (hp : p ∈ r.nodes) :
    ∃ after, (id, ⟨p, after⟩) ∈ sites rules := by
  rw [Rule.nodes, ← Site.map_production_along []] at hp
  obtain ⟨⟨p', after⟩, hSite, hSame⟩ := List.mem_map.mp hp
  cases hSame
  exact ⟨after, mem_sites.mpr ⟨r, hr, hSite⟩⟩

theorem Grammar.IsCompiled.exists_paths {α : Type} {g : Grammar α} {sources : List (RuleBody α)}
    (h : g.IsCompiled sources) {id : RuleId} {r : Rule} {branches : List (Alternative Production)}
    {occurrence : Nat} (hr : g.rules[id]? = some r)
    (hNode : .alternation branches occurrence ∈ r.nodes) :
    ∃ paths, Lookahead.paths? g.vocabulary g.rules g.config.maxLookahead
        (branches.map Alternative.entry) = some paths ∧
      g.analysis.decisionAt? ⟨id, .or, occurrence⟩ = some (.ofPaths g.vocabulary paths) := by
  obtain ⟨after, hSite⟩ := Analysis.exists_site_of_mem_nodes hr hNode
  obtain ⟨d?, hDecision⟩ := h.exists_decision hSite
  obtain ⟨paths, hPaths, rfl⟩ := Option.map_eq_some_iff.mp hDecision
  exact ⟨paths, hPaths, h.decisionAt? hSite hDecision⟩

end PredictiveParsing
