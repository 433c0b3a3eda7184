import Mathlib.Data.List.Perm.Subperm
import Mathlib.Data.List.Range
import PredictiveParsing.Proofs.Grammar.Sites

/-!
# No left recursion

A grammar that the search for cycles finds nothing in has an order on its rules: a rule comes after
those that it can enter before a token is consumed. What is visited during the search either is on
the path to the rule searched, or has been left with all that is below it in order.
-/

namespace PredictiveParsing.Structure

section Search

variable {rules : List Rule} {next : RuleId → List RuleId} {path visited : List RuleId}
  {found : CycleSearch} {fuel : Nat}

abbrev IsOrdered (next : RuleId → List RuleId) : RuleId → Prop := Acc fun a b => a ∈ next b

def IsExplored (next : RuleId → List RuleId) (path visited : List RuleId) : Prop :=
  ∀ r ∈ visited, r ∈ path ∨ IsOrdered next r

/-- What is known of a search for some rules that has found no error. -/
structure Explores (next : RuleId → List RuleId) (path searched : List RuleId)
    (before after : CycleSearch) : Prop where
  errors : before.errors = []
  explored : IsExplored next path before.visited → IsExplored next path after.visited
  ordered : IsExplored next path before.visited → ∀ r ∈ searched, IsOrdered next r

theorem explores_foldl {step : CycleSearch → RuleId → CycleSearch} {searched : List RuleId}
    (hStep : ∀ found, ∀ r ∈ searched, (step found r).errors = [] →
      Explores next path [r] found (step found r))
    (h : (searched.foldl step found).errors = []) :
    Explores next path searched found (searched.foldl step found) := by
  induction searched generalizing found with
  | nil => exact ⟨h, id, fun _ _ hr => by cases hr⟩
  | cons r searched ih =>
    have hRest := ih (fun found r hr => hStep found r (List.mem_cons_of_mem _ hr)) h
    have hFirst := hStep found r List.mem_cons_self hRest.errors
    refine ⟨hFirst.errors, fun hBefore => hRest.explored (hFirst.explored hBefore), ?_⟩
    intro hBefore q hq
    rcases List.mem_cons.mp hq with rfl | hq
    · exact hFirst.ordered hBefore q (List.mem_singleton_self q)
    · exact hRest.ordered (hFirst.explored hBefore) q hq

theorem length_le_of_nodup (hPath : path.Nodup) (hRange : ∀ r ∈ path, r < rules.length) :
    path.length ≤ rules.length := by
  have hSub : path ⊆ List.range rules.length := fun r hr => List.mem_range.mpr (hRange r hr)
  have hLe := (hPath.subperm hSub).length_le
  rwa [List.length_range] at hLe

theorem explores_search (hNext : ∀ r, ∀ q ∈ next r, q < rules.length) {r : RuleId}
    (hr : r < rules.length) (hPath : path.Nodup) (hRange : ∀ q ∈ path, q < rules.length)
    (hFuel : rules.length < fuel + path.length)
    (h : (search rules next fuel path found r).errors = []) :
    Explores next path [r] found (search rules next fuel path found r) := by
  induction fuel generalizing path found r with
  | zero =>
    have hLe := length_le_of_nodup hPath hRange
    omega
  | succ fuel ih =>
    rw [search] at h ⊢
    split
    · next hCycle =>
      rw [if_pos hCycle] at h
      exact absurd h (List.append_ne_nil_of_right_ne_nil _ (List.cons_ne_nil _ _))
    · next hNew =>
      rw [if_neg hNew] at h
      rw [List.contains_iff_mem] at hNew
      split
      · next hVisited =>
        rw [if_pos hVisited] at h
        refine ⟨h, id, fun hBefore q hq => ?_⟩
        obtain rfl := List.mem_singleton.mp hq
        exact (hBefore q (List.contains_iff_mem.mp hVisited)).resolve_left hNew
      · next hVisited =>
        rw [if_neg hVisited] at h
        have hBelow : Explores next (r :: path) (next r) { found with visited := r :: found.visited }
            _ := explores_foldl (fun found q hq hNone => ih (hNext r q hq)
              (List.nodup_cons.mpr ⟨hNew, hPath⟩) (List.forall_mem_cons.mpr ⟨hr, hRange⟩)
              (by rw [List.length_cons]; omega) hNone) h
        have hEntered : IsExplored next path found.visited →
            IsExplored next (r :: path) (r :: found.visited) := by
          intro hBefore q hq
          rcases List.mem_cons.mp hq with rfl | hq
          · exact .inl List.mem_cons_self
          · exact (hBefore q hq).imp_left (List.mem_cons_of_mem _)
        have hOrdered : IsExplored next path found.visited → IsOrdered next r :=
          fun hBefore => ⟨r, fun q hq => hBelow.ordered (hEntered hBefore) q hq⟩
        refine ⟨hBelow.errors, fun hBefore q hq => ?_, fun hBefore q hq => ?_⟩
        · rcases hBelow.explored (hEntered hBefore) q hq with hPath | hDone
          · rcases List.mem_cons.mp hPath with rfl | hPath
            · exact .inr (hOrdered hBefore)
            · exact .inl hPath
          · exact .inr hDone
        · obtain rfl := List.mem_singleton.mp hq
          exact hOrdered hBefore

end Search

variable {v : Vocabulary} {rules : List Rule} {fs : FirstSets}

theorem mem_openingRules {r q : RuleId} : q ∈ openingRules fs rules r ↔
    q < rules.length ∧ q ∈ (openingOf fs (definitionOf rules r)).1 := by
  rw [openingRules, List.mem_filter, List.mem_range, List.contains_iff_mem]

theorem isOrdered_of_leftRecursions (h : leftRecursions rules fs = []) (r : RuleId) :
    IsOrdered (openingRules fs rules) r := by
  by_cases hr : r < rules.length
  · have hAll : Explores (openingRules fs rules) [] (List.range rules.length) _ _ :=
      explores_foldl (fun found q hq hNone => explores_search
        (fun _ _ hNext => (mem_openingRules.mp hNext).1) (List.mem_range.mp hq) List.nodup_nil
        (fun _ h => by cases h) (by simp) hNone) h
    exact hAll.ordered (fun _ h => by cases h) r (List.mem_range.mpr hr)
  · refine ⟨r, fun q hq => ?_⟩
    have hNone : definitionOf rules r = [] := by
      rw [definitionOf, List.getElem?_eq_none (Nat.not_lt.mp hr)]
      rfl
    simp [openingRules, hNone, openingOf] at hq

/-! ## What productions enter first -/

mutual

theorem consumes_of_nullable (p : Production)
    (h : Production.nullable fs.isNullable p = true) : (opening fs p).2 = false := by
  cases p with
  | terminal token occurrence => simp [Production.nullable] at h
  | nonTerminal name target occurrence =>
    cases target with
    | none => simp [Production.nullable] at h
    | some target => simpa [Production.nullable, opening] using h
  | option definition occurrence => simp [opening]
  | repetition mandatory separator definition occurrence =>
    rw [Production.nullable, Bool.or_eq_true] at h
    rw [opening]
    rcases h with h | h
    · simpa using fun hMandatory => by simp [hMandatory] at h
    · simp [consumes_of_nullableAll definition h]
  | alternation alternatives occurrence =>
    rw [Production.nullable] at h
    rw [opening]
    exact consumes_of_nullableBranches alternatives h

theorem consumes_of_nullableAll (ps : List Production)
    (h : Production.nullableAll fs.isNullable ps = true) : (openingOf fs ps).2 = false := by
  cases ps with
  | nil => simp [openingOf]
  | cons p ps =>
    rw [Production.nullableAll, Bool.and_eq_true] at h
    simp [openingOf, consumes_of_nullable p h.1, consumes_of_nullableAll ps h.2]

theorem consumes_of_nullableBranches (branches : List (Alternative Production))
    (h : Production.nullableBranches fs.isNullable branches = true) :
    (openingOfBranches fs branches).2 = false := by
  cases branches with
  | nil => simp [Production.nullableBranches] at h
  | cons branch rest =>
    rw [Production.nullableBranches, Bool.or_eq_true] at h
    rw [openingOfBranches]
    rcases h with h | h
    · simp [consumes_of_nullableAll branch.definition h]
    · simp [consumes_of_nullableBranches rest h]

end

variable {ps qs : List Production} {r : RuleId}

theorem mem_openingOf_left (h : r ∈ (openingOf fs ps).1) : r ∈ (openingOf fs (ps ++ qs)).1 := by
  induction ps with
  | nil => simp [openingOf] at h
  | cons p ps ih =>
    rw [List.cons_append, openingOf]
    rw [openingOf] at h
    cases hp : (opening fs p).2 with
    | true => simpa [hp] using h
    | false =>
      simp only [hp, Bool.false_eq_true, if_false, List.mem_append] at h ⊢
      exact h.imp_right ih

theorem mem_openingOf_right (hNull : fs.nullableAll ps = true) (h : r ∈ (openingOf fs qs).1) :
    r ∈ (openingOf fs (ps ++ qs)).1 := by
  induction ps with
  | nil => exact h
  | cons p ps ih =>
    rw [FirstSets.nullableAll, Production.nullableAll, Bool.and_eq_true] at hNull
    rw [List.cons_append, openingOf]
    simp only [consumes_of_nullable p hNull.1, Bool.false_eq_true, if_false, List.mem_append]
    exact .inr (ih hNull.2)

theorem openingOf_singleton (p : Production) : (openingOf fs [p]).1 = (opening fs p).1 := by
  rw [openingOf]
  cases hp : (opening fs p).2 <;> simp [openingOf, hp]

theorem mem_openingOfBranches {branch : Alternative Production}
    {branches : List (Alternative Production)} (hBranch : branch ∈ branches)
    (h : r ∈ (openingOf fs branch.definition).1) : r ∈ (openingOfBranches fs branches).1 := by
  induction branches with
  | nil => cases hBranch
  | cons other rest ih =>
    rw [openingOfBranches, List.mem_append]
    rcases List.mem_cons.mp hBranch with rfl | hBranch
    · exact .inl h
    · exact .inr (ih hBranch)

end PredictiveParsing.Structure
