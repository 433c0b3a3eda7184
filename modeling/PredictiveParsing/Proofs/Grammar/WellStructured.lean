import PredictiveParsing.Proofs.Grammar.Effort
import PredictiveParsing.Proofs.Grammar.EmptyRules

/-!
# Grammars of sound structure

The checks of structure report nothing exactly if no rule comes back to itself before a token is
read, no iteration can be empty, no alternation is too large, and the productions of a rule are told
apart. The first two are said here by derivations, without the tables that the checks use.
-/

namespace PredictiveParsing

open Relation

/-- Some productions can invoke a rule before a token is read: all that comes in front of the
reference can stand for nothing. -/
inductive Invokes (rules : List Rule) (callee : RuleId) : List Production → Prop
  | here {name : String} {occurrence : Nat} {ps : List Production} :
      Invokes rules callee (.nonTerminal name (some callee) occurrence :: ps)
  | behind {p : Production} {ps : List Production} (hNull : Nullable rules [.sequence [p]])
      (h : Invokes rules callee ps) : Invokes rules callee (p :: ps)
  | option {definition : List Production} {occurrence : Nat} {ps : List Production}
      (h : Invokes rules callee definition) :
      Invokes rules callee (.option definition occurrence :: ps)
  | iteration {mandatory : Bool} {separator : Option TypeId} {definition : List Production}
      {occurrence : Nat} {ps : List Production} (h : Invokes rules callee definition) :
      Invokes rules callee (.repetition mandatory separator definition occurrence :: ps)
  | alternative {alternatives : List (Alternative Production)} {occurrence : Nat}
      {ps : List Production} (branch : Alternative Production) (hBranch : branch ∈ alternatives)
      (h : Invokes rules callee branch.definition) :
      Invokes rules callee (.alternation alternatives occurrence :: ps)

def InvokesFirst (rules : List Rule) (caller callee : RuleId) : Prop :=
  Invokes rules callee (definitionOf rules caller)

/-- A grammar whose structure is sound, told by what its productions derive. -/
structure IsWellStructured (v : Vocabulary) (rules : List Rule) : Prop where
  /-- No rule reaches itself through invocations in front of any token. -/
  noLeftRecursion : ∀ r, ¬ TransGen (InvokesFirst rules) r r
  noEmptyIteration : ∀ r ∈ rules, ∀ mandatory separator definition occurrence,
    .repetition mandatory separator definition occurrence ∈ r.nodes →
      ¬ Nullable rules [.sequence definition]
  fewAlternatives : ∀ r ∈ rules, ∀ alternatives occurrence,
    .alternation alternatives occurrence ∈ r.nodes → alternatives.length ≤ 255
  /-- The productions of a rule differ in kind, argument or occurrence. -/
  distinct : ∀ r ∈ rules, (r.nodes.map (Structure.OccurrenceKey.of v)).Nodup

theorem Invokes.lt_length {rules : List Rule} {callee : RuleId} {ps : List Production}
    (h : Invokes rules callee ps) (hps : ∀ q ∈ Production.nodesOf ps, q.IsResolved rules) :
    callee < rules.length := by
  induction h with
  | here =>
    obtain ⟨_, hSame, hTarget⟩ := hps _ (List.mem_append_left _ (Production.mem_nodes_self _))
    exact Option.some.inj hSame ▸ hTarget
  | behind _ _ ih => exact ih fun q hq => hps q (List.mem_append_right _ hq)
  | option _ ih | iteration _ ih =>
    exact ih fun q hq => hps q (List.mem_append_left _ (List.mem_cons_of_mem _ hq))
  | alternative branch hBranch _ ih =>
    exact ih fun q hq => hps q (List.mem_append_left _ (List.mem_cons_of_mem _
      (Production.mem_nodesOfBranches hBranch hq)))

namespace Structure

variable {v : Vocabulary} {rules : List Rule} {fs : FirstSets} {next : RuleId → List RuleId}
  {path : List RuleId} {found : CycleSearch} {r q : RuleId} {ps : List Production}

/-! ## What productions invoke first -/

mutual

theorem nullable_of_consumes (p : Production) (hp : ∀ q ∈ p.nodes, q.IsResolved rules)
    (h : (opening fs p).2 = false) : Production.nullable fs.isNullable p = true := by
  cases p with
  | terminal token occurrence => simp [opening] at h
  | nonTerminal name target occurrence =>
    obtain ⟨id, rfl, -⟩ := hp _ (Production.mem_nodes_self _)
    simpa [opening, Production.nullable] using h
  | option definition occurrence => simp [Production.nullable]
  | repetition mandatory separator definition occurrence =>
    cases mandatory with
    | false => simp [Production.nullable]
    | true =>
      have hBody := nullableAll_of_consumes definition
        (fun q hq => hp q (List.mem_cons_of_mem _ hq)) (by simpa [opening] using h)
      simpa [Production.nullable] using hBody
  | alternation alternatives occurrence =>
    rw [opening] at h
    rw [Production.nullable]
    exact nullableBranches_of_consumes alternatives
      (fun q hq => hp q (List.mem_cons_of_mem _ hq)) h

theorem nullableAll_of_consumes (ps : List Production)
    (hps : ∀ q ∈ Production.nodesOf ps, q.IsResolved rules) (h : (openingOf fs ps).2 = false) :
    Production.nullableAll fs.isNullable ps = true := by
  cases ps with
  | nil => simp [Production.nullableAll]
  | cons p ps =>
    cases hConsumes : (opening fs p).2 with
    | true => simp [openingOf, hConsumes] at h
    | false =>
      rw [Production.nullableAll, Bool.and_eq_true]
      refine ⟨nullable_of_consumes p (fun q hq => hps q (List.mem_append_left _ hq)) hConsumes, ?_⟩
      exact nullableAll_of_consumes ps (fun q hq => hps q (List.mem_append_right _ hq))
        (by simpa [openingOf, hConsumes] using h)

theorem nullableBranches_of_consumes (branches : List (Alternative Production))
    (hBranches : ∀ q ∈ Production.nodesOfBranches branches, q.IsResolved rules)
    (h : (openingOfBranches fs branches).2 = false) :
    Production.nullableBranches fs.isNullable branches = true := by
  cases branches with
  | nil => simp [openingOfBranches] at h
  | cons branch rest =>
    rw [openingOfBranches] at h
    rw [Production.nullableBranches, Bool.or_eq_true]
    cases hFirst : (openingOf fs branch.definition).2 with
    | false =>
      exact .inl (nullableAll_of_consumes branch.definition
        (fun q hq => hBranches q (List.mem_append_left _ hq)) hFirst)
    | true =>
      exact .inr (nullableBranches_of_consumes rest
        (fun q hq => hBranches q (List.mem_append_right _ hq)) (by simpa [hFirst] using h))

end

mutual

theorem invokes_of_mem_opening (p : Production) (hp : ∀ q ∈ p.nodes, q.IsResolved rules)
    (h : r ∈ (opening (.ofRules rules) p).1) (ps : List Production) :
    Invokes rules r (p :: ps) := by
  cases p with
  | terminal token occurrence => simp [opening] at h
  | nonTerminal name target occurrence =>
    obtain ⟨id, rfl, -⟩ := hp _ (Production.mem_nodes_self _)
    obtain rfl : r = id := by simpa [opening] using h
    exact .here
  | option definition occurrence =>
    rw [opening] at h
    exact .option (invokes_of_mem_openingOf definition
      (fun q hq => hp q (List.mem_cons_of_mem _ hq)) h)
  | repetition mandatory separator definition occurrence =>
    rw [opening] at h
    exact .iteration (invokes_of_mem_openingOf definition
      (fun q hq => hp q (List.mem_cons_of_mem _ hq)) h)
  | alternation alternatives occurrence =>
    rw [opening] at h
    obtain ⟨branch, hBranch, hInvokes⟩ := exists_branch_of_mem_opening alternatives
      (fun q hq => hp q (List.mem_cons_of_mem _ hq)) h
    exact .alternative branch hBranch hInvokes

theorem invokes_of_mem_openingOf (ps : List Production)
    (hps : ∀ q ∈ Production.nodesOf ps, q.IsResolved rules)
    (h : r ∈ (openingOf (.ofRules rules) ps).1) : Invokes rules r ps := by
  cases ps with
  | nil => simp [openingOf] at h
  | cons p ps =>
    have hp : ∀ q ∈ p.nodes, q.IsResolved rules := fun q hq => hps q (List.mem_append_left _ hq)
    rw [openingOf] at h
    cases hConsumes : (opening (.ofRules rules) p).2 with
    | true => exact invokes_of_mem_opening p hp (by simpa [hConsumes] using h) ps
    -- What comes first in the rest comes first behind a production that can be empty.
    | false =>
      simp only [hConsumes, Bool.false_eq_true, if_false, List.mem_append] at h
      rcases h with h | h
      · exact invokes_of_mem_opening p hp h ps
      · have hSkipped : (FirstSets.ofRules rules).nullableAll [p] = true := by
          simpa [FirstSets.nullableAll, Production.nullableAll] using
            nullable_of_consumes p hp hConsumes
        exact .behind (FirstSets.nullableAll_iff.mp hSkipped)
          (invokes_of_mem_openingOf ps (fun q hq => hps q (List.mem_append_right _ hq)) h)

theorem exists_branch_of_mem_opening (branches : List (Alternative Production))
    (hBranches : ∀ q ∈ Production.nodesOfBranches branches, q.IsResolved rules)
    (h : r ∈ (openingOfBranches (.ofRules rules) branches).1) :
    ∃ branch ∈ branches, Invokes rules r branch.definition := by
  cases branches with
  | nil => simp [openingOfBranches] at h
  | cons branch rest =>
    rw [openingOfBranches, List.mem_append] at h
    rcases h with h | h
    · exact ⟨branch, List.mem_cons_self, invokes_of_mem_openingOf branch.definition
        (fun q hq => hBranches q (List.mem_append_left _ hq)) h⟩
    · obtain ⟨other, hOther, hInvokes⟩ := exists_branch_of_mem_opening rest
        (fun q hq => hBranches q (List.mem_append_right _ hq)) h
      exact ⟨other, List.mem_cons_of_mem _ hOther, hInvokes⟩

end

theorem mem_openingOf_head {p : Production} (h : r ∈ (opening fs p).1) (ps : List Production) :
    r ∈ (openingOf fs (p :: ps)).1 := by
  rw [← openingOf_singleton] at h
  have hMore : r ∈ (openingOf fs ([p] ++ ps)).1 := mem_openingOf_left h
  exact hMore

theorem mem_openingOf_of_invokes (h : Invokes rules r ps) :
    r ∈ (openingOf (.ofRules rules) ps).1 := by
  induction h with
  | here => exact mem_openingOf_head (by simp [opening]) _
  | behind hNull _ ih => exact mem_openingOf_right (FirstSets.nullableAll_iff.mpr hNull) ih
  | option _ ih => exact mem_openingOf_head (by rwa [opening]) _
  | iteration _ ih => exact mem_openingOf_head (by rwa [opening]) _
  | alternative branch hBranch _ ih =>
    refine mem_openingOf_head ?_ _
    rw [opening]
    exact mem_openingOfBranches hBranch ih

theorem mem_openingRules_iff (hRules : AllRules (Production.IsResolved rules) rules) :
    q ∈ openingRules (.ofRules rules) rules r ↔ InvokesFirst rules r q := by
  have hBody := throughout_sequence.mp (hRules.definition r)
  rw [mem_openingRules]
  constructor
  · exact fun h => invokes_of_mem_openingOf _ hBody h.2
  · exact fun h => ⟨h.lt_length hBody, mem_openingOf_of_invokes h⟩

/-! ## No cycles -/

theorem errors_foldl {step : CycleSearch → RuleId → CycleSearch} {searched : List RuleId}
    (hStep : ∀ found, ∀ q ∈ searched, (step found q).errors = found.errors) :
    (searched.foldl step found).errors = found.errors := by
  induction searched generalizing found with
  | nil => rfl
  | cons q searched ih =>
    have hRest : (searched.foldl step (step found q)).errors = (step found q).errors :=
      ih fun found p hp => hStep found p (List.mem_cons_of_mem _ hp)
    rw [List.foldl_cons, hRest, hStep found q List.mem_cons_self]

/-- If no rule comes back to itself, a search that came from the rules of its path finds no cycle. -/
theorem errors_search (hNone : ∀ q, ¬ TransGen (fun a b => b ∈ next a) q q) {fuel : Nat}
    (hPath : ∀ q ∈ path, TransGen (fun a b => b ∈ next a) q r) :
    (search rules next fuel path found r).errors = found.errors := by
  induction fuel generalizing path found r with
  | zero => rfl
  | succ fuel ih =>
    -- A rule that is on its own path would come back to itself.
    have hNew : path.contains r = false := by
      rw [← Bool.not_eq_true, List.contains_iff_mem]
      exact fun hCycle => hNone r (hPath r hCycle)
    rw [search, if_neg (Bool.eq_false_iff.mp hNew)]
    split
    · rfl
    · have hStep : ∀ found, ∀ q ∈ next r,
          (search rules next fuel (r :: path) found q).errors = found.errors := by
        intro found q hq
        refine ih (List.forall_mem_cons.mpr ⟨.single hq, fun p hp => ?_⟩)
        exact (hPath p hp).tail hq
      exact errors_foldl hStep

theorem leftRecursions_eq_nil_iff : leftRecursions rules fs = [] ↔
    ∀ r, ¬ TransGen (fun a b => b ∈ openingRules fs rules a) r r := by
  constructor
  · intro h r hCycle
    exact not_transGen_self (isOrdered_of_leftRecursions h r) hCycle.swap
  · intro hNone
    exact errors_foldl fun found q _ => errors_search hNone fun _ h => by cases h

/-! ## Other checks -/

theorem duplicatesFrom_eq_nil {ks seen : List OccurrenceKey} (hKeys : ks.Nodup)
    (hNew : ∀ k ∈ ks, k ∉ seen) : duplicatesFrom seen ks = [] := by
  induction ks generalizing seen with
  | nil => rfl
  | cons k ks ih =>
    obtain ⟨hFirst, hRest⟩ := List.nodup_cons.mp hKeys
    obtain ⟨hk, hOthers⟩ := List.forall_mem_cons.mp hNew
    rw [duplicatesFrom, List.count_eq_zero_of_not_mem hk, if_neg Nat.zero_ne_one, List.nil_append]
    refine ih hRest fun k' hk' hSeen => ?_
    rcases List.mem_cons.mp hSeen with rfl | hSeen
    · exact hFirst hk'
    · exact hOthers k' hk' hSeen

theorem duplicateOccurrences_eq_nil_iff {rule : Rule} :
    duplicateOccurrences v rule = [] ↔ (rule.nodes.map (OccurrenceKey.of v)).Nodup := by
  rw [duplicateOccurrences, List.map_eq_nil_iff]
  constructor
  · exact fun h => (nodup_of_duplicatesFrom List.nodup_nil h).1
  · exact fun h => duplicatesFrom_eq_nil h fun _ _ => List.not_mem_nil

theorem shapeErrors_eq_nil_iff {rule : Rule} : shapeErrors (.ofRules rules) rule = [] ↔
    (∀ mandatory separator definition occurrence,
      .repetition mandatory separator definition occurrence ∈ rule.nodes →
        ¬ Nullable rules [.sequence definition]) ∧
    ∀ alternatives occurrence, .alternation alternatives occurrence ∈ rule.nodes →
      alternatives.length ≤ maxAlternatives := by
  rw [shapeErrors, List.filterMap_eq_nil_iff]
  constructor
  · intro h
    constructor
    · intro mandatory separator definition occurrence hNode hNull
      have hNone := h _ hNode
      simp [FirstSets.nullableAll_iff.mpr hNull] at hNone
    · intro alternatives occurrence hNode
      simpa using h _ hNode
  · rintro ⟨hIterations, hAlternatives⟩ p hp
    cases p with
    | terminal | nonTerminal | option => rfl
    | repetition mandatory separator definition occurrence =>
      have hFull := hIterations _ _ _ _ hp
      rw [← FirstSets.nullableAll_iff] at hFull
      simp only [hFull, Bool.false_eq_true, if_false]
    | alternation alternatives occurrence =>
      simp only [Nat.not_lt.mpr (hAlternatives _ _ hp), if_false]

end Structure

/-- The checks of structure report nothing exactly if the structure is sound. -/
theorem structure_errors_eq_nil_iff {v : Vocabulary} {rules : List Rule}
    (hRules : AllRules (Production.IsResolved rules) rules) :
    Structure.errors v rules (.ofRules rules) = [] ↔ IsWellStructured v rules := by
  have hOpening : (fun a b => b ∈ Structure.openingRules (.ofRules rules) rules a) =
      InvokesFirst rules := by
    funext a b
    exact propext (Structure.mem_openingRules_iff hRules)
  simp only [Structure.errors, List.append_eq_nil_iff, List.flatMap_eq_nil_iff,
    Structure.leftRecursions_eq_nil_iff, Structure.duplicateOccurrences_eq_nil_iff,
    Structure.shapeErrors_eq_nil_iff, hOpening]
  constructor
  · rintro ⟨hRecursion, hEach⟩
    exact ⟨hRecursion, fun r hr => (hEach r hr).2.1, fun r hr => (hEach r hr).2.2,
      fun r hr => (hEach r hr).1⟩
  · intro h
    exact ⟨h.noLeftRecursion, fun r hr =>
      ⟨h.distinct r hr, h.noEmptyIteration r hr, h.fewAlternatives r hr⟩⟩

namespace Recursive

def vocabulary : Vocabulary :=
  .ofTypes [.literal "Number" "n", .literal "Plus" "+", .literal "Open" "(", .literal "Close" ")"]

def bracketed : List Rule :=
  [⟨"sum", [.repetition true (some 2) [.nonTerminal "value" (some 1) 0] 0], []⟩,
    ⟨"value", [.alternation [⟨[.terminal 1 0], false, false⟩,
      ⟨[.terminal 3 0, .nonTerminal "sum" (some 0) 0, .terminal 4 0], false, false⟩] 0], []⟩]

/-- Sums that begin with a sum, behind a sign that can be left out. -/
def signed : List Rule :=
  [⟨"sum", [.option [.terminal 2 0] 0, .nonTerminal "value" (some 1) 0], []⟩,
    ⟨"value", [.nonTerminal "sum" (some 0) 0, .terminal 2 0, .terminal 1 0], []⟩]

end Recursive

open Recursive in
theorem structure_errors_eq_nil_iff_recursive :
    AllRules (Production.IsResolved bracketed) bracketed ∧ IsWellStructured vocabulary bracketed ∧
      AllRules (Production.IsResolved signed) signed ∧ ¬ IsWellStructured vocabulary signed := by
  have hBracketed : AllRules (Production.IsResolved bracketed) bracketed := by decide
  have hSigned : AllRules (Production.IsResolved signed) signed := by decide
  have hSound : Structure.errors vocabulary bracketed (.ofRules bracketed) = [] := by
    decide +kernel
  have hErrors : Structure.errors vocabulary signed (.ofRules signed) ≠ [] := by decide +kernel
  exact ⟨hBracketed, (structure_errors_eq_nil_iff hBracketed).mp hSound, hSigned,
    fun h => hErrors ((structure_errors_eq_nil_iff hSigned).mpr h)⟩

end PredictiveParsing
