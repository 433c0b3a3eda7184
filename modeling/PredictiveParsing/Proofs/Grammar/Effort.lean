import PredictiveParsing.Proofs.Grammar.LeftRecursion
import PredictiveParsing.Proofs.Grammar.Starts

/-!
# The effort of reaching a token

What a continuation holds up to the first segment that cannot be empty, rules weighed so that each
weighs more than its definition. Expanding takes some of it away with every step in front of a
token. Without left recursion such weights exist, and they are bounded by the sizes of the rules.
-/

namespace PredictiveParsing

variable {fs : FirstSets} {rules : List Rule} {weigh : RuleId → Nat} {c d rest : Continuation}
  {segment : Segment} {p : Production} {ps : List Production}

namespace Production

mutual

/-- More than the number of steps in front of a token within a production. -/
def effort (fs : FirstSets) (weigh : RuleId → Nat) : Production → Nat
  | .terminal _ _ => 2
  | .nonTerminal _ target _ => (target.map weigh).getD 2
  | .option definition _ => 2 + effortAll fs weigh definition
  | .repetition _ _ definition _ => 3 + effortAll fs weigh definition
  | .alternation alternatives _ => 2 + effortOfBranches fs weigh alternatives

def effortAll (fs : FirstSets) (weigh : RuleId → Nat) : List Production → Nat
  | [] => 0
  | p :: ps => effort fs weigh p + if nullable fs.isNullable p then effortAll fs weigh ps else 0

def effortOfBranches (fs : FirstSets) (weigh : RuleId → Nat) :
    List (Alternative Production) → Nat
  | [] => 0
  | ⟨definition, _, _⟩ :: rest => effortAll fs weigh definition + effortOfBranches fs weigh rest

end

theorem effortAll_le_effortOfBranches {branch : Alternative Production}
    {branches : List (Alternative Production)} (h : branch ∈ branches) :
    effortAll fs weigh branch.definition ≤ effortOfBranches fs weigh branches := by
  induction branches with
  | nil => cases h
  | cons other rest ih =>
    rw [effortOfBranches]
    rcases List.mem_cons.mp h with rfl | h
    · exact Nat.le_add_right _ _
    · exact Nat.le_add_left_of_le (ih h)

end Production

namespace Segment

def effort (fs : FirstSets) (weigh : RuleId → Nat) : Segment → Nat
  | .sequence definition => 1 + Production.effortAll fs weigh definition
  | .again definition _ => 2 + Production.effortAll fs weigh definition
  | .token _ => 1

/-- The effort of segments one after the other, up to the first one that cannot be empty. -/
def effortAll (fs : FirstSets) (weigh : RuleId → Nat) : Continuation → Nat
  | [] => 0
  | segment :: rest =>
    effort fs weigh segment + if segment.vanishes fs then effortAll fs weigh rest else 0

def sizeAll : Continuation → Nat
  | [] => 0
  | segment :: rest => segment.size + sizeAll rest

theorem effortAll_append : effortAll fs weigh (c ++ d) =
    effortAll fs weigh c + if (fs.firstOfContinuation c).2 then effortAll fs weigh d else 0 := by
  induction c with
  | nil => simp [effortAll, FirstSets.firstOfContinuation]
  | cons segment c ih =>
    rw [List.cons_append, effortAll, effortAll, ih, firstOfContinuation_snd]
    cases segment.vanishes fs with
    | true => simp [Nat.add_assoc]
    | false => simp

theorem effortAll_sequence_cons : effortAll fs weigh (.sequence (p :: ps) :: rest) =
    1 + p.effort fs weigh + if Production.nullable fs.isNullable p then
      Production.effortAll fs weigh ps + if fs.nullableAll ps then effortAll fs weigh rest else 0
    else 0 := by
  rw [effortAll, effort, Production.effortAll, vanishes, FirstSets.nullableAll,
    Production.nullableAll]
  cases Production.nullable fs.isNullable p with
  | true =>
    simp only [if_true, Bool.true_and, Nat.add_assoc]
    rfl
  | false => simp

theorem effortAll_remaining_le : effortAll fs weigh (Lookahead.remaining ps rest) ≤
    1 + (Production.effortAll fs weigh ps + if fs.nullableAll ps then effortAll fs weigh rest
      else 0) := by
  cases ps with
  | nil => simp [Lookahead.remaining, FirstSets.nullableAll, Production.nullableAll,
      Production.effortAll]
  | cons p ps =>
    rw [Lookahead.remaining, List.isEmpty_cons, if_neg Bool.false_ne_true, effortAll, effort,
      vanishes, Nat.add_assoc]

end Segment

def Outweighs (fs : FirstSets) (weigh : RuleId → Nat) (rules : List Rule) : Prop :=
  ∀ id < rules.length, 1 + Production.effortAll fs weigh (definitionOf rules id) < weigh id

section Steps

variable (hWeights : Outweighs (.ofRules rules) weigh rules)

include hWeights

theorem effort_lt_of_expands (h : p.Expands rules c) (hSolid : p.IsSolid (.ofRules rules)) :
    Segment.effortAll (.ofRules rules) weigh c < p.effort (.ofRules rules) weigh := by
  cases h with
  | terminal => simp [Segment.effortAll, Segment.effort, Segment.vanishes, Production.effort]
  | reference hTarget =>
    have hLt := hWeights _ hTarget
    simpa [Segment.effortAll, Segment.effort, Production.effort] using hLt
  | noOption | noIteration =>
    rw [Segment.effortAll, Production.effort]
    omega
  | option => simp [Segment.effortAll, Segment.effort, Production.effort]
  | iteration =>
    have hFull : FirstSets.nullableAll (.ofRules rules) _ = false := hSolid
    simp [Segment.effortAll, Segment.effort, Segment.vanishes, Production.effort, hFull]
  | alternative branch hBranch =>
    simp only [Segment.effortAll, Segment.effort, Production.effort, ite_self, Nat.add_zero]
    exact Nat.add_lt_add_of_lt_of_le Nat.one_lt_two
      (Production.effortAll_le_effortOfBranches hBranch)

theorem effort_append_remaining_lt (h : p.Expands rules c) (hSolid : p.IsSolid (.ofRules rules)) :
    Segment.effortAll (.ofRules rules) weigh (c ++ Lookahead.remaining ps rest) <
      Segment.effortAll (.ofRules rules) weigh (.sequence (p :: ps) :: rest) := by
  have hLt := effort_lt_of_expands hWeights h hSolid
  have hRemaining : Segment.effortAll (.ofRules rules) weigh (Lookahead.remaining ps rest) ≤ _ :=
    Segment.effortAll_remaining_le
  rw [Segment.effortAll_append, Segment.effortAll_sequence_cons]
  cases hEmpty : ((FirstSets.ofRules rules).firstOfContinuation c).2 with
  | true =>
    rw [if_pos (nullable_of_expands_vanishing h hEmpty), if_pos rfl]
    omega
  | false =>
    rw [if_neg Bool.false_ne_true]
    omega

end Steps

/-! ## Bounds -/

section Bounds

variable {m : Nat}

namespace Production

mutual

theorem effort_le (hm : 3 ≤ m) (p : Production)
    (h : ∀ q ∈ (Structure.opening fs p).1, weigh q ≤ m) :
    p.effort fs weigh ≤ p.size * m := by
  cases p with
  | terminal token occurrence =>
    rw [effort, size]
    omega
  | nonTerminal name target occurrence =>
    cases target with
    | none =>
      simp only [effort, size, Option.map_none, Option.getD_none]
      omega
    | some target =>
      have hTarget := h target (by simp [Structure.opening])
      simpa [effort, size] using hTarget
  | option definition occurrence =>
    have hLe := effortAll_le hm definition h
    rw [effort, size, Nat.add_mul]
    omega
  | repetition mandatory separator definition occurrence =>
    have hLe := effortAll_le hm definition h
    rw [effort, size, Nat.add_mul]
    omega
  | alternation alternatives occurrence =>
    have hLe := effortOfBranches_le hm alternatives h
    rw [effort, size, Nat.add_mul]
    omega

theorem effortAll_le (hm : 3 ≤ m) (ps : List Production)
    (h : ∀ q ∈ (Structure.openingOf fs ps).1, weigh q ≤ m) :
    effortAll fs weigh ps ≤ sizeAll ps * m := by
  cases ps with
  | nil => exact Nat.zero_le _
  | cons p ps =>
    have hFirst := effort_le hm p fun q hq => by
      rw [← Structure.openingOf_singleton] at hq
      have hMem : q ∈ (Structure.openingOf fs ([p] ++ ps)).1 := Structure.mem_openingOf_left hq
      exact h q hMem
    rw [effortAll, sizeAll, Nat.add_mul]
    split
    · next hNull =>
      have hSkipped : fs.nullableAll [p] = true := by
        simpa [FirstSets.nullableAll, nullableAll] using hNull
      have hRest := effortAll_le hm ps fun q hq => by
        have hMem : q ∈ (Structure.openingOf fs ([p] ++ ps)).1 :=
          Structure.mem_openingOf_right hSkipped hq
        exact h q hMem
      exact Nat.add_le_add hFirst hRest
    · exact hFirst.trans (Nat.le_add_right _ _)

theorem effortOfBranches_le (hm : 3 ≤ m) (branches : List (Alternative Production))
    (h : ∀ q ∈ (Structure.openingOfBranches fs branches).1, weigh q ≤ m) :
    effortOfBranches fs weigh branches ≤ sizeOfBranches branches * m := by
  cases branches with
  | nil => exact Nat.zero_le _
  | cons branch rest =>
    have hFirst := effortAll_le hm branch.definition fun q hq => h q (by
      rw [Structure.openingOfBranches]
      exact List.mem_append_left _ hq)
    have hRest := effortOfBranches_le hm rest fun q hq => h q (by
      rw [Structure.openingOfBranches]
      exact List.mem_append_right _ hq)
    rw [effortOfBranches, sizeOfBranches, Nat.add_mul]
    exact Nat.add_le_add hFirst hRest

end

end Production

theorem Segment.effort_le (hm : 3 ≤ m) (h : ∀ q, weigh q ≤ m) (segment : Segment) :
    segment.effort fs weigh ≤ segment.size * m := by
  cases segment with
  | sequence definition =>
    have hLe : Production.effortAll fs weigh definition ≤ _ :=
      Production.effortAll_le hm definition fun q _ => h q
    rw [effort, size, Nat.add_mul]
    omega
  | again definition separator =>
    have hLe : Production.effortAll fs weigh definition ≤ _ :=
      Production.effortAll_le hm definition fun q _ => h q
    rw [effort, size, Nat.add_mul]
    omega
  | token token =>
    rw [effort, size]
    omega

theorem Segment.effortAll_le (hm : 3 ≤ m) (h : ∀ q, weigh q ≤ m) (c : Continuation) :
    effortAll fs weigh c ≤ sizeAll c * m := by
  induction c with
  | nil => exact Nat.zero_le _
  | cons segment c ih =>
    have hFirst : segment.effort fs weigh ≤ segment.size * m := effort_le hm h segment
    rw [effortAll, sizeAll, Nat.add_mul]
    split <;> omega

end Bounds

/-! ## Weights -/

theorem le_foldl_max (xs : List Nat) (start : Nat) :
    start ≤ xs.foldl max start ∧ ∀ x ∈ xs, x ≤ xs.foldl max start := by
  induction xs generalizing start with
  | nil => simp
  | cons x xs ih =>
    obtain ⟨hStart, hRest⟩ := ih (max start x)
    refine ⟨(Nat.le_max_left _ _).trans hStart, List.forall_mem_cons.mpr ⟨?_, hRest⟩⟩
    exact (Nat.le_max_right _ _).trans hStart

theorem size_le_largest (id : RuleId) :
    Production.sizeAll (definitionOf rules id) ≤ Lookahead.largest rules := by
  rw [definitionOf]
  cases hr : rules[id]? with
  | none => exact Nat.zero_le _
  | some r => exact (le_foldl_max _ 0).2 _ (List.mem_map_of_mem (List.mem_of_getElem? hr))

namespace Structure

variable {next : RuleId → List RuleId} {n : Nat}

open Relation

theorem not_transGen_self {α : Type} {r : α → α → Prop} {a : α} (h : Acc r a) :
    ¬ TransGen r a a := by
  have hBelow := h.transGen
  clear h
  induction hBelow with
  | intro a _ ih => exact fun hCycle => ih a hCycle hCycle

theorem exists_rank (hOrdered : ∀ r, IsOrdered next r) (hNext : ∀ r, ∀ q ∈ next r, q < n) :
    ∃ rank : RuleId → Nat, (∀ r, ∀ q ∈ next r, rank q < rank r) ∧ ∀ r, rank r ≤ n := by
  -- The rank of a rule is the number of rules that come before it.
  classical
  let below : RuleId → Finset RuleId := fun r =>
    (Finset.range n).filter fun q => TransGen (fun a b => a ∈ next b) q r
  refine ⟨fun r => (below r).card, fun r q hq => Finset.card_lt_card ⟨?_, fun hSub => ?_⟩, ?_⟩
  · intro p hp
    obtain ⟨hRange, hBelow⟩ := Finset.mem_filter.mp hp
    exact Finset.mem_filter.mpr ⟨hRange, hBelow.tail hq⟩
  · have hMem : q ∈ below r :=
      Finset.mem_filter.mpr ⟨Finset.mem_range.mpr (hNext r q hq), .single hq⟩
    exact not_transGen_self (hOrdered q) (Finset.mem_filter.mp (hSub hMem)).2
  · intro r
    have hLe := Finset.card_filter_le (Finset.range n) fun q =>
      TransGen (fun a b => a ∈ next b) q r
    rwa [Finset.card_range] at hLe

end Structure

namespace Lookahead

abbrev base (rules : List Rule) : Nat := 2 * largest rules + 4

abbrev nested (rules : List Rule) : Nat := Nat.pow (base rules) (rules.length + 2)

def rankWeight (rules : List Rule) (rank : RuleId → Nat) (r : RuleId) : Nat :=
  if r < rules.length then Nat.pow (base rules) (rank r + 2) else 0

variable {rank : RuleId → Nat} {r : RuleId}

theorem rankWeight_le (h : rank r ≤ rules.length) : rankWeight rules rank r ≤ nested rules := by
  rw [rankWeight]
  split
  · exact Nat.pow_le_pow_right (Nat.succ_pos _) (Nat.add_le_add_right h 2)
  · exact Nat.zero_le _

theorem outweighs_rankWeight
    (h : ∀ r, ∀ q ∈ Structure.openingRules fs rules r, rank q < rank r) :
    Outweighs fs (rankWeight rules rank) rules := by
  intro id hId
  have hSmall : 4 ≤ base rules ^ (rank id + 1) :=
    (Nat.le_add_left 4 _).trans (Nat.le_self_pow (Nat.succ_ne_zero _) _)
  have hBelow : ∀ q ∈ (Structure.openingOf fs (definitionOf rules id)).1,
      rankWeight rules rank q ≤ base rules ^ (rank id + 1) := by
    intro q hq
    rw [rankWeight]
    split
    · next hRange =>
      have hLower := h id q (Structure.mem_openingRules.mpr ⟨hRange, hq⟩)
      exact Nat.pow_le_pow_right (Nat.succ_pos _) (Nat.succ_le_succ hLower)
    · exact Nat.zero_le _
  -- What a rule enters first has a lower rank, so a definition weighs less than one more power.
  have hEffort := Production.effortAll_le (Nat.le_of_succ_le hSmall) _ hBelow
  have hSize : Production.sizeAll (definitionOf rules id) * base rules ^ (rank id + 1) ≤
      largest rules * base rules ^ (rank id + 1) := Nat.mul_le_mul_right _ (size_le_largest id)
  have hPower : Nat.pow (base rules) (rank id + 2) = base rules * base rules ^ (rank id + 1) :=
    Nat.pow_succ'
  rw [rankWeight, if_pos hId, hPower]
  calc 1 + Production.effortAll fs (rankWeight rules rank) (definitionOf rules id)
      < largest rules * base rules ^ (rank id + 1) + 4 * base rules ^ (rank id + 1) := by omega
    _ ≤ base rules * base rules ^ (rank id + 1) := by
      rw [← Nat.add_mul]
      refine Nat.mul_le_mul_right _ ?_
      unfold base
      omega

end Lookahead

/-- Without left recursion there are weights, none larger than the bound of expansions allows. -/
theorem exists_weights (hOrdered : ∀ r, Structure.IsOrdered (Structure.openingRules fs rules) r) :
    ∃ weigh, Outweighs fs weigh rules ∧ ∀ r, weigh r ≤ Lookahead.nested rules := by
  obtain ⟨rank, hRank, hBound⟩ := Structure.exists_rank hOrdered
    fun _ _ hq => (Structure.mem_openingRules.mp hq).1
  exact ⟨_, Lookahead.outweighs_rankWeight hRank, fun r => Lookahead.rankWeight_le (hBound r)⟩

end PredictiveParsing
