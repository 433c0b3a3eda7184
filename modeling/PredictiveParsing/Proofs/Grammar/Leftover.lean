import PredictiveParsing.Proofs.Grammar.Expansion

/-!
# What is left behind a token

How large a continuation can be when its next token has been read. Steps in front of the token do not
raise this. It is no more than the size of the continuation and what the rules can add, which is
bounded if no rule reaches itself.
-/

namespace PredictiveParsing

variable {fs : FirstSets} {rules : List Rule} {most : RuleId → Nat} {c d rest : Continuation}
  {segment : Segment} {p : Production} {ps : List Production}

namespace Production

mutual

/-- The size of what a production can leave of itself behind a token, with a bound for each rule. -/
def leftover (fs : FirstSets) (most : RuleId → Nat) : Production → Nat
  | .terminal _ _ => 0
  | .nonTerminal _ target _ => (target.map most).getD 0
  | .option definition _ => leftoverAll fs most definition
  | .repetition _ _ definition _ => leftoverAll fs most definition + 2 * sizeAll definition + 3
  | .alternation alternatives _ => leftoverOfBranches fs most alternatives

def leftoverAll (fs : FirstSets) (most : RuleId → Nat) : List Production → Nat
  | [] => 0
  | p :: ps => max (leftover fs most p + (1 + sizeAll ps))
      (if nullable fs.isNullable p then leftoverAll fs most ps else 0)

def leftoverOfBranches (fs : FirstSets) (most : RuleId → Nat) :
    List (Alternative Production) → Nat
  | [] => 0
  | ⟨definition, _, _⟩ :: rest =>
    max (leftoverAll fs most definition) (leftoverOfBranches fs most rest)

end

theorem leftoverAll_le_leftoverOfBranches {branch : Alternative Production}
    {branches : List (Alternative Production)} (h : branch ∈ branches) :
    leftoverAll fs most branch.definition ≤ leftoverOfBranches fs most branches := by
  induction branches with
  | nil => cases h
  | cons other rest ih =>
    rw [leftoverOfBranches]
    rcases List.mem_cons.mp h with rfl | h
    · exact Nat.le_max_left _ _
    · exact (ih h).trans (Nat.le_max_right _ _)

end Production

namespace Segment

def leftover (fs : FirstSets) (most : RuleId → Nat) : Segment → Nat
  | .sequence definition => Production.leftoverAll fs most definition
  | .again definition _ =>
    Production.leftoverAll fs most definition + 2 * Production.sizeAll definition + 3
  | .token _ => 0

/-- The next token can come from any segment up to the first one that cannot be empty. -/
def leftoverAll (fs : FirstSets) (most : RuleId → Nat) : Continuation → Nat
  | [] => 0
  | segment :: rest => max (leftover fs most segment + sizeAll rest)
      (if segment.vanishes fs then leftoverAll fs most rest else 0)

theorem sizeAll_append : sizeAll (c ++ d) = sizeAll c + sizeAll d := by
  induction c with
  | nil => exact (Nat.zero_add _).symm
  | cons segment c ih => rw [List.cons_append, sizeAll, sizeAll, ih, Nat.add_assoc]

theorem leftoverAll_append_le : leftoverAll fs most (c ++ d) ≤ max (leftoverAll fs most c + sizeAll d)
    (if (fs.firstOfContinuation c).2 then leftoverAll fs most d else 0) := by
  induction c with
  | nil => simp [FirstSets.firstOfContinuation]
  | cons segment c ih =>
    rw [List.cons_append, leftoverAll, leftoverAll, sizeAll_append, firstOfContinuation_snd]
    cases segment.vanishes fs with
    | true =>
      simp only [if_true, Bool.true_and]
      omega
    | false =>
      simp only [Bool.false_eq_true, if_false, Bool.false_and]
      omega

theorem sizeAll_remaining_le :
    sizeAll (Lookahead.remaining ps rest) ≤ 1 + Production.sizeAll ps + sizeAll rest := by
  unfold Lookahead.remaining
  split
  · exact Nat.le_add_left _ _
  · rw [sizeAll, size]

theorem leftoverAll_remaining_le : leftoverAll fs most (Lookahead.remaining ps rest) ≤
    leftoverAll fs most (.sequence ps :: rest) := by
  cases ps with
  | nil =>
    rw [leftoverAll, vanishes, FirstSets.nullableAll, Production.nullableAll, if_pos rfl]
    exact Nat.le_max_right _ _
  | cons p ps => exact Nat.le_refl _

theorem leftoverAll_le_of_vanishes (h : segment.vanishes fs = true) :
    leftoverAll fs most rest ≤ leftoverAll fs most (segment :: rest) := by
  rw [leftoverAll, if_pos h]
  exact Nat.le_max_right _ _

theorem leftover_add_sizeAll_remaining_le :
    p.leftover fs most + sizeAll (Lookahead.remaining ps rest) ≤
      leftoverAll fs most (.sequence (p :: ps) :: rest) := by
  have hSize : sizeAll (Lookahead.remaining ps rest) ≤ _ := sizeAll_remaining_le
  have hOwn : p.leftover fs most + (1 + Production.sizeAll ps) ≤
      Production.leftoverAll fs most (p :: ps) := Nat.le_max_left _ _
  have hAll : Production.leftoverAll fs most (p :: ps) + sizeAll rest ≤
      leftoverAll fs most (.sequence (p :: ps) :: rest) := Nat.le_max_left _ _
  omega

theorem leftoverAll_remaining_le_of_nullable (h : Production.nullable fs.isNullable p = true) :
    leftoverAll fs most (Lookahead.remaining ps rest) ≤
      leftoverAll fs most (.sequence (p :: ps) :: rest) := by
  have hNull : fs.nullableAll (p :: ps) = fs.nullableAll ps := by
    rw [FirstSets.nullableAll, Production.nullableAll, h, Bool.true_and, FirstSets.nullableAll]
  have hSkip : Production.leftoverAll fs most ps ≤ Production.leftoverAll fs most (p :: ps) := by
    rw [Production.leftoverAll, if_pos h]
    exact Nat.le_max_right _ _
  refine leftoverAll_remaining_le.trans ?_
  rw [leftoverAll, leftoverAll, leftover, leftover, vanishes, vanishes, hNull]
  exact max_le_max (Nat.add_le_add_right hSkip _) (Nat.le_refl _)

end Segment

def Suffices (fs : FirstSets) (most : RuleId → Nat) (rules : List Rule) : Prop :=
  ∀ id < rules.length, Production.leftoverAll fs most (definitionOf rules id) ≤ most id

/-! ## Steps -/

section Steps

variable (hMost : Suffices (.ofRules rules) most rules)

include hMost

theorem leftover_le_of_expands (h : p.Expands rules c) (hSolid : p.IsSolid (.ofRules rules)) :
    Segment.leftoverAll (.ofRules rules) most c ≤ p.leftover (.ofRules rules) most := by
  cases h with
  | terminal | noOption | noIteration => exact Nat.zero_le _
  | reference hTarget =>
    have hLe := hMost _ hTarget
    simpa [Segment.leftoverAll, Segment.leftover, Segment.sizeAll, Production.leftover] using hLe
  | option => simp [Segment.leftoverAll, Segment.leftover, Segment.sizeAll, Production.leftover]
  | iteration =>
    have hFull : FirstSets.nullableAll (.ofRules rules) _ = false := hSolid
    simp only [Segment.leftoverAll, Segment.leftover, Segment.vanishes, hFull, Segment.sizeAll,
      Segment.size, Production.leftover, Bool.false_eq_true, if_false]
    omega
  | alternative branch hBranch =>
    have hLe : Production.leftoverAll (.ofRules rules) most branch.definition ≤ _ :=
      Production.leftoverAll_le_leftoverOfBranches hBranch
    simpa [Segment.leftoverAll, Segment.leftover, Segment.sizeAll, Production.leftover] using hLe

theorem leftoverAll_append_remaining_le (h : p.Expands rules c)
    (hSolid : p.IsSolid (.ofRules rules)) :
    Segment.leftoverAll (.ofRules rules) most (c ++ Lookahead.remaining ps rest) ≤
      Segment.leftoverAll (.ofRules rules) most (.sequence (p :: ps) :: rest) := by
  have hOwn := leftover_le_of_expands hMost h hSolid
  refine Segment.leftoverAll_append_le.trans (max_le ?_ ?_)
  · exact (Nat.add_le_add_right hOwn _).trans Segment.leftover_add_sizeAll_remaining_le
  · split
    · next hEmpty =>
      have hNull := nullable_of_expands_vanishing h hEmpty
      exact Segment.leftoverAll_remaining_le_of_nullable hNull
    · exact Nat.zero_le _

/-- A step in front of the next token does not raise what is left behind it, and the step that reads
it leaves no more. -/
theorem leftover_of_mem_successors {q : Partial} (hc : ∀ segment ∈ c, segment.IsSound rules)
    (hq : q ∈ Lookahead.successors rules c) :
    q.path = [] ∧ Segment.leftoverAll (.ofRules rules) most q.rest ≤
        Segment.leftoverAll (.ofRules rules) most c ∨
      (∃ token, q.path = [token]) ∧
        Segment.sizeAll q.rest ≤ Segment.leftoverAll (.ofRules rules) most c := by
  cases c with
  | nil => cases hq
  | cons segment rest =>
    obtain ⟨hFirst, hRest⟩ := List.forall_mem_cons.mp hc
    cases segment with
    | token token =>
      obtain rfl := List.mem_singleton.mp hq
      refine .inr ⟨⟨token, rfl⟩, ?_⟩
      rw [Segment.leftoverAll, Segment.leftover, Nat.zero_add]
      exact Nat.le_max_left _ _
    | again definition separator =>
      have hFull := hFirst.iterates _ _ rfl
      rcases List.mem_pair.mp hq with rfl | rfl
      · refine .inl ⟨rfl, ?_⟩
        cases separator <;>
        · simp only [Lookahead.another, List.cons_append, List.nil_append, Segment.leftoverAll,
            Segment.leftover, Segment.vanishes, hFull, Segment.sizeAll, Segment.size,
            Bool.false_eq_true, if_false, if_true]
          omega
      · exact .inl ⟨rfl, Segment.leftoverAll_le_of_vanishes rfl⟩
    | sequence definition =>
      cases definition with
      | nil =>
        obtain rfl := List.mem_singleton.mp hq
        exact .inl ⟨rfl, Segment.leftoverAll_le_of_vanishes rfl⟩
      | cons p ps =>
        obtain ⟨way, hWay, rfl⟩ := List.mem_map.mp hq
        obtain ⟨hResolved, hSolid⟩ := hFirst.parts p
          (List.mem_append_left _ (Production.mem_nodes_self p))
        rcases Lookahead.ways_cases hResolved hWay with
          ⟨token, occurrence, rfl, rfl⟩ | ⟨d, hExpands, rfl⟩ | ⟨definition, occurrence, rfl, rfl⟩
        · refine .inr ⟨⟨token, rfl⟩, ?_⟩
          exact (Nat.le_add_left _ _).trans (Segment.leftover_add_sizeAll_remaining_le
            (p := .terminal token occurrence))
        · exact .inl ⟨rfl, leftoverAll_append_remaining_le hMost hExpands hSolid⟩
        · refine .inl ⟨rfl, max_le ?_ ?_⟩
          · exact Segment.leftover_add_sizeAll_remaining_le
              (p := .repetition false none definition occurrence)
          · rw [Segment.vanishes, if_pos rfl]
            exact Segment.leftoverAll_remaining_le_of_nullable rfl

end Steps

/-! ## Bounds -/

namespace Production

def spread (n : Nat) : Nat := n * (n + 3)

theorem spread_succ (n : Nat) : spread (n + 1) = spread n + 2 * n + 4 := by
  simp only [spread, Nat.add_mul, Nat.mul_add]
  omega

theorem spread_add_le (m n : Nat) : spread m + n ≤ spread (m + n) := by
  induction n with
  | zero => exact Nat.le_refl _
  | succ n ih =>
    rw [← Nat.add_assoc m, spread_succ]
    omega

theorem spread_mono {m n : Nat} (h : m ≤ n) : spread m ≤ spread n :=
  Nat.mul_le_mul h (Nat.add_le_add_right h 3)

variable {m : Nat}

mutual

theorem leftover_le (p : Production) (h : ∀ q ∈ (Structure.opening fs p).1, most q ≤ m) :
    p.leftover fs most ≤ m + spread p.size := by
  cases p with
  | terminal token occurrence => exact Nat.zero_le _
  | nonTerminal name target occurrence =>
    cases target with
    | none => exact Nat.zero_le _
    | some target =>
      have hTarget := h target (by simp [Structure.opening])
      exact Nat.le_add_right_of_le hTarget
  | option definition occurrence =>
    have hLe := leftoverAll_le definition h
    rw [leftover, size, Nat.add_comm 1, spread_succ]
    omega
  | repetition mandatory separator definition occurrence =>
    have hLe := leftoverAll_le definition h
    rw [leftover, size, Nat.add_comm 1, spread_succ]
    omega
  | alternation alternatives occurrence =>
    have hLe := leftoverOfBranches_le alternatives h
    rw [leftover, size, Nat.add_comm 1, spread_succ]
    omega

theorem leftoverAll_le (ps : List Production)
    (h : ∀ q ∈ (Structure.openingOf fs ps).1, most q ≤ m) :
    leftoverAll fs most ps ≤ m + spread (sizeAll ps) + 1 := by
  cases ps with
  | nil => exact Nat.zero_le _
  | cons p ps =>
    have hFirst := leftover_le p fun q hq => by
      rw [← Structure.openingOf_singleton] at hq
      have hMem : q ∈ (Structure.openingOf fs ([p] ++ ps)).1 := Structure.mem_openingOf_left hq
      exact h q hMem
    rw [leftoverAll, sizeAll]
    refine max_le ?_ ?_
    · have hSpread := spread_add_le p.size (sizeAll ps)
      omega
    · split
      · next hNull =>
        have hSkipped : fs.nullableAll [p] = true := by
          simpa [FirstSets.nullableAll, nullableAll] using hNull
        have hRest := leftoverAll_le ps fun q hq => by
          have hMem : q ∈ (Structure.openingOf fs ([p] ++ ps)).1 :=
            Structure.mem_openingOf_right hSkipped hq
          exact h q hMem
        have hSpread : spread (sizeAll ps) ≤ spread (p.size + sizeAll ps) :=
          spread_mono (Nat.le_add_left _ _)
        omega
      · exact Nat.zero_le _

theorem leftoverOfBranches_le (branches : List (Alternative Production))
    (h : ∀ q ∈ (Structure.openingOfBranches fs branches).1, most q ≤ m) :
    leftoverOfBranches fs most branches ≤ m + spread (sizeOfBranches branches) + 1 := by
  cases branches with
  | nil => exact Nat.zero_le _
  | cons branch rest =>
    have hFirst := leftoverAll_le branch.definition fun q hq => h q (by
      rw [Structure.openingOfBranches]
      exact List.mem_append_left _ hq)
    have hRest := leftoverOfBranches_le rest fun q hq => h q (by
      rw [Structure.openingOfBranches]
      exact List.mem_append_right _ hq)
    rw [leftoverOfBranches, sizeOfBranches]
    refine max_le (hFirst.trans ?_) (hRest.trans ?_)
    · exact Nat.succ_le_succ (Nat.add_le_add_left (spread_mono (Nat.le_add_right _ _)) m)
    · exact Nat.succ_le_succ (Nat.add_le_add_left (spread_mono (Nat.le_add_left _ _)) m)

end

theorem leftoverAll_le_of_small {n : Nat} (hMost : ∀ r, most r ≤ m) (ps : List Production)
    (hSmall : ∀ p ∈ ps, p.size ≤ n) :
    leftoverAll fs most ps ≤ m + spread n + 1 + sizeAll ps := by
  induction ps with
  | nil => exact Nat.zero_le _
  | cons p ps ih =>
    obtain ⟨hFirst, hRest⟩ := List.forall_mem_cons.mp hSmall
    have hLe : p.leftover fs most ≤ m + spread p.size := leftover_le p fun q _ => hMost q
    have hSpread := spread_mono hFirst
    have hLater := ih hRest
    rw [leftoverAll, sizeAll]
    split <;> omega

end Production

namespace Lookahead

/-- A bound for each rule: what its own definition can leave, as often as rules can come first one in
another. -/
def rankMost (rules : List Rule) (rank : RuleId → Nat) (r : RuleId) : Nat :=
  if r < rules.length then (rank r + 1) * (Production.spread (largest rules) + 1) else 0

variable {rank : RuleId → Nat} {r : RuleId}

theorem rankMost_le (h : rank r ≤ rules.length) : rankMost rules rank r ≤
    (rules.length + 1) * (Production.spread (largest rules) + 1) := by
  rw [rankMost]
  split
  · exact Nat.mul_le_mul_right _ (Nat.add_le_add_right h 1)
  · exact Nat.zero_le _

theorem suffices_rankMost (h : ∀ r, ∀ q ∈ Structure.openingRules fs rules r, rank q < rank r) :
    Suffices fs (rankMost rules rank) rules := by
  intro id hId
  have hBelow : ∀ q ∈ (Structure.openingOf fs (definitionOf rules id)).1,
      rankMost rules rank q ≤ rank id * (Production.spread (largest rules) + 1) := by
    intro q hq
    rw [rankMost]
    split
    · next hRange =>
      have hLower := h id q (Structure.mem_openingRules.mpr ⟨hRange, hq⟩)
      exact Nat.mul_le_mul_right _ hLower
    · exact Nat.zero_le _
  have hLe := Production.leftoverAll_le _ hBelow
  have hSpread : Production.spread _ ≤ Production.spread (largest rules) :=
    Production.spread_mono (size_le_largest id)
  rw [rankMost, if_pos hId, Nat.succ_mul]
  omega

end Lookahead

theorem exists_most (hOrdered : ∀ r, Structure.IsOrdered (Structure.openingRules fs rules) r) :
    ∃ most, Suffices fs most rules ∧ ∀ r, most r ≤
      (rules.length + 1) * (Production.spread (Lookahead.largest rules) + 1) := by
  obtain ⟨rank, hRank, hBound⟩ := Structure.exists_rank hOrdered
    fun _ _ hq => (Structure.mem_openingRules.mp hq).1
  exact ⟨_, Lookahead.suffices_rankMost hRank, fun r => Lookahead.rankMost_le (hBound r)⟩

/-- What the rules can leave behind a token is within the bound of expansions. -/
theorem Lookahead.leftover_le_nested :
    (rules.length + 2) * (Production.spread (largest rules) + 1) ≤ nested rules := by
  have hSquare : 2 * (Production.spread (largest rules) + 1) ≤ base rules ^ 2 := by
    rw [Production.spread, base, Nat.pow_two]
    generalize largest rules = n
    simp only [Nat.mul_add, Nat.add_mul, Nat.mul_assoc, Nat.mul_left_comm n 2]
    omega
  have hPower : rules.length + 2 ≤ base rules ^ rules.length * 2 := by
    have hLt : rules.length < base rules ^ rules.length :=
      Nat.lt_pow_self (Nat.lt_add_left (2 * largest rules) (by decide))
    omega
  calc (rules.length + 2) * (Production.spread (largest rules) + 1)
      ≤ base rules ^ rules.length * (2 * (Production.spread (largest rules) + 1)) := by
        rw [← Nat.mul_assoc]
        exact Nat.mul_le_mul_right _ hPower
    _ ≤ base rules ^ rules.length * base rules ^ 2 := Nat.mul_le_mul_left _ hSquare
    _ = nested rules := (Nat.pow_add _ _ _).symm

end PredictiveParsing
