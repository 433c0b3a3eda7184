import Mathlib.Data.List.Sort
import PredictiveParsing.Proofs.Grammar.FirstSets

/-!
# First tokens as a loop

The sets of first tokens as a loop that goes over the rules in order, where a rule sees what has been
found for those before it, and begins again until nothing changes. The loop ends, and finds what the
rounds find.
-/

namespace PredictiveParsing

theorem TokenSet.eq_of_mem_iff {s t : TokenSet} (h : ∀ a, a ∈ s ↔ a ∈ t) : s = t := by
  obtain ⟨xs, hxs⟩ := s
  obtain ⟨ys, hys⟩ := t
  obtain rfl : xs = ys := List.Pairwise.eq_of_mem_iff hxs hys h
  rfl

/-! ## Sweeps over a table -/

section Sweeps

variable {β : Type}

/-- Goes over some rows of a table in order. Each is made from what the table holds by then. -/
def sweepRows (update : List β → Nat → β) (rs : List Nat) (table : List β) : List β :=
  rs.foldl (fun table r => table.set r (update table r)) table

def sweep (update : List β → Nat → β) (table : List β) : List β :=
  sweepRows update (List.range table.length) table

/-- Repeats a step until it changes nothing. The number of steps is bounded by the first argument. -/
def untilStable? [DecidableEq β] (step : β → β) : Nat → β → Option β
  | 0, _ => none
  | fuel + 1, x => if step x = x then some x else untilStable? step fuel (step x)

theorem untilStable?_eq [DecidableEq β] {step : β → β} {y : β} (hStable : step y = y) (n : Nat)
    {x : β} (h : step^[n] x = y) : untilStable? step (n + 1) x = some y := by
  induction n generalizing x with
  | zero =>
    obtain rfl : x = y := h
    rw [untilStable?, if_pos hStable]
  | succ n ih =>
    rw [untilStable?]
    split
    · next hFixed =>
      rw [Function.iterate_fixed hFixed] at h
      rw [h]
    · exact ih h

variable {update : List β → Nat → β} {rs : List Nat} {table : List β} {r : Nat}

theorem length_sweepRows : (sweepRows update rs table).length = table.length := by
  induction rs generalizing table with
  | nil => rfl
  | cons q rs ih => rw [sweepRows, List.foldl_cons, ← sweepRows, ih, List.length_set]

theorem length_iterate_sweep (k : Nat) : ((sweep update)^[k] table).length = table.length := by
  induction k with
  | zero => rfl
  | succ k ih => rw [Function.iterate_succ_apply', sweep, length_sweepRows, ih]

theorem getD_set (q : Nat) (x empty : β) :
    (table.set q x).getD r empty = if q = r ∧ r < table.length then x else table.getD r empty := by
  simp only [List.getD_eq_getElem?_getD, List.getElem?_set]
  by_cases hq : q = r
  · subst hq
    by_cases hLt : q < table.length
    · simp [hLt]
    · simp [hLt]
  · simp [hq]

end Sweeps

def Updates {β : Type} (empty : β) (has : β → Prop) (gets : (Nat → Prop) → Nat → Prop)
    (update : List β → Nat → β) : Prop :=
  ∀ table r, has (update table r) ↔
    has (table.getD r empty) ∨ gets (fun r => has (table.getD r empty)) r

section Table

variable {β : Type} {n : Nat} {empty : β} {has : β → Prop} {gets : (Nat → Prop) → Nat → Prop}
  {start table : List β} {round : List β → List β} {update : List β → Nat → β} {rs : List Nat}
  {r : Nat} (hUpdates : Updates empty has gets update)

include hUpdates

theorem Updates.keeps (h : has (table.getD r empty)) :
    has ((sweepRows update rs table).getD r empty) := by
  induction rs generalizing table with
  | nil => exact h
  | cons q rs ih =>
    refine ih ?_
    rw [getD_set]
    split
    · next hq =>
      obtain ⟨rfl, -⟩ := hq
      exact (hUpdates table q).mpr (.inl h)
    · exact h

variable (hTable : IsTable n empty has gets start round)

include hTable

/-- A row that is gone over has what it gets from the table as it was before, or more. -/
theorem Updates.has_of_gets (hMem : r ∈ rs) (hLt : r < table.length)
    (h : gets (fun r => has (table.getD r empty)) r) :
    has ((sweepRows update rs table).getD r empty) := by
  induction rs generalizing table with
  | nil => cases hMem
  | cons q rs ih =>
    by_cases hq : q = r
    · subst hq
      have hSet : has ((table.set q (update table q)).getD q empty) := by
        rw [getD_set, if_pos ⟨rfl, hLt⟩]
        exact (hUpdates table q).mpr (.inr h)
      change has ((sweepRows update rs (table.set q (update table q))).getD q empty)
      exact hUpdates.keeps hSet
    · have hRest := (List.mem_cons.mp hMem).resolve_left (Ne.symm hq)
      -- A row that is gone over before only adds to what the others are made from.
      have hOne : ∀ p, has (table.getD p empty) → has ((sweepRows update [q] table).getD p empty) :=
        fun p hp => hUpdates.keeps hp
      exact ih hRest (by rwa [List.length_set]) (hTable.grows hOne r h)

theorem Updates.within (hRows : ∀ q ∈ rs, q < n)
    (hWithin : ∀ r, has (table.getD r empty) → has ((Nat.repeat round n start).getD r empty))
    (h : has ((sweepRows update rs table).getD r empty)) :
    has ((Nat.repeat round n start).getD r empty) := by
  induction rs generalizing table with
  | nil => exact hWithin r h
  | cons q rs ih =>
    obtain ⟨hq, hRest⟩ := List.forall_mem_cons.mp hRows
    have hNext : ∀ p, has ((table.set q (update table q)).getD p empty) →
        has ((Nat.repeat round n start).getD p empty) := by
      intro p hp
      rw [getD_set] at hp
      split at hp
      · next hSame =>
        obtain ⟨rfl, -⟩ := hSame
        rcases (hUpdates table q).mp hp with hp | hp
        · exact hWithin q hp
        · exact hTable.closed hq (hTable.grows hWithin q hp)
      · exact hWithin p hp
    exact ih hRest hNext h

/-- Sweeps find at least what as many rounds find, and no more than all rounds. -/
theorem Updates.iterate (hLength : start.length = n) (k : Nat) (r : Nat) :
    (has ((Nat.repeat round k start).getD r empty) →
      has (((sweep update)^[k] start).getD r empty)) ∧
    (has (((sweep update)^[k] start).getD r empty) →
      has ((Nat.repeat round n start).getD r empty)) := by
  induction k generalizing r with
  | zero => exact ⟨id, fun h => absurd h (hTable.start r)⟩
  | succ k ih =>
    have hSame : ((sweep update)^[k] start).length = n := (length_iterate_sweep k).trans hLength
    rw [Function.iterate_succ_apply', sweep, hSame]
    constructor
    · intro h
      obtain ⟨hr, hGets⟩ := (hTable.round _ r).mp h
      exact hUpdates.has_of_gets hTable (List.mem_range.mpr hr) (hSame.symm ▸ hr)
        (hTable.grows (fun q hq => (ih q).1 hq) r hGets)
    · exact hUpdates.within hTable (fun q => List.mem_range.mp) fun q hq => (ih q).2 hq

theorem Updates.iterate_iff (hLength : start.length = n) :
    (has (((sweep update)^[n] start).getD r empty) ↔
      has ((Nat.repeat round n start).getD r empty)) ∧
    (has ((sweep update ((sweep update)^[n] start)).getD r empty) ↔
      has ((Nat.repeat round n start).getD r empty)) := by
  have hBetween := hUpdates.iterate hTable hLength n r
  have hMore := hUpdates.iterate hTable hLength (n + 1) r
  rw [Function.iterate_succ_apply'] at hMore
  exact ⟨⟨hBetween.2, hBetween.1⟩, hMore.2, fun h => hUpdates.keeps (hBetween.1 h)⟩

end Table

/-- Sweeps until nothing changes end in the table that rounds make, if rows are told apart by what
they have. -/
theorem untilStable?_sweep {β ι : Type} [DecidableEq β] {n : Nat} {empty : β} {has : ι → β → Prop}
    {gets : ι → (Nat → Prop) → Nat → Prop} {start : List β} {round : List β → List β}
    {update : List β → Nat → β} (hUpdates : ∀ a, Updates empty (has a) (gets a) update)
    (hTable : ∀ a, IsTable n empty (has a) (gets a) start round)
    (hApart : ∀ x y, (∀ a, has a x ↔ has a y) → x = y) (hLength : start.length = n)
    (hRound : ∀ rows, (round rows).length = n) :
    untilStable? (sweep update) (n + 1) start = some (Nat.repeat round n start) := by
  have hRounds : (Nat.repeat round n start).length = n := by
    cases n with
    | zero => exact hLength
    | succ n => exact hRound _
  have hAt {table : List β} (hSame : table.length = n)
      (hRows : ∀ a r, has a (table.getD r empty) ↔
        has a ((Nat.repeat round n start).getD r empty)) : table = Nat.repeat round n start := by
    refine List.ext_getElem (hSame.trans hRounds.symm) fun r hr hr' => hApart _ _ fun a => ?_
    simpa [List.getD_eq_getElem?_getD, hr, hr'] using hRows a r
  have hSwept : (sweep update)^[n] start = Nat.repeat round n start :=
    hAt ((length_iterate_sweep n).trans hLength) fun a r =>
      ((hUpdates a).iterate_iff (hTable a) hLength).1
  refine untilStable?_eq ?_ n hSwept
  rw [← hSwept]
  refine (hAt ?_ fun a r => ((hUpdates a).iterate_iff (hTable a) hLength).2).trans hSwept.symm
  rw [sweep, length_sweepRows, length_iterate_sweep, hLength]

/-! ## The loops of the analysis -/

namespace FirstSets

variable {rules : List Rule}

def nullableUpdate (rules : List Rule) (known : List Bool) (r : Nat) : Bool :=
  known.getD r false || Production.nullableAll (known.getD · false) (definitionOf rules r)

def firstUpdate (rules : List Rule) (known : RuleId → Bool) (firsts : List TokenSet) (r : Nat) :
    TokenSet :=
  (firsts.getD r .empty).union
    (Production.firstOf known (firsts.getD · .empty) (definitionOf rules r))

/-- Both tables by sweeping the rules until nothing changes, at most once more than there are
rules. -/
def loop? (rules : List Rule) : Option FirstSets := do
  let known ← untilStable? (sweep (nullableUpdate rules)) (rules.length + 1)
    (rules.map fun _ => false)
  let firsts ← untilStable? (sweep (firstUpdate rules (known.getD · false))) (rules.length + 1)
    (rules.map fun _ => .empty)
  return ⟨known, firsts⟩

theorem updates_nullable :
    Updates false (· = true) (GetsNullable rules) (nullableUpdate rules) := fun _ _ =>
  Bool.or_eq_true_iff.trans (or_congr_right getsNullable_iff.symm)

theorem updates_first (known : RuleId → Bool) (token : TypeId) :
    Updates .empty (token ∈ ·) (GetsFirst rules known token) (firstUpdate rules known) :=
  fun _ _ => TokenSet.mem_union.trans (or_comm.trans (or_congr_right getsFirst_iff.symm))

theorem loop?_eq (rules : List Rule) : loop? rules = some (ofRules rules) := by
  have hKnown : untilStable? (sweep (nullableUpdate rules)) (rules.length + 1)
      (rules.map fun _ => false) = some (nullables rules) :=
    untilStable?_sweep (fun _ : Unit => updates_nullable) (fun _ => isTable_nullables rules)
      (fun _ _ h => Bool.eq_iff_iff.mpr (h ())) (List.length_map _) fun _ => List.length_map _
  have hFirsts (known : RuleId → Bool) : untilStable? (sweep (firstUpdate rules known))
      (rules.length + 1) (rules.map fun _ => .empty) =
        some (Nat.repeat (firstRound rules known) rules.length (rules.map fun _ => .empty)) :=
    untilStable?_sweep (updates_first known) (isTable_firsts rules known)
      (fun _ _ => TokenSet.eq_of_mem_iff) (List.length_map _) fun _ => List.length_map _
  rw [loop?, hKnown]
  simp only [Option.bind_eq_bind, Option.bind_some, hFirsts]
  rfl

end FirstSets

end PredictiveParsing
