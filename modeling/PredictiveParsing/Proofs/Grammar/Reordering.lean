import Mathlib.Logic.Equiv.Defs
import PredictiveParsing.Proofs.Grammar.Renaming
import PredictiveParsing.Proofs.Grammar.WellStructured

/-!
# Rules in another order

Rules are numbered in the order of their declaration. In another order they get other numbers, and
what compiling finds out about them goes by these: first tokens are the same, and so is whether the
structure is in error.
-/

namespace PredictiveParsing

open Relation

/-- The same rules in another order, with the numbers that they have in it. -/
structure IsReordering (σ : Equiv.Perm RuleId) (rules rules' : List Rule) : Prop where
  place : ∀ id, rules'[σ id]? = (rules[id]?).map (Rule.rename σ)
  perm : (rules.map (Rule.rename σ)).Perm rules'

namespace IsReordering

variable {σ : Equiv.Perm RuleId} {rules rules' : List Rule} (h : IsReordering σ rules rules')

include h

theorem length : rules'.length = rules.length := by
  rw [← h.perm.length_eq, List.length_map]

theorem lt_length {id : RuleId} : σ id < rules'.length ↔ id < rules.length := by
  rw [← Nat.not_le, ← Nat.not_le, ← List.getElem?_eq_none_iff, ← List.getElem?_eq_none_iff, h.place,
    Option.map_eq_none_iff]

theorem definition (id : RuleId) :
    definitionOf rules' (σ id) = Production.renameAll σ (definitionOf rules id) := by
  rw [definitionOf, definitionOf, h.place]
  cases rules[id]? with
  | none => simp [Production.renameAll]
  | some r => rfl

theorem name (id : RuleId) : ruleName rules' (σ id) = ruleName rules id := by
  rw [ruleName, ruleName, h.place]
  cases rules[id]? with
  | none => rfl
  | some r => rfl

theorem getD_map {β : Type} {f f' : Rule → β} (hSame : ∀ r, f' (r.rename σ) = f r) (d : β)
    (id : RuleId) : (rules'.map f').getD (σ id) d = (rules.map f).getD id d := by
  rw [List.getD_eq_getElem?_getD, List.getD_eq_getElem?_getD, List.getElem?_map,
    List.getElem?_map, h.place]
  cases rules[id]? with
  | none => rfl
  | some r => exact hSame r

/-! ## First tokens -/

theorem isNullable (id : RuleId) :
    (FirstSets.ofRules rules').isNullable (σ id) = (FirstSets.ofRules rules).isNullable id := by
  -- Round by round the same is known, and there are as many rounds as rules in both orders.
  have hRounds : ∀ n id,
      (Nat.repeat (FirstSets.nullableRound rules') n (rules'.map fun _ => false)).getD (σ id)
          false =
        (Nat.repeat (FirstSets.nullableRound rules) n (rules.map fun _ => false)).getD id
          false := by
    intro n
    induction n with
    | zero => exact h.getD_map (fun _ => rfl) false
    | succ n ih =>
      exact h.getD_map (fun r => Production.nullableAll_renameAll ih r.definition) false
  have hAll := hRounds rules.length id
  rwa [FirstSets.isNullable, FirstSets.ofRules, FirstSets.isNullable, FirstSets.ofRules,
    FirstSets.nullables, FirstSets.nullables, h.length]

theorem first (id : RuleId) :
    (FirstSets.ofRules rules').first (σ id) = (FirstSets.ofRules rules).first id := by
  have hKnown : ∀ id, (FirstSets.nullables rules').getD (σ id) false =
      (FirstSets.nullables rules).getD id false := h.isNullable
  have hRounds : ∀ n id,
      (Nat.repeat (FirstSets.firstRound rules' ((FirstSets.nullables rules').getD · false)) n
          (rules'.map fun _ => TokenSet.empty)).getD (σ id) TokenSet.empty =
        (Nat.repeat (FirstSets.firstRound rules ((FirstSets.nullables rules).getD · false)) n
          (rules.map fun _ => TokenSet.empty)).getD id TokenSet.empty := by
    intro n
    induction n with
    | zero => exact h.getD_map (fun _ => rfl) TokenSet.empty
    | succ n ih =>
      exact h.getD_map (fun r => Production.firstOf_renameAll hKnown ih r.definition)
        TokenSet.empty
  have hAll := hRounds rules.length id
  rwa [FirstSets.first, FirstSets.ofRules, FirstSets.first, FirstSets.ofRules, h.length]

theorem nullableAll (ps : List Production) :
    (FirstSets.ofRules rules').nullableAll (Production.renameAll σ ps) =
      (FirstSets.ofRules rules).nullableAll ps := Production.nullableAll_renameAll h.isNullable ps

theorem firstOf (ps : List Production) :
    (FirstSets.ofRules rules').firstOf (Production.renameAll σ ps) =
      (FirstSets.ofRules rules).firstOf ps := Production.firstOf_renameAll h.isNullable h.first ps

theorem firstOfContinuation (c : Continuation) :
    (FirstSets.ofRules rules').firstOfContinuation (Continuation.rename σ c) =
      (FirstSets.ofRules rules).firstOfContinuation c := by
  induction c with
  | nil => rfl
  | cons segment c ih =>
    rw [Continuation.rename, List.map_cons]
    cases segment with
    | token token => rfl
    | sequence definition =>
      simp only [Segment.rename, FirstSets.firstOfContinuation, h.nullableAll, h.firstOf, ih]
    | again definition separator =>
      simp only [Segment.rename, FirstSets.firstOfContinuation, h.firstOf, ih]

theorem follow (v : Vocabulary) (c : Continuation) :
    (FirstSets.ofRules rules').follow v (Continuation.rename σ c) =
      (FirstSets.ofRules rules).follow v c := by
  rw [FirstSets.follow, FirstSets.follow, h.firstOfContinuation]

/-! ## Structure -/

theorem mem_openingRules {a b : RuleId} :
    σ b ∈ Structure.openingRules (.ofRules rules') rules' (σ a) ↔
      b ∈ Structure.openingRules (.ofRules rules) rules a := by
  rw [Structure.mem_openingRules, Structure.mem_openingRules, h.lt_length, h.definition,
    Structure.openingOf_renameAll h.isNullable, List.mem_map_of_injective σ.injective]

theorem leftRecursions_eq_nil :
    Structure.leftRecursions rules' (.ofRules rules') = [] ↔
      Structure.leftRecursions rules (.ofRules rules) = [] := by
  rw [Structure.leftRecursions_eq_nil_iff, Structure.leftRecursions_eq_nil_iff]
  -- A cycle in one order is one in the other, step by step.
  constructor
  · exact fun hNone r hCycle => hNone (σ r) (hCycle.lift σ fun _ _ => h.mem_openingRules.mpr)
  · intro hNone r hCycle
    refine hNone (σ.symm r) (hCycle.lift σ.symm fun a b hb => h.mem_openingRules.mp ?_)
    rwa [Equiv.apply_symm_apply, Equiv.apply_symm_apply]

omit h in
theorem duplicateOccurrences_rename (v : Vocabulary) (r : Rule) :
    Structure.duplicateOccurrences v (r.rename σ) = Structure.duplicateOccurrences v r := by
  have hKeys : Structure.OccurrenceKey.of v ∘ Production.rename σ = .of v :=
    funext Structure.OccurrenceKey.of_rename
  rw [Structure.duplicateOccurrences, Rule.nodes_rename, List.map_map, hKeys]
  rfl

theorem shapeErrors (r : Rule) : Structure.shapeErrors (.ofRules rules') (r.rename σ) =
    Structure.shapeErrors (.ofRules rules) r := by
  rw [Structure.shapeErrors, Structure.shapeErrors, Rule.nodes_rename, List.filterMap_map]
  refine congrArg (fun f => List.filterMap f r.nodes) (funext fun p => ?_)
  cases p with
  | terminal | nonTerminal | option => simp [Production.rename]
  | repetition mandatory separator definition occurrence =>
    simp [Production.rename, h.nullableAll, Rule.rename, Production.kind]
  | alternation alternatives occurrence =>
    simp [Production.rename, Production.renameBranches_eq_map, Rule.rename]

theorem errors_eq_nil (v : Vocabulary) : Structure.errors v rules' (.ofRules rules') = [] ↔
    Structure.errors v rules (.ofRules rules) = [] := by
  rw [Structure.errors, Structure.errors, List.append_eq_nil_iff, List.append_eq_nil_iff,
    h.leftRecursions_eq_nil, List.flatMap_eq_nil_iff, List.flatMap_eq_nil_iff]
  simp only [← h.perm.mem_iff, List.forall_mem_map, duplicateOccurrences_rename, h.shapeErrors]

end IsReordering

end PredictiveParsing
