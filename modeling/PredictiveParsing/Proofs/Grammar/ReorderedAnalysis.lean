import PredictiveParsing.Proofs.Grammar.LookaheadPaths
import PredictiveParsing.Proofs.Grammar.Reordering

/-!
# Lookahead over rules in another order

Lookahead goes through productions and never looks at the numbers of rules, so it finds the same
paths, and the same decisions are taken.
-/

namespace PredictiveParsing

namespace Lookahead

variable {σ : RuleId → RuleId}

theorem remaining_rename (ps : List Production) (rest : Continuation) :
    remaining (Production.renameAll σ ps) (Continuation.rename σ rest) =
      Continuation.rename σ (remaining ps rest) := by
  rw [remaining, Production.isEmpty_renameAll]
  split <;> rfl

theorem before_rename (rest : Continuation) (q : Partial) :
    (q.rename σ).before (Continuation.rename σ rest) = (q.before rest).rename σ := by
  simp [Partial.before, Partial.rename]

theorem isUnique_rename (v : Vocabulary) (partials : List (List Partial)) (index : Nat)
    (path : Path) : isUnique v (partials.map (List.map (.rename σ))) index path =
      isUnique v partials index path := by
  simp only [isUnique, List.zipIdx_map, List.all_map]
  refine congrArg (fun f => List.all partials.zipIdx f) (funext ?_)
  rintro ⟨ps, other⟩
  simp only [Function.comp_apply, Prod.map_apply, id_eq, List.all_map]
  rfl

end Lookahead

namespace IsReordering

variable {σ : Equiv.Perm RuleId} {rules rules' : List Rule} (h : IsReordering σ rules rules')

include h

/-! ## Lookahead -/

theorem ways (p : Production) :
    Lookahead.ways rules' (p.rename σ) = (Lookahead.ways rules p).map (.rename σ) := by
  cases p with
  | terminal token occurrence => rfl
  | nonTerminal name target occurrence =>
    cases target with
    | none => rfl
    | some target =>
      rw [Production.rename, Option.map_some, Lookahead.ways, h.definition]
      rfl
  | option definition occurrence => rfl
  | repetition mandatory separator definition occurrence =>
    cases mandatory <;> cases separator <;> rfl
  | alternation alternatives occurrence =>
    rw [Production.rename, Production.renameBranches_eq_map, Lookahead.ways, Lookahead.ways,
      List.map_map, List.map_map]
    rfl

theorem successors (c : Continuation) : Lookahead.successors rules' (Continuation.rename σ c) =
    (Lookahead.successors rules c).map (.rename σ) := by
  cases c with
  | nil => rfl
  | cons segment rest =>
    cases segment with
    | token token => rfl
    | again definition separator => cases separator <;> rfl
    | sequence definition =>
      cases definition with
      | nil => rfl
      | cons p ps =>
        rw [Continuation.rename, List.map_cons, Segment.rename, Production.renameAll,
          Lookahead.successors, Lookahead.successors, h.ways, Lookahead.remaining_rename,
          List.map_map, List.map_map]
        exact congrArg (List.map · _) (funext (Lookahead.before_rename _))

theorem expand (fuel room : Nat) (c : Continuation) :
    Lookahead.expand rules' fuel room (Continuation.rename σ c) =
      (Lookahead.expand rules fuel room c).map (List.map (.rename σ)) := by
  induction fuel generalizing room c with
  | zero => rfl
  | succ fuel ih =>
    cases room with
    | zero => rfl
    | succ room =>
      have hGoOn (q : Partial) : Lookahead.goOn rules' fuel (room + 1) (q.rename σ) =
          (Lookahead.goOn rules fuel (room + 1) q).map (List.map (.rename σ)) := by
        rw [Lookahead.goOn, Lookahead.goOn, Partial.rename, ih, Option.map_map, Option.map_map]
        exact congrArg (Option.map · _) (funext fun found => by simp [Partial.behind, Partial.rename])
      cases c with
      | nil => rfl
      | cons segment rest =>
        have hNil : Continuation.rename σ (segment :: rest) ≠ [] := List.cons_ne_nil _ _
        rw [Lookahead.expand_eq_successors hNil,
          Lookahead.expand_eq_successors (List.cons_ne_nil segment rest), h.successors,
          mapM_map hGoOn, Option.map_map, Option.map_map]
        exact congrArg (Option.map · _) (funext fun found => (List.map_flatten ..).symm)

theorem largest : Lookahead.largest rules' = Lookahead.largest rules := by
  have hSizes := (h.perm.map fun r => Production.sizeAll r.definition).symm
  rw [List.map_map] at hSizes
  rw [Lookahead.largest, Lookahead.largest, hSizes.foldl_eq]
  refine congrArg (fun f => ((rules.map f).foldl max 0)) (funext fun r => ?_)
  exact Production.sizeAll_renameAll r.definition

theorem stepBound (room : Nat) (c : Continuation) :
    Lookahead.stepBound rules' room (Continuation.rename σ c) =
      Lookahead.stepBound rules room c := by
  have hSizes : (Continuation.rename σ c).map Segment.size = c.map Segment.size := by
    rw [Continuation.rename, List.map_map]
    exact congrArg (List.map · c) (funext Segment.size_rename)
  rw [Lookahead.stepBound, Lookahead.stepBound, h.largest, h.length, hSizes]

theorem expand? (room : Nat) (c : Continuation) :
    Lookahead.expand? rules' room (Continuation.rename σ c) =
      (Lookahead.expand? rules room c).map (List.map (.rename σ)) := by
  rw [Lookahead.expand?, Lookahead.expand?, h.stepBound, h.expand]

theorem settle (v : Vocabulary) (k : Nat) (partials : List (List Partial)) (index : Nat)
    (f : Lookahead.Found) (p : Partial) :
    Lookahead.settle v rules' k (partials.map (List.map (.rename σ))) index (f.rename σ)
      (p.rename σ) = (Lookahead.settle v rules k partials index f p).map (.rename σ) := by
  have hFinal : Lookahead.isFinal v k (partials.map (List.map (.rename σ))) index (p.rename σ) =
      Lookahead.isFinal v k partials index p := by
    have hEnd : (p.rename σ).rest.isEmpty = p.rest.isEmpty := by simp [Partial.rename]
    rw [Lookahead.isFinal, Lookahead.isUnique_rename, hEnd]
    rfl
  cases hSettled : Lookahead.isFinal v k partials index p with
  | true =>
    rw [Lookahead.settle_final (hFinal.trans hSettled), Lookahead.settle_final hSettled]
    rfl
  | false =>
    have hLonger : Lookahead.expand? rules' 1 (p.rename σ).rest = _ := h.expand? 1 p.rest
    rw [Lookahead.settle_open (hFinal.trans hSettled), Lookahead.settle_open hSettled, hLonger]
    cases Lookahead.expand? rules 1 p.rest with
    | none => rfl
    | some longer => simp [Lookahead.Found.rename, Partial.rename]

theorem round (v : Vocabulary) (k : Nat) (found : List Lookahead.Found) :
    Lookahead.round v rules' k (found.map (.rename σ)) =
      (Lookahead.round v rules k found).map (List.map (.rename σ)) := by
  have hGrowing : (found.map (Lookahead.Found.rename σ)).map (·.growing) =
      (found.map (·.growing)).map (List.map (.rename σ)) := by
    rw [List.map_map, List.map_map]
    rfl
  rw [Lookahead.round, Lookahead.round, hGrowing, List.zipIdx_map]
  refine mapM_map fun ⟨f, index⟩ => ?_
  exact foldlM_map (h.settle v k (found.map (·.growing)) index) ⟨f.paths, []⟩

theorem rounds (v : Vocabulary) (k n : Nat) (found : List Lookahead.Found) :
    Lookahead.rounds v rules' k n (found.map (.rename σ)) =
      (Lookahead.rounds v rules k n found).map (List.map (.rename σ)) := by
  induction n generalizing found with
  | zero => rfl
  | succ n ih =>
    have hSettled : (found.map (Lookahead.Found.rename σ)).all (·.growing.isEmpty) =
        found.all (·.growing.isEmpty) := by
      simp [Lookahead.Found.rename, Function.comp_def]
    rw [Lookahead.rounds, Lookahead.rounds, hSettled, h.round]
    split
    · rfl
    · cases Lookahead.round v rules k found with
      | none => rfl
      | some middle => exact ih middle

theorem paths? (v : Vocabulary) (k : Nat) (cs : List Continuation) :
    Lookahead.paths? v rules' k (cs.map (Continuation.rename σ)) =
      Lookahead.paths? v rules k cs := by
  have hStart : (cs.map (Continuation.rename σ)).mapM (fun c =>
      (Lookahead.expand? rules' 1 c).map fun ps => Lookahead.Found.mk [] ps) =
      (cs.mapM fun c => (Lookahead.expand? rules 1 c).map fun ps => Lookahead.Found.mk [] ps).map
        (List.map (.rename σ)) := by
    refine mapM_map fun c => ?_
    rw [h.expand?, Option.map_map, Option.map_map]
    rfl
  rw [Lookahead.paths?, Lookahead.paths?, hStart]
  cases cs.mapM fun c => (Lookahead.expand? rules 1 c).map fun ps => Lookahead.Found.mk [] ps with
  | none => rfl
  | some start =>
    simp only [Option.map_some, Option.bind_eq_bind, Option.bind_some, h.rounds]
    cases Lookahead.rounds v rules k (max k 1) start with
    | none => rfl
    | some found => simp [Lookahead.Found.rename]

theorem decision? (v : Vocabulary) (k : Nat) (site : Site) :
    Analysis.decision? v rules' k (site.rename σ) = Analysis.decision? v rules k site := by
  obtain ⟨p, after⟩ := site
  cases p with
  | terminal | nonTerminal => simp [Site.rename, Production.rename, Analysis.decision?]
  | option definition occurrence =>
    have hPaths := h.paths? v k [.sequence definition :: after, after]
    simp only [Site.rename, Production.rename, Analysis.decision?]
    rw [← hPaths]
    rfl
  | repetition mandatory separator definition occurrence =>
    have hPaths :=
      h.paths? v k [.sequence definition :: .again definition separator :: after, after]
    simp only [Site.rename, Production.rename, Analysis.decision?]
    rw [← hPaths]
    rfl
  | alternation alternatives occurrence =>
    have hPaths := h.paths? v k (alternatives.map fun a => [.sequence a.definition])
    simp only [Site.rename, Production.rename, Analysis.decision?,
      Production.renameBranches_eq_map]
    rw [← hPaths, List.map_map, List.map_map]
    rfl

end IsReordering

end PredictiveParsing
