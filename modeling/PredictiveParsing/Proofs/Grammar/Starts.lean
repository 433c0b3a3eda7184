import PredictiveParsing.Proofs.Grammar.Sites
import PredictiveParsing.Proofs.Grammar.Successors

/-!
# Paths of one token

Expanding a continuation for one token finds all that the continuation can begin with, and nothing
else.
-/

namespace PredictiveParsing

inductive Starts (rules : List Rule) (c : Continuation) : Path → Prop
  | empty (h : Nullable rules c) : Starts rules c []
  | token {token : TypeId} (h : First rules c token) : Starts rules c [token]

variable {rules : List Rule} {c d rest : Continuation} {segment : Segment} {path : Path}
  {p : Production} {ps definition : List Production}

theorem starts_nil : Starts rules [] path ↔ path = [] := by
  constructor
  · rintro (h | ⟨later, hLater⟩)
    · rfl
    · rcases Relation.ReflTransGen.cases_head hLater with h | ⟨d, hStep, -⟩
      · cases h
      · cases hStep
  · rintro rfl
    exact .empty nullable_nil

theorem starts_cons : Starts rules (segment :: rest) path ↔
    (∃ token, segment = .token token ∧ path = [token]) ∨
      ∃ d, segment.Expands rules d ∧ Starts rules (d ++ rest) path := by
  constructor
  · rintro (h | ⟨later, hLater⟩)
    · rcases Relation.ReflTransGen.cases_head h with h | ⟨d, hStep, hRest⟩
      · cases h
      · cases hStep with
        | head hExpands => exact .inr ⟨_, hExpands, .empty hRest⟩
    · rcases Relation.ReflTransGen.cases_head hLater with h | ⟨d, hStep, hRest⟩
      · cases h
        exact .inl ⟨_, rfl, rfl⟩
      · cases hStep with
        | head hExpands => exact .inr ⟨_, hExpands, .token ⟨later, hRest⟩⟩
  · rintro (⟨token, rfl, rfl⟩ | ⟨d, hExpands, hStarts⟩)
    · exact .token ⟨rest, .refl⟩
    · rcases hStarts with h | ⟨later, hLater⟩
      · exact .empty (.head (.head hExpands) h)
      · exact .token ⟨later, .head (.head hExpands) hLater⟩

theorem starts_token {token : TypeId} :
    Starts rules (.token token :: rest) path ↔ path = [token] := by
  rw [starts_cons]
  constructor
  · rintro (⟨_, hSame, rfl⟩ | ⟨d, hExpands, -⟩)
    · cases hSame
      rfl
    · cases hExpands
  · rintro rfl
    exact .inl ⟨token, rfl, rfl⟩

theorem starts_sequence_nil : Starts rules (.sequence [] :: rest) path ↔ Starts rules rest path := by
  rw [starts_cons]
  constructor
  · rintro (⟨_, hSame, -⟩ | ⟨d, hExpands, h⟩)
    · cases hSame
    · cases hExpands with | nil => exact h
  · exact fun h => .inr ⟨[], .nil, h⟩

theorem starts_append : Starts rules (c ++ d) path ↔
    (∃ token, path = [token] ∧ First rules c token) ∨ Nullable rules c ∧ Starts rules d path := by
  constructor
  · rintro (h | h)
    · obtain ⟨hc, hd⟩ := nullable_append.mp h
      exact .inr ⟨hc, .empty hd⟩
    · rcases first_append.mp h with hc | ⟨hc, hd⟩
      · exact .inl ⟨_, rfl, hc⟩
      · exact .inr ⟨hc, .token hd⟩
  · rintro (⟨token, rfl, h⟩ | ⟨hc, h | h⟩)
    · exact .token (first_append.mpr (.inl h))
    · exact .empty (nullable_append.mpr ⟨hc, h⟩)
    · exact .token (first_append.mpr (.inr ⟨hc, h⟩))

theorem starts_empty : Starts rules (c ++ .sequence [] :: rest) path ↔ Starts rules (c ++ rest) path := by
  rw [starts_append, starts_append, starts_sequence_nil]

/-- A property of continuations that expanding from the left neither gains nor loses. -/
structure IsLeftmost (rules : List Rule) (X : Continuation → Prop) : Prop where
  head : ∀ segment rest, (∀ token, segment ≠ .token token) →
    (X (segment :: rest) ↔ ∃ d, segment.Expands rules d ∧ X (d ++ rest))
  empty : ∀ c rest, X (c ++ .sequence [] :: rest) ↔ X (c ++ rest)

theorem isLeftmost_starts : IsLeftmost rules (Starts rules · path) where
  head segment rest hSegment := by
    rw [starts_cons]
    exact or_iff_right fun ⟨token, hToken, _⟩ => hSegment token hToken
  empty _ _ := starts_empty

open Lookahead (remaining)

namespace IsLeftmost

variable {X : Continuation → Prop} (hX : IsLeftmost rules X)

include hX

theorem remaining : X (c ++ remaining ps rest) ↔ X (c ++ .sequence ps :: rest) := by
  cases ps with
  | nil => exact (hX.empty c rest).symm
  | cons p ps => rfl

theorem production : X (.sequence (p :: ps) :: rest) ↔
    ∃ d, p.Expands rules d ∧ X (d ++ Lookahead.remaining ps rest) := by
  rw [hX.head _ _ fun _ h => by cases h]
  constructor
  · rintro ⟨_, hExpands, h⟩
    cases hExpands with
    | cons hp =>
      rw [List.append_assoc, List.singleton_append] at h
      exact ⟨_, hp, hX.remaining.mpr h⟩
  · rintro ⟨d, hp, h⟩
    refine ⟨_, .cons hp, ?_⟩
    rw [List.append_assoc, List.singleton_append]
    exact hX.remaining.mp h

theorem again {separator : Option TypeId} : X (.again definition separator :: rest) ↔
    X (Lookahead.another definition separator ++ rest) ∨ X rest := by
  rw [hX.head _ _ fun _ h => by cases h]
  constructor
  · rintro ⟨d, hExpands, h⟩
    cases hExpands with
    | stop => exact .inr h
    | another => exact .inl h
    | separated => exact .inl h
  · rintro (h | h)
    · cases separator with
      | none => exact ⟨_, .another, h⟩
      | some s => exact ⟨_, .separated, h⟩
    · exact ⟨_, .stop, h⟩

theorem ways (hp : p.IsResolved rules) : X (.sequence (p :: ps) :: rest) ↔
    ∃ q ∈ Lookahead.ways rules p, X (q.path.map .token ++ (q.rest ++ Lookahead.remaining ps rest)) := by
  rw [hX.production]
  constructor
  · rintro ⟨d, hExpands, h⟩
    cases hExpands with
    | terminal => exact ⟨_, List.mem_singleton_self _, h⟩
    | reference hTarget => exact ⟨_, List.mem_singleton_self _, h⟩
    | option => exact ⟨_, List.mem_cons_self, h⟩
    | noOption => exact ⟨_, List.mem_cons_of_mem _ (List.mem_singleton_self _), h⟩
    | @iteration mandatory separator definition occurrence =>
      cases mandatory with
      | true => exact ⟨_, List.mem_singleton_self _, h⟩
      | false =>
        cases separator with
        | none => exact ⟨_, List.mem_singleton_self _, hX.again.mpr (.inl h)⟩
        | some s => exact ⟨_, List.mem_cons_self, h⟩
    | @noIteration separator definition occurrence =>
      cases separator with
      | none => exact ⟨_, List.mem_singleton_self _, hX.again.mpr (.inr h)⟩
      | some s => exact ⟨_, List.mem_cons_of_mem _ (List.mem_singleton_self _), h⟩
    | alternative branch hBranch => exact ⟨_, List.mem_map_of_mem hBranch, h⟩
  · rintro ⟨q, hq, h⟩
    rcases Lookahead.ways_cases hp hq with ⟨token, _, rfl, rfl⟩ | ⟨d, hExpands, rfl⟩ | ⟨_, _, rfl, rfl⟩
    · exact ⟨_, .terminal, h⟩
    · exact ⟨d, hExpands, h⟩
    · rcases hX.again.mp h with h | h
      · exact ⟨_, .iteration, h⟩
      · exact ⟨_, .noIteration, h⟩

/-- A step loses nothing: the continuation has the property if one that it goes on with has it. -/
theorem successors (hc : Throughout (Production.IsResolved rules) c) (hSome : c ≠ []) : X c ↔
    ∃ q ∈ Lookahead.successors rules c, X (q.path.map .token ++ q.rest) := by
  cases c with
  | nil => exact absurd rfl hSome
  | cons segment rest =>
    cases segment with
    | token token => simp [Lookahead.successors]
    | again definition separator =>
      rw [hX.again]
      simp [Lookahead.successors]
    | sequence definition =>
      cases definition with
      | nil =>
        have hEmpty := hX.empty [] rest
        simpa [Lookahead.successors] using hEmpty
      | cons p ps =>
        have hp := (throughout_cons.mp hc).1 p (List.mem_append_left _ (Production.mem_nodes_self p))
        rw [hX.ways hp, Lookahead.successors]
        simp [Partial.before]

end IsLeftmost

namespace Lookahead

variable {X : Continuation → Prop} {partials : List Partial}

/-- What one token of expanding makes of a continuation: each partial has read a token or has come
to the end, and together they have a property if the continuation has it. -/
structure Finds (rules : List Rule) (X : Continuation → Prop) (c : Continuation)
    (partials : List Partial) : Prop where
  path : ∀ p ∈ partials, p.path.length = 1 ∨ p.path = [] ∧ p.rest = []
  rest : ∀ p ∈ partials, Throughout (Production.IsResolved rules) p.rest
  iff : X c ↔ ∃ p ∈ partials, X (p.path.map .token ++ p.rest)

theorem finds_nil : Finds rules X [] [⟨[], []⟩] := by
  constructor
  · exact List.forall_mem_singleton.mpr (.inr ⟨rfl, rfl⟩)
  · exact List.forall_mem_singleton.mpr throughout_nil
  · simp

theorem finds_token {fuel : Nat} {token : TypeId}
    (hRest : Throughout (Production.IsResolved rules) rest)
    (h : (expand rules fuel 0 rest).map (prepend token) = some partials) :
    Finds rules X (.token token :: rest) partials := by
  obtain ⟨found, hFound, rfl⟩ := Option.map_eq_some_iff.mp h
  cases fuel with
  | zero => cases hFound
  | succ fuel =>
    rw [expand] at hFound
    cases hFound
    constructor
    · exact List.forall_mem_singleton.mpr (.inl rfl)
    · exact List.forall_mem_singleton.mpr hRest
    · simp [prepend]

variable (hX : IsLeftmost rules X)

include hX

theorem finds_expand (hRules : AllRules (Production.IsResolved rules) rules) {fuel : Nat}
    (hc : Throughout (Production.IsResolved rules) c)
    (h : expand rules fuel 1 c = some partials) : Finds rules X c partials := by
  have hKept := Segment.isKept_parts (fun _ h => h) hRules
  induction fuel generalizing c partials with
  | zero => cases h
  | succ fuel ih =>
    by_cases hSome : c = []
    · subst hSome
      rw [expand] at h
      cases h
      exact finds_nil
    · rw [expand_eq_successors hSome] at h
      obtain ⟨found, hFound, rfl⟩ := Option.map_eq_some_iff.mp h
      obtain ⟨hForth, hBack⟩ := mem_of_mapM hFound
      -- From each successor something is found, a token if it has read one.
      have hEach : ∀ q ∈ successors rules c, ∀ ps, goOn rules fuel 1 q = some ps →
          Finds rules X (q.path.map .token ++ q.rest) ps := by
        intro q hq ps hps
        have hRest : Throughout (Production.IsResolved rules) q.rest := keeps_successors hKept hc hq
        obtain ⟨path, rest⟩ := q
        rcases path_of_mem_successors hc hq with rfl | ⟨token, rfl⟩
        · exact ih hRest (goOn_silent.symm.trans hps)
        · exact finds_token hRest hps
      constructor
      · intro p hp
        obtain ⟨ps, hps, hp⟩ := List.mem_flatten.mp hp
        obtain ⟨q, hq, hGone⟩ := hBack ps hps
        exact (hEach q hq ps hGone).path p hp
      · intro p hp
        obtain ⟨ps, hps, hp⟩ := List.mem_flatten.mp hp
        obtain ⟨q, hq, hGone⟩ := hBack ps hps
        exact (hEach q hq ps hGone).rest p hp
      · rw [hX.successors hc hSome]
        constructor
        · rintro ⟨q, hq, hStep⟩
          obtain ⟨ps, hps, hGone⟩ := hForth q hq
          obtain ⟨p, hp, hFurther⟩ := (hEach q hq ps hGone).iff.mp hStep
          exact ⟨p, List.mem_flatten.mpr ⟨ps, hps, hp⟩, hFurther⟩
        · rintro ⟨p, hp, hFurther⟩
          obtain ⟨ps, hps, hp⟩ := List.mem_flatten.mp hp
          obtain ⟨q, hq, hGone⟩ := hBack ps hps
          exact ⟨q, hq, (hEach q hq ps hGone).iff.mpr ⟨p, hp, hFurther⟩⟩

omit hX

theorem mem_expand_one (hRules : AllRules (Production.IsResolved rules) rules) {fuel : Nat}
    {partials : List Partial} (hc : Throughout (Production.IsResolved rules) c)
    (h : expand rules fuel 1 c = some partials) :
    path ∈ partials.map (·.path) ↔ Starts rules c path := by
  have hLeftmost : IsLeftmost rules (Starts rules · path) := isLeftmost_starts
  have hFinds := finds_expand hLeftmost hRules hc h
  rw [hFinds.iff, List.mem_map]
  refine exists_congr fun p => and_congr_right fun hp => ?_
  rcases hFinds.path p hp with hOne | ⟨hNone, hEnd⟩
  · obtain ⟨token, hToken⟩ := List.length_eq_one_iff.mp hOne
    rw [hToken, List.map_singleton, List.singleton_append, starts_token, eq_comm]
  · rw [hNone, hEnd, List.map_nil, List.append_nil, starts_nil, eq_comm]

end Lookahead

end PredictiveParsing
