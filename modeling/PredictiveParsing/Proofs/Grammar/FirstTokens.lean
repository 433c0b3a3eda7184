import PredictiveParsing.Proofs.Grammar.EmptyRules

/-!
# The tokens that a rule begins with

A token that some rounds have found for a rule is one that its definition can begin with. The sets
miss none either if no iteration can be empty, so they are then exactly what derivations tell.
-/

namespace PredictiveParsing

variable {rules : List Rule} {known : RuleId → Bool} {firsts : RuleId → TokenSet} {token : TypeId}

theorem first_token : First rules [.token token] token := ⟨[], .refl⟩

theorem first_of_expands {segment : Segment} {c : Continuation} (h : segment.Expands rules c)
    (hFirst : First rules c token) : First rules [segment] token := by
  obtain ⟨rest, hRest⟩ := hFirst
  exact ⟨rest, .head (.head h) (by rwa [List.append_nil])⟩

theorem first_singleton {segment : Segment} : First rules [segment] token ↔
    segment = .token token ∨ ∃ c, segment.Expands rules c ∧ First rules c token := by
  constructor
  · rintro ⟨rest, h⟩
    rcases h.cases_head with hSame | ⟨d, hStep, hRest⟩
    · exact .inl (List.cons.inj hSame).1
    · cases hStep with
      | head hExpands => exact .inr ⟨_, hExpands, rest, by rwa [List.append_nil] at hRest⟩
  · rintro (rfl | ⟨c, hExpands, hFirst⟩)
    · exact first_token
    · exact first_of_expands hExpands hFirst

theorem not_first_nil : ¬ First rules [] token := by
  rintro ⟨rest, h⟩
  rcases h.cases_head with hSame | ⟨d, hStep, -⟩
  · cases hSame
  · cases hStep

theorem not_first_sequence_nil : ¬ First rules [.sequence []] token := by
  intro h
  rcases first_singleton.mp h with hSame | ⟨c, hExpands, hFirst⟩
  · cases hSame
  · cases hExpands with
    | nil => exact not_first_nil hFirst

theorem first_sequence_cons {p : Production} {ps : List Production} :
    First rules [.sequence (p :: ps)] token ↔
      (∃ c, p.Expands rules c ∧ First rules c token) ∨
        (∃ c, p.Expands rules c ∧ Nullable rules c) ∧ First rules [.sequence ps] token := by
  constructor
  · intro h
    rcases first_singleton.mp h with hSame | ⟨c, hExpands, hFirst⟩
    · cases hSame
    · cases hExpands with
      | cons hp =>
        rcases first_append.mp hFirst with hFirst | ⟨hNull, hRest⟩
        · exact .inl ⟨_, hp, hFirst⟩
        · exact .inr ⟨⟨_, hp, hNull⟩, hRest⟩
  · rintro (⟨c, hp, hFirst⟩ | ⟨⟨c, hp, hNull⟩, hRest⟩)
    · exact first_of_expands (.cons hp) (first_append.mpr (.inl hFirst))
    · exact first_of_expands (.cons hp) (first_append.mpr (.inr ⟨hNull, hRest⟩))

theorem first_sequence_append {ps qs : List Production} :
    First rules [.sequence (ps ++ qs)] token ↔
      First rules [.sequence ps] token ∨
        Nullable rules [.sequence ps] ∧ First rules [.sequence qs] token := by
  induction ps with
  | nil => simp [not_first_sequence_nil, nullable_sequence_nil]
  | cons p ps ih =>
    rw [List.cons_append, first_sequence_cons, first_sequence_cons, nullable_sequence_cons, ih,
      and_or_left, or_assoc, and_assoc]

section Sequences

variable {v : Vocabulary} {kind : TypeId} {p : Production} {ps qs : List Production}

theorem beginsWith_sequence_append : BeginsWith rules v [.sequence (ps ++ qs)] kind ↔
    BeginsWith rules v [.sequence ps] kind ∨
      Nullable rules [.sequence ps] ∧ BeginsWith rules v [.sequence qs] kind := by
  simp only [BeginsWith, first_sequence_append]
  constructor
  · rintro ⟨token, hFirst | ⟨hNull, hFirst⟩, hMatch⟩
    · exact .inl ⟨token, hFirst, hMatch⟩
    · exact .inr ⟨hNull, token, hFirst, hMatch⟩
  · rintro (⟨token, hFirst, hMatch⟩ | ⟨hNull, token, hFirst, hMatch⟩)
    · exact ⟨token, .inl hFirst, hMatch⟩
    · exact ⟨token, .inr ⟨hNull, hFirst⟩, hMatch⟩

theorem not_beginsWith_nil : ¬ BeginsWith rules v [] kind :=
  fun ⟨_, hFirst, _⟩ => not_first_nil hFirst

theorem not_beginsWith_sequence_nil : ¬ BeginsWith rules v [.sequence []] kind :=
  fun ⟨_, hFirst, _⟩ => not_first_sequence_nil hFirst

theorem beginsWith_production : BeginsWith rules v [.sequence [p]] kind ↔
    ∃ c, p.Expands rules c ∧ BeginsWith rules v c kind := by
  constructor
  · rintro ⟨token, hFirst, hMatch⟩
    rcases first_sequence_cons.mp hFirst with ⟨c, hp, hc⟩ | ⟨-, hNone⟩
    · exact ⟨c, hp, token, hc, hMatch⟩
    · exact absurd hNone not_first_sequence_nil
  · rintro ⟨c, hp, token, hFirst, hMatch⟩
    exact ⟨token, first_sequence_cons.mpr (.inl ⟨c, hp, hFirst⟩), hMatch⟩

theorem nullable_production : Nullable rules [.sequence [p]] ↔
    ∃ c, p.Expands rules c ∧ Nullable rules c := by
  rw [nullable_sequence_cons, and_iff_left nullable_sequence_nil]

end Sequences

namespace Production

theorem mem_firstOf_cons {p : Production} {ps : List Production} :
    token ∈ firstOf known firsts (p :: ps) ↔
      token ∈ first known firsts p ∨ nullable known p = true ∧ token ∈ firstOf known firsts ps := by
  rw [firstOf]
  split
  case isTrue hNull => rw [TokenSet.mem_union, and_iff_right hNull, or_comm]
  case isFalse hFull => rw [or_iff_left fun h => hFull h.1]

abbrev KnowsFirst (rules : List Rule) (firsts : RuleId → TokenSet) (token : TypeId) : Prop :=
  ∀ r, token ∈ firsts r → r < rules.length ∧ First rules [.sequence (definitionOf rules r)] token

mutual

theorem exists_expands_of_mem_first (hKnown : KnowsEmpty rules known)
    (hFirsts : KnowsFirst rules firsts token) (p : Production) (h : token ∈ first known firsts p) :
    ∃ c, p.Expands rules c ∧ First rules c token := by
  cases p with
  | terminal other occurrence =>
    rw [first, TokenSet.mem_insert, or_iff_left TokenSet.not_mem_empty] at h
    exact ⟨_, .terminal, h ▸ first_token⟩
  | nonTerminal name target occurrence =>
    cases target with
    | none => exact absurd h TokenSet.not_mem_empty
    | some target =>
      obtain ⟨hTarget, hFirst⟩ := hFirsts target h
      exact ⟨_, .reference hTarget, hFirst⟩
  | option definition occurrence =>
    rw [first] at h
    exact ⟨_, .option, first_of_mem_firstOf hKnown hFirsts definition h⟩
  | repetition mandatory separator definition occurrence =>
    rw [first] at h
    exact ⟨_, .iteration, first_append.mpr (.inl (first_of_mem_firstOf hKnown hFirsts definition h))⟩
  | alternation alternatives occurrence =>
    rw [first] at h
    obtain ⟨branch, hBranch, hFirst⟩ := exists_branch_of_mem_first hKnown hFirsts alternatives h
    exact ⟨_, .alternative branch hBranch, hFirst⟩

theorem first_of_mem_firstOf (hKnown : KnowsEmpty rules known)
    (hFirsts : KnowsFirst rules firsts token) (ps : List Production)
    (h : token ∈ firstOf known firsts ps) : First rules [.sequence ps] token := by
  cases ps with
  | nil => exact absurd h TokenSet.not_mem_empty
  | cons p ps =>
    rw [first_sequence_cons]
    rcases mem_firstOf_cons.mp h with h | ⟨hNull, h⟩
    · exact .inl (exists_expands_of_mem_first hKnown hFirsts p h)
    · exact .inr ⟨exists_expands_of_nullable hKnown p hNull,
        first_of_mem_firstOf hKnown hFirsts ps h⟩

theorem exists_branch_of_mem_first (hKnown : KnowsEmpty rules known)
    (hFirsts : KnowsFirst rules firsts token) (branches : List (Alternative Production))
    (h : token ∈ firstOfBranches known firsts branches) :
    ∃ branch ∈ branches, First rules [.sequence branch.definition] token := by
  cases branches with
  | nil => exact absurd h TokenSet.not_mem_empty
  | cons branch rest =>
    rw [firstOfBranches, TokenSet.mem_union] at h
    rcases h with h | h
    · obtain ⟨other, hOther, hFirst⟩ := exists_branch_of_mem_first hKnown hFirsts rest h
      exact ⟨other, List.mem_cons_of_mem _ hOther, hFirst⟩
    · exact ⟨branch, List.mem_cons_self, first_of_mem_firstOf hKnown hFirsts branch.definition h⟩

end

/-- Every iteration of a repetition stands for something. -/
def IteratesFully (rules : List Rule) : Production → Prop
  | .repetition _ _ definition _ => ¬ Nullable rules [.sequence definition]
  | _ => True

instance (fs : FirstSets) : DecidablePred (IsSolid fs)
  | .repetition _ _ definition _ => inferInstanceAs (Decidable (fs.nullableAll definition = false))
  | .terminal _ _ | .nonTerminal _ _ _ | .option _ _ | .alternation _ _ => isTrue trivial

theorem isSolid_iff {p : Production} : p.IsSolid (.ofRules rules) ↔ p.IteratesFully rules := by
  cases p with
  | repetition mandatory separator definition occurrence =>
    rw [IsSolid, IteratesFully, ← FirstSets.nullableAll_iff, Bool.not_eq_true]
  | terminal | nonTerminal | option | alternation => exact Iff.rfl

end Production

theorem areSolid_iff : AreSolid rules ↔ AllRules (Production.IteratesFully rules) rules :=
  forall₄_congr fun _ _ _ _ => Production.isSolid_iff

namespace FirstSets

variable {r : RuleId} {ps : List Production}

theorem knowsEmpty : Production.KnowsEmpty rules (ofRules rules).isNullable := fun _ =>
  nullable_of_rounds rules.length

theorem first_of_rounds (n : Nat)
    (h : token ∈ (Nat.repeat (firstRound rules (ofRules rules).isNullable) n
      (rules.map fun _ => .empty)).getD r .empty) :
    r < rules.length ∧ First rules [.sequence (definitionOf rules r)] token := by
  induction n generalizing r with
  | zero =>
    rw [Nat.repeat, List.getD_eq_getElem?_getD, List.getElem?_map] at h
    cases hr : rules[r]? with
    | none => exact absurd (by simpa [hr] using h) TokenSet.not_mem_empty
    | some rule => exact absurd (by simpa [hr] using h) TokenSet.not_mem_empty
  | succ n ih =>
    rw [Nat.repeat, firstRound, getD_map_definition] at h
    split at h
    · next hr => exact ⟨hr, Production.first_of_mem_firstOf knowsEmpty (fun _ => ih) _ h⟩
    · exact absurd h TokenSet.not_mem_empty

theorem knowsFirst : Production.KnowsFirst rules (ofRules rules).first token := fun _ =>
  first_of_rounds rules.length

theorem nullable_of_vanishes {segment : Segment} (h : segment.vanishes (ofRules rules) = true) :
    Nullable rules [segment] := by
  match segment with
  | .sequence definition => exact nullableAll_iff.mp h
  | .again definition separator => exact nullable_of_expands .stop nullable_nil
  | .token other => cases h

/-- Left recursion does no harm: the rounds find exactly the rules that can stand for nothing, and
if no iteration can, exactly the tokens that each rule can begin with. -/
theorem ofRules_exact (rules : List Rule) (r : RuleId) :
    ((ofRules rules).isNullable r = true ↔
      r < rules.length ∧ Nullable rules [.sequence (definitionOf rules r)]) ∧
    (AllRules (Production.IteratesFully rules) rules → ∀ token, token ∈ (ofRules rules).first r ↔
      First rules [.sequence (definitionOf rules r)] token) := by
  constructor
  · refine ⟨knowsEmpty r, fun ⟨hr, hNull⟩ => ?_⟩
    exact isNullable_of_definition hr (nullableAll_iff.mpr hNull)
  · intro hRules token
    have hSolid := areSolid_iff.mpr hRules
    refine ⟨fun h => (knowsFirst r h).2, fun hFirst => ?_⟩
    by_cases hr : r < rules.length
    · have hMem := hFirst.mem hSolid (AllRules.definition hSolid r)
      exact mem_first_of_definition hr (mem_sequence.mp hMem)
    · rw [definitionOf, List.getElem?_eq_none (Nat.le_of_not_lt hr)] at hFirst
      exact absurd hFirst not_first_sequence_nil

end FirstSets

namespace Recursive

/-- A list begins with a list or is empty; an item is a list in brackets, with separators between
lists that are not empty, or a name behind a list. -/
def lists : List Rule :=
  [⟨"list", [.alternation [⟨[.nonTerminal "list" (some 0) 0, .nonTerminal "item" (some 1) 0],
      false, false⟩, ⟨[], false, false⟩] 0], []⟩,
    ⟨"item", [.alternation [⟨[.terminal 1 0, .repetition true (some 2)
      [.nonTerminal "list" (some 0) 0, .terminal 3 0] 0, .terminal 4 0], false, false⟩,
      ⟨[.nonTerminal "list" (some 0) 1, .terminal 3 1], false, false⟩] 0], []⟩]

end Recursive

open Recursive in
theorem ofRules_exact_lists : AllRules (Production.IteratesFully lists) lists ∧
    Nullable lists [.sequence (definitionOf lists 0)] ∧
    ¬ Nullable lists [.sequence (definitionOf lists 1)] ∧
    First lists [.sequence (definitionOf lists 0)] 3 ∧
    ¬ First lists [.sequence (definitionOf lists 0)] 2 := by
  have hRules : AllRules (Production.IteratesFully lists) lists := areSolid_iff.mp (by decide)
  obtain ⟨hList, hFirst⟩ := FirstSets.ofRules_exact lists 0
  obtain ⟨hItem, -⟩ := FirstSets.ofRules_exact lists 1
  refine ⟨hRules, (hList.mp (by decide)).2, fun hNull => ?_, (hFirst hRules 3).mp ?_, fun h => ?_⟩
  · exact absurd (hItem.mpr ⟨by decide, hNull⟩) (by decide)
  · exact TokenSet.contains_iff.mp (by decide)
  · exact absurd (TokenSet.contains_iff.mpr ((hFirst hRules 2).mpr h)) (by decide)

end PredictiveParsing
