import PredictiveParsing.Proofs.Grammar.FirstSets

/-!
# Rules that derive nothing

The rounds find exactly the rules that can stand for nothing: what a round adds derives nothing
through what the rounds before have found, and at the end nothing is missing.
-/

namespace PredictiveParsing

variable {rules : List Rule} {known : RuleId → Bool}

namespace Production

abbrev KnowsEmpty (rules : List Rule) (known : RuleId → Bool) : Prop :=
  ∀ r, known r = true → r < rules.length ∧ Nullable rules [.sequence (definitionOf rules r)]

mutual

theorem exists_expands_of_nullable (hKnown : KnowsEmpty rules known) (p : Production)
    (h : nullable known p = true) : ∃ c, p.Expands rules c ∧ Nullable rules c := by
  cases p with
  | terminal token occurrence => simp [nullable] at h
  | nonTerminal name target occurrence =>
    cases target with
    | none => simp [nullable] at h
    | some target =>
      obtain ⟨hTarget, hNull⟩ := hKnown target (by simpa [nullable] using h)
      exact ⟨_, .reference hTarget, hNull⟩
  | option definition occurrence => exact ⟨_, .noOption, nullable_nil⟩
  | repetition mandatory separator definition occurrence =>
    cases mandatory with
    | false => exact ⟨_, .noIteration, nullable_nil⟩
    | true =>
      have hBody := nullable_of_nullableAll hKnown definition (by simpa [nullable] using h)
      have hStop : Nullable rules [.again definition separator] :=
        nullable_of_expands .stop nullable_nil
      exact ⟨_, .iteration, nullable_append.mpr ⟨hBody, hStop⟩⟩
  | alternation alternatives occurrence =>
    rw [nullable] at h
    obtain ⟨branch, hBranch, hNull⟩ := exists_branch_of_nullable hKnown alternatives h
    exact ⟨_, .alternative branch hBranch, hNull⟩

theorem nullable_of_nullableAll (hKnown : KnowsEmpty rules known) (ps : List Production)
    (h : nullableAll known ps = true) : Nullable rules [.sequence ps] := by
  cases ps with
  | nil => exact nullable_sequence_nil
  | cons p ps =>
    rw [nullableAll, Bool.and_eq_true] at h
    exact nullable_sequence_cons.mpr
      ⟨exists_expands_of_nullable hKnown p h.1, nullable_of_nullableAll hKnown ps h.2⟩

theorem exists_branch_of_nullable (hKnown : KnowsEmpty rules known)
    (branches : List (Alternative Production)) (h : nullableBranches known branches = true) :
    ∃ branch ∈ branches, Nullable rules [.sequence branch.definition] := by
  cases branches with
  | nil => simp [nullableBranches] at h
  | cons branch rest =>
    rw [nullableBranches, Bool.or_eq_true] at h
    rcases h with h | h
    · exact ⟨branch, List.mem_cons_self, nullable_of_nullableAll hKnown branch.definition h⟩
    · obtain ⟨other, hOther, hNull⟩ := exists_branch_of_nullable hKnown rest h
      exact ⟨other, List.mem_cons_of_mem _ hOther, hNull⟩

end

end Production

namespace FirstSets

variable {r : RuleId} {ps : List Production}

theorem nullable_of_rounds (n : Nat)
    (h : (Nat.repeat (nullableRound rules) n (rules.map fun _ => false)).getD r false = true) :
    r < rules.length ∧ Nullable rules [.sequence (definitionOf rules r)] := by
  induction n generalizing r with
  | zero =>
    rw [Nat.repeat, List.getD_eq_getElem?_getD, List.getElem?_map] at h
    cases hr : rules[r]? with
    | none => simp [hr] at h
    | some rule => simp [hr] at h
  | succ n ih =>
    rw [Nat.repeat, nullableRound, getD_map_definition] at h
    split at h
    · next hr => exact ⟨hr, Production.nullable_of_nullableAll (fun _ => ih) _ h⟩
    · cases h

theorem nullableAll_iff :
    (ofRules rules).nullableAll ps = true ↔ Nullable rules [.sequence ps] := by
  constructor
  · exact Production.nullable_of_nullableAll (fun _ => nullable_of_rounds rules.length) ps
  · intro h
    have hKnown := h.vanishes
    rwa [snd_sequence] at hKnown

end FirstSets

end PredictiveParsing
