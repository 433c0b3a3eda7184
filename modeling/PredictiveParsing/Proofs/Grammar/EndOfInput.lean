import PredictiveParsing.Proofs.Grammar.Sites

/-!
# Where the end of the input is asked for

Reading the end of the input uses nothing up, so a rule that asks for it makes no progress there.
That does no harm if nothing comes behind: neither in the rule, nor in a rule that calls it.
-/

namespace PredictiveParsing

namespace Production

def isEnd : Production → Bool
  | .terminal token _ => token == Vocabulary.eof
  | _ => false

def target? : Production → Option RuleId
  | .nonTerminal _ target _ => target
  | _ => none

def endFree (ps : List Production) : Bool := (nodesOf ps).all fun p => !p.isEnd

def endLast : List Production → Bool
  | [] => true
  | [p] => p.isEnd || endFree [p]
  | p :: q :: ps => endFree [p] && endLast (q :: ps)

variable {p : Production} {ps qs : List Production}

theorem nodesOf_singleton : nodesOf [p] = p.nodes := by
  rw [nodesOf, nodesOf, List.append_nil]

theorem nodesOf_append : nodesOf (ps ++ qs) = nodesOf ps ++ nodesOf qs := by
  induction ps with
  | nil => rw [nodesOf, List.nil_append, List.nil_append]
  | cons p ps ih => rw [List.cons_append, nodesOf, nodesOf, ih, List.append_assoc]

theorem endFree_iff : endFree ps = true ↔ ∀ p ∈ nodesOf ps, p.isEnd = false := by
  simp [endFree]

theorem endFree_append : endFree (ps ++ qs) = (endFree ps && endFree qs) := by
  rw [endFree, nodesOf_append, List.all_append]
  rfl

theorem endFree_cons : endFree (p :: ps) = (endFree [p] && endFree ps) := by
  rw [← endFree_append, List.singleton_append]

theorem endLast_of_endFree (h : endFree ps = true) : endLast ps = true := by
  induction ps with
  | nil => rfl
  | cons p ps ih =>
    cases ps with
    | nil => rw [endLast, h, Bool.or_true]
    | cons q ps =>
      rw [endFree_cons, Bool.and_eq_true] at h
      rw [endLast, Bool.and_eq_true]
      exact ⟨h.1, ih h.2⟩

theorem endLast_cons (h : endLast (p :: ps) = true) :
    endLast [p] = true ∧ endLast ps = true ∧ (ps = [] ∨ endFree [p] = true) := by
  cases ps with
  | nil => exact ⟨h, rfl, .inl rfl⟩
  | cons q ps =>
    rw [endLast, Bool.and_eq_true] at h
    exact ⟨endLast_of_endFree h.1, h.2, .inr h.1⟩

theorem endLast_append (h : endLast (ps ++ qs) = true) :
    endLast ps = true ∧ endLast qs = true ∧ (qs = [] ∨ endFree ps = true) := by
  induction ps with
  | nil => exact ⟨rfl, h, .inr rfl⟩
  | cons p ps ih =>
    obtain ⟨hFirst, hRest, hBehind⟩ := endLast_cons h
    obtain ⟨hps, hqs, hNone⟩ := ih hRest
    rcases hBehind with hEmpty | hFree
    · obtain ⟨rfl, rfl⟩ := List.append_eq_nil_iff.mp hEmpty
      exact ⟨hFirst, rfl, .inl rfl⟩
    · refine ⟨?_, hqs, hNone.imp_right fun hps => ?_⟩
      · cases ps with
        | nil => exact hFirst
        | cons q ps => rw [endLast, hFree, hps, Bool.true_and]
      · rw [endFree_cons, hFree, hps, Bool.true_and]

theorem endFree_of_endLast (h : endLast [p] = true) (hNested : p.isEnd = false) :
    ∀ q ∈ p.nodes, q.isEnd = false := by
  rw [endLast, hNested, Bool.false_or, endFree_iff, nodesOf_singleton] at h
  exact h

end Production

/-- The end of the input is asked for at the end of rules that no rule calls, and does not stand
between iterations. -/
structure ReadsEndLast (rules : List Rule) : Prop where
  separators : AllRules (fun p => p.separator ≠ some Vocabulary.eof) rules
  last : ∀ r ∈ rules, Production.endLast r.definition = true
  uncalled : AllRules (fun p => ∀ id ∈ p.target?, Production.endFree (definitionOf rules id) = true)
    rules

instance (rules : List Rule) : Decidable (ReadsEndLast rules) :=
  decidable_of_iff
    (AllRules (fun p => p.separator ≠ some Vocabulary.eof) rules ∧
      (∀ r ∈ rules, Production.endLast r.definition = true) ∧
      AllRules (fun p => ∀ id ∈ p.target?, Production.endFree (definitionOf rules id) = true) rules)
    ⟨fun h => ⟨h.1, h.2.1, h.2.2⟩, fun h => ⟨h.separators, h.last, h.uncalled⟩⟩

theorem ReadsEndLast.definition {rules : List Rule} (h : ReadsEndLast rules) (id : RuleId) :
    Production.endLast (definitionOf rules id) = true := by
  rw [definitionOf]
  cases hr : rules[id]? with
  | none => rfl
  | some r => exact h.last r (List.mem_of_getElem? hr)

end PredictiveParsing
