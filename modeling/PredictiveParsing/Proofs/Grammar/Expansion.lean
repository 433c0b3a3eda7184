import PredictiveParsing.Proofs.Grammar.Effort

/-!
# Expanding comes to an end

In a grammar of sound structure, expanding a continuation for one token takes fewer steps than its
effort, so the bound that it is given suffices.
-/

namespace PredictiveParsing

variable {rules : List Rule} {weigh : RuleId → Nat} {c : Continuation} {p : Production}
  {segment : Segment}

/-- A reference leads to a rule, and no iteration is empty. -/
def Production.IsSound (rules : List Rule) (p : Production) : Prop :=
  p.IsResolved rules ∧ p.IsSolid (.ofRules rules)

structure Segment.IsSound (rules : List Rule) (segment : Segment) : Prop where
  parts : ∀ p ∈ Production.nodesOf segment.parts, p.IsSound rules
  iterates : ∀ definition separator, segment = .again definition separator →
    (FirstSets.ofRules rules).nullableAll definition = false

theorem Segment.isSound_token (token : TypeId) : (Segment.token token).IsSound rules where
  parts _ hp := by cases hp
  iterates _ _ h := by cases h

theorem Segment.isSound_sequence {ps : List Production}
    (h : ∀ p ∈ Production.nodesOf ps, p.IsSound rules) : (Segment.sequence ps).IsSound rules where
  parts := h
  iterates _ _ h := by cases h

theorem Segment.inherits_isSound :
    Segment.Inherits (Production.IsSound rules) (Segment.IsSound rules) where
  token := isSound_token
  sequence _ := isSound_sequence
  again _ _ _ _ h := by
    refine ⟨fun p hp => h p (List.mem_cons_of_mem _ hp), fun _ _ hSame => ?_⟩
    cases hSame
    exact (h _ (Production.mem_nodes_self _)).2

theorem Segment.isKept_isSound (hRules : AllRules (Production.IsSound rules) rules) :
    Segment.IsKept rules (Production.IsSound rules) (Segment.IsSound rules) where
  toInherits := inherits_isSound
  parts _ h := h.parts
  resolved _ h := h.1
  rules := hRules

namespace Lookahead

variable {room k fuel : Nat} {q : Partial}

/-- Expanding has come to an end, and all that it has found has a property. -/
def Gives (P : Partial → Prop) (found : Option (List Partial)) : Prop :=
  ∃ ps, found = some ps ∧ ∀ p ∈ ps, P p

/-- Expanding for one more token comes to an end if each step in front of it lowers a measure, and
expanding comes to an end behind the token. -/
theorem gives_expand_succ {P : Partial → Prop} {C : Continuation → Prop}
    {measure : Continuation → Nat}
    (hStep : ∀ c, C c → ∀ q ∈ successors rules c,
      q.path = [] ∧ C q.rest ∧ measure q.rest < measure c ∨
        ∃ token, q.path = [token] ∧ ∀ fuel, k ≤ fuel →
          Gives (fun p => P (p.behind [token])) (expand rules fuel room q.rest))
    (hEnd : P ⟨[], []⟩) (hc : C c) (hFuel : measure c + k < fuel) :
    Gives P (expand rules fuel (room + 1) c) := by
  induction fuel generalizing c with
  | zero => cases hFuel
  | succ fuel ih =>
    by_cases hSome : c = []
    · subst hSome
      exact ⟨_, rfl, List.forall_mem_singleton.mpr hEnd⟩
    · have hEach : ∀ q ∈ successors rules c, Gives P (goOn rules fuel (room + 1) q) := by
        rintro ⟨path, rest⟩ hq
        rcases hStep c hc _ hq with ⟨rfl, hRest, hLt⟩ | ⟨token, rfl, hRead⟩
        · rw [goOn_silent]
          exact ih hRest (Nat.lt_of_lt_of_le (Nat.add_lt_add_right hLt k) (Nat.le_of_lt_succ hFuel))
        · obtain ⟨ps, hps, hAll⟩ := hRead fuel (by omega)
          refine ⟨ps.map (Partial.behind [token]), ?_, List.forall_mem_map.mpr hAll⟩
          exact Option.map_eq_some_iff.mpr ⟨ps, hps, rfl⟩
      obtain ⟨found, hFound, hAll⟩ := exists_mapM hEach
      refine ⟨found.flatten, ?_, fun p hp => ?_⟩
      · rw [expand_eq_successors hSome, hFound, Option.map_some]
      · obtain ⟨ps, hps, hp⟩ := List.mem_flatten.mp hp
        exact hAll ps hps p hp

section Sound

variable (hRules : AllRules (Production.IsSound rules) rules)
  (hWeights : Outweighs (.ofRules rules) weigh rules)

include hWeights in
theorem effort_lt_of_mem_successors (hc : ∀ segment ∈ c, segment.IsSound rules)
    (hq : q ∈ successors rules c) (hSilent : q.path = []) :
    Segment.effortAll (.ofRules rules) weigh q.rest < Segment.effortAll (.ofRules rules) weigh c := by
  cases c with
  | nil => cases hq
  | cons segment rest =>
    obtain ⟨hFirst, hRest⟩ := List.forall_mem_cons.mp hc
    cases segment with
    | token token =>
      obtain rfl := List.mem_singleton.mp hq
      cases hSilent
    | again definition separator =>
      have hFull := hFirst.iterates _ _ rfl
      rw [Segment.effortAll, Segment.effort, Segment.vanishes, if_pos rfl]
      rcases List.mem_pair.mp hq with rfl | rfl
      · cases separator with
        | none =>
          simp only [another, List.cons_append, Segment.effortAll, Segment.effort, Segment.vanishes,
            hFull, Bool.false_eq_true, if_false]
          omega
        | some s =>
          simp only [another, List.cons_append, Segment.effortAll, Segment.effort, Segment.vanishes,
            Bool.false_eq_true, if_false]
          omega
      · exact Nat.lt_add_of_pos_left (by omega)
    | sequence definition =>
      cases definition with
      | nil =>
        obtain rfl := List.mem_singleton.mp hq
        rw [Segment.effortAll, Segment.effort, Segment.vanishes, FirstSets.nullableAll,
          Production.nullableAll, if_pos rfl]
        exact Nat.lt_add_of_pos_left (by omega)
      | cons p ps =>
        obtain ⟨way, hWay, rfl⟩ := List.mem_map.mp hq
        obtain ⟨hResolved, hSolid⟩ := hFirst.parts p
          (List.mem_append_left _ (Production.mem_nodes_self p))
        rcases ways_cases hResolved hWay with
          ⟨token, _, rfl, rfl⟩ | ⟨d, hExpands, rfl⟩ | ⟨_, _, rfl, rfl⟩
        · cases hSilent
        · exact effort_append_remaining_lt hWeights hExpands hSolid
        · have hLe : Segment.effortAll (.ofRules rules) weigh (remaining ps rest) ≤ _ :=
            Segment.effortAll_remaining_le
          rw [Segment.effortAll_sequence_cons, Production.effort, Production.nullable]
          simp only [Partial.before, List.cons_append, List.nil_append, Segment.effortAll,
            Segment.effort, Segment.vanishes, Bool.not_false, Bool.true_or, if_true]
          omega

structure IsOpening (rules : List Rule) (p : Partial) : Prop where
  path : p.path.length = 1 ∨ p.path = [] ∧ p.rest = []
  sound : ∀ segment ∈ p.rest, segment.IsSound rules

def Opens (rules : List Rule) (found : Option (List Partial)) : Prop := Gives (IsOpening rules) found

include hRules hWeights in
theorem opens_expand (hc : ∀ segment ∈ c, segment.IsSound rules)
    (hFuel : Segment.effortAll (.ofRules rules) weigh c + 1 < fuel) :
    Opens rules (expand rules fuel 1 c) := by
  have hKept := Segment.isKept_isSound hRules
  refine gives_expand_succ (C := fun c => ∀ segment ∈ c, segment.IsSound rules) ?_
    ⟨.inr ⟨rfl, rfl⟩, List.forall_mem_nil _⟩ hc hFuel
  intro c hc q hq
  have hRest := keeps_successors hKept hc hq
  rcases path_of_mem_successors (hKept.throughout hc) hq with hSilent | ⟨token, hToken⟩
  · exact .inl ⟨hSilent, hRest, effort_lt_of_mem_successors hWeights hc hq hSilent⟩
  · refine .inr ⟨token, hToken, fun fuel hFuel => ?_⟩
    obtain ⟨fuel, rfl⟩ : ∃ n, fuel = n + 1 := Nat.exists_eq_add_of_le' hFuel
    exact ⟨_, rfl, List.forall_mem_singleton.mpr ⟨.inl rfl, hRest⟩⟩

end Sound

theorem foldl_size (start : Nat) :
    (c.map Segment.size).foldl (· + ·) start = start + Segment.sizeAll c := by
  induction c generalizing start with
  | nil => rfl
  | cons segment c ih => rw [List.map_cons, List.foldl_cons, ih, Segment.sizeAll, Nat.add_assoc]

theorem stepBound_eq : stepBound rules room c =
    (room + 1) * (Segment.sizeAll c + 2 + (room + 1) * nested rules) * nested rules := by
  rw [stepBound, foldl_size, Nat.zero_add]

/-- In a grammar without left recursion, expanding for one token comes to an end. -/
theorem opens_expand? (hRules : AllRules (Production.IsSound rules) rules)
    (hOrdered : ∀ r, Structure.IsOrdered (Structure.openingRules (.ofRules rules) rules) r)
    (hc : ∀ segment ∈ c, segment.IsSound rules) : Opens rules (expand? rules 1 c) := by
  obtain ⟨weigh, hWeights, hBound⟩ := exists_weights hOrdered
  refine opens_expand hRules hWeights hc ?_
  have hNested : 4 ≤ nested rules :=
    (Nat.le_add_left 4 _).trans (Nat.le_self_pow (Nat.succ_ne_zero _) _)
  have hEffort : Segment.effortAll (.ofRules rules) weigh c ≤ Segment.sizeAll c * nested rules :=
    Segment.effortAll_le (Nat.le_of_succ_le hNested) hBound c
  calc Segment.effortAll (.ofRules rules) weigh c + 1
      < (Segment.sizeAll c + 1) * nested rules := by
        rw [Nat.succ_mul]
        omega
    _ ≤ stepBound rules 1 c := by
        rw [stepBound_eq]
        exact Nat.mul_le_mul_right _ (by omega)

end Lookahead

end PredictiveParsing
