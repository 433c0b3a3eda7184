import Mathlib.Data.Finset.Card
import PredictiveParsing.Proofs.Grammar.Throughout

/-!
# The sets of first tokens

After as many rounds as there are rules another round finds nothing new, so the sets are closed:
what a continuation can begin with is in its set, and one that can stand for nothing is known to.
-/

namespace PredictiveParsing

/-- Sets that grow by rounds, each of which can be told from the one before, stay as they are once
there have been as many rounds as there are elements. -/
theorem rounds_stable {n : Nat} {S : Nat → Finset Nat} (hZero : S 0 = ∅)
    (hRange : ∀ k, S k ⊆ Finset.range n)
    (hMono : ∀ k l, S k ⊆ S l → S (k + 1) ⊆ S (l + 1)) : S (n + 1) ⊆ S n := by
  have hGrow : ∀ k, S k ⊆ S (k + 1) := by
    intro k
    induction k with
    | zero => simp [hZero]
    | succ k ih => exact hMono k (k + 1) ih
  have hStay : ∀ k l, k ≤ l → S (k + 1) ⊆ S k → S (l + 1) ⊆ S l := by
    intro k l hLe hFixed
    induction l, hLe using Nat.le_induction with
    | base => exact hFixed
    | succ l _ ih => exact hMono (l + 1) l ih
  by_contra hNew
  have hCard : ∀ k, k ≤ n + 1 → k ≤ (S k).card := by
    intro k
    induction k with
    | zero => intro _; exact Nat.zero_le _
    | succ k ih =>
      intro hk
      have hStrict : S k ⊂ S (k + 1) :=
        ⟨hGrow k, fun hFixed => hNew (hStay k n (by omega) hFixed)⟩
      have := Finset.card_lt_card hStrict
      have := ih (by omega)
      omega
  have hLarge := hCard (n + 1) (Nat.le_refl _)
  have hSmall := Finset.card_le_card (hRange (n + 1))
  rw [Finset.card_range] at hSmall
  omega

/-- A table that is made by rounds from an empty one. What a round puts into a row depends on what the
rows have, and grows with it. -/
structure IsTable {β : Type} (n : Nat) (empty : β) (has : β → Prop)
    (gets : (Nat → Prop) → Nat → Prop) (start : List β) (round : List β → List β) : Prop where
  grows : ∀ {P Q : Nat → Prop}, (∀ r, P r → Q r) → ∀ r, gets P r → gets Q r
  round : ∀ rows r, has ((round rows).getD r empty) ↔
    r < n ∧ gets (fun r => has (rows.getD r empty)) r
  start : ∀ r, ¬ has (start.getD r empty)

theorem IsTable.closed {β : Type} {n : Nat} {empty : β} {has : β → Prop}
    {gets : (Nat → Prop) → Nat → Prop} {start : List β} {round : List β → List β}
    (hTable : IsTable n empty has gets start round) {r : Nat} (hr : r < n)
    (h : gets (fun r => has ((Nat.repeat round n start).getD r empty)) r) :
    has ((Nat.repeat round n start).getD r empty) := by
  classical
  let S : Nat → Finset Nat := fun k =>
    (Finset.range n).filter fun r => has ((Nat.repeat round k start).getD r empty)
  have hMem : ∀ k r, r ∈ S k ↔ has ((Nat.repeat round k start).getD r empty) := by
    intro k r
    simp only [S, Finset.mem_filter, Finset.mem_range]
    refine ⟨fun hr => hr.2, fun hr => ⟨?_, hr⟩⟩
    cases k with
    | zero => exact absurd hr (hTable.start r)
    | succ k => exact ((hTable.round _ r).mp hr).1
  have hStable : S (n + 1) ⊆ S n := by
    refine rounds_stable ?_ (fun k => Finset.filter_subset _ _) fun k l hkl r hr => ?_
    · exact Finset.filter_eq_empty_iff.mpr fun r _ => hTable.start r
    · obtain ⟨hLt, hGets⟩ := (hTable.round _ r).mp ((hMem (k + 1) r).mp hr)
      refine (hMem (l + 1) r).mpr ((hTable.round _ r).mpr ⟨hLt, ?_⟩)
      exact hTable.grows (fun r hr => (hMem l r).mp (hkl ((hMem k r).mpr hr))) r hGets
  exact (hMem n r).mp (hStable ((hMem (n + 1) r).mpr ((hTable.round _ r).mpr ⟨hr, h⟩)))

namespace Production

variable {known known' : RuleId → Bool}

mutual

theorem nullable_mono (h : ∀ r, known r = true → known' r = true) (p : Production) :
    nullable known p = true → nullable known' p = true := by
  cases p with
  | terminal token occurrence => simp [nullable]
  | nonTerminal name target occurrence =>
    cases target with
    | none => simp [nullable]
    | some target => simpa [nullable] using h target
  | option definition occurrence => simp [nullable]
  | repetition mandatory separator definition occurrence =>
    have := nullableAll_mono h definition
    simp only [nullable, Bool.or_eq_true]
    exact Or.imp_right this
  | alternation alternatives occurrence =>
    simpa only [nullable] using nullableBranches_mono h alternatives

theorem nullableAll_mono (h : ∀ r, known r = true → known' r = true) (ps : List Production) :
    nullableAll known ps = true → nullableAll known' ps = true := by
  cases ps with
  | nil => simp [nullableAll]
  | cons p ps =>
    simp only [nullableAll, Bool.and_eq_true]
    exact And.imp (nullable_mono h p) (nullableAll_mono h ps)

theorem nullableBranches_mono (h : ∀ r, known r = true → known' r = true)
    (branches : List (Alternative Production)) :
    nullableBranches known branches = true → nullableBranches known' branches = true := by
  cases branches with
  | nil => simp [nullableBranches]
  | cons branch rest =>
    simp only [nullableBranches, Bool.or_eq_true]
    exact Or.imp (nullableAll_mono h branch.definition) (nullableBranches_mono h rest)

end

variable {firsts firsts' : RuleId → TokenSet} {token : TypeId}

mutual

theorem first_mono (h : ∀ r, token ∈ firsts r → token ∈ firsts' r) (p : Production) :
    token ∈ first known firsts p → token ∈ first known firsts' p := by
  cases p with
  | terminal token occurrence => simp [first]
  | nonTerminal name target occurrence =>
    cases target with
    | none => simp [first]
    | some target => simpa [first] using h target
  | option definition occurrence => simpa only [first] using firstOf_mono h definition
  | repetition mandatory separator definition occurrence =>
    simpa only [first] using firstOf_mono h definition
  | alternation alternatives occurrence =>
    simpa only [first] using firstOfBranches_mono h alternatives

theorem firstOf_mono (h : ∀ r, token ∈ firsts r → token ∈ firsts' r) (ps : List Production) :
    token ∈ firstOf known firsts ps → token ∈ firstOf known firsts' ps := by
  cases ps with
  | nil => simp [firstOf]
  | cons p ps =>
    simp only [firstOf]
    split
    · simp only [TokenSet.mem_union]
      exact Or.imp (firstOf_mono h ps) (first_mono h p)
    · exact first_mono h p

theorem firstOfBranches_mono (h : ∀ r, token ∈ firsts r → token ∈ firsts' r)
    (branches : List (Alternative Production)) :
    token ∈ firstOfBranches known firsts branches →
      token ∈ firstOfBranches known firsts' branches := by
  cases branches with
  | nil => simp [firstOfBranches]
  | cons branch rest =>
    simp only [firstOfBranches, TokenSet.mem_union]
    exact Or.imp (firstOfBranches_mono h rest) (firstOf_mono h branch.definition)

end

end Production

namespace FirstSets

variable {rules : List Rule} {r : RuleId} {token : TypeId}

theorem getD_map_definition {β : Type} (f : List Production → β) (empty : β) (r : Nat) :
    (rules.map fun rule => f rule.definition).getD r empty =
      if r < rules.length then f (definitionOf rules r) else empty := by
  rw [List.getD_eq_getElem?_getD, List.getElem?_map, definitionOf]
  split
  · next h => simp [List.getElem?_eq_getElem h]
  · next h => simp [List.getElem?_eq_none (Nat.le_of_not_lt h)]

def GetsNullable (rules : List Rule) (P : Nat → Prop) (r : Nat) : Prop :=
  ∀ known : RuleId → Bool, (∀ r, P r → known r = true) →
    Production.nullableAll known (definitionOf rules r) = true

def GetsFirst (rules : List Rule) (known : RuleId → Bool) (token : TypeId) (P : Nat → Prop)
    (r : Nat) : Prop :=
  ∀ firsts : RuleId → TokenSet, (∀ r, P r → token ∈ firsts r) →
    token ∈ Production.firstOf known firsts (definitionOf rules r)

theorem getsNullable_iff {known : RuleId → Bool} :
    GetsNullable rules (known · = true) r ↔
      Production.nullableAll known (definitionOf rules r) = true :=
  ⟨fun h => h known fun _ => id, fun h _ hKnown => Production.nullableAll_mono hKnown _ h⟩

theorem getsFirst_iff {known : RuleId → Bool} {firsts : RuleId → TokenSet} :
    GetsFirst rules known token (token ∈ firsts ·) r ↔
      token ∈ Production.firstOf known firsts (definitionOf rules r) :=
  ⟨fun h => h firsts fun _ => id, fun h _ hFirsts => Production.firstOf_mono hFirsts _ h⟩

theorem isTable_nullables (rules : List Rule) :
    IsTable rules.length false (· = true) (GetsNullable rules) (rules.map fun _ => false)
      (nullableRound rules) where
  grows hPQ r hGets known hKnown := hGets known fun r hr => hKnown r (hPQ r hr)
  round rows r := by
    rw [nullableRound, getD_map_definition]
    split
    · next hLt => exact getsNullable_iff.symm.trans (and_iff_right hLt).symm
    · next hLt => simp [hLt]
  start r := by
    rw [List.getD_eq_getElem?_getD, List.getElem?_map]
    cases rules[r]? <;> simp

theorem isTable_firsts (rules : List Rule) (known : RuleId → Bool) (token : TypeId) :
    IsTable rules.length .empty (token ∈ ·) (GetsFirst rules known token)
      (rules.map fun _ => .empty) (firstRound rules known) where
  grows hPQ r hGets firsts hFirsts := hGets firsts fun r hr => hFirsts r (hPQ r hr)
  round rows r := by
    rw [firstRound, getD_map_definition]
    split
    · next hLt => exact getsFirst_iff.symm.trans (and_iff_right hLt).symm
    · next hLt => simp [hLt, TokenSet.not_mem_empty]
  start r := by
    rw [List.getD_eq_getElem?_getD, List.getElem?_map]
    cases rules[r]? <;> simp [TokenSet.not_mem_empty]

theorem isNullable_of_definition (hr : r < rules.length)
    (h : (ofRules rules).nullableAll (definitionOf rules r) = true) :
    (ofRules rules).isNullable r = true :=
  (isTable_nullables rules).closed hr (getsNullable_iff.mpr h)

theorem mem_first_of_definition (hr : r < rules.length)
    (h : token ∈ (ofRules rules).firstOf (definitionOf rules r)) :
    token ∈ (ofRules rules).first r :=
  (isTable_firsts rules (ofRules rules).isNullable token).closed hr (getsFirst_iff.mpr h)

end FirstSets

/-! ## Continuations -/

section Closed

variable {rules : List Rule} {fs : FirstSets} {segment : Segment} {c d : Continuation}
  {token : TypeId}

def Segment.vanishes (fs : FirstSets) : Segment → Bool
  | .sequence definition => fs.nullableAll definition
  | .again _ _ => true
  | .token _ => false

def Segment.firsts (fs : FirstSets) : Segment → TokenSet
  | .sequence definition => fs.firstOf definition
  | .again definition none => fs.firstOf definition
  | .again _ (some separator) => TokenSet.empty.insert separator
  | .token token => TokenSet.empty.insert token

theorem firstOfContinuation_snd :
    (fs.firstOfContinuation (segment :: c)).2 =
      (segment.vanishes fs && (fs.firstOfContinuation c).2) := by
  cases segment with
  | sequence definition =>
    simp only [FirstSets.firstOfContinuation, Segment.vanishes]
    split <;> simp_all
  | again definition separator =>
    simp only [FirstSets.firstOfContinuation, Segment.vanishes, Bool.true_and]
    split <;> rfl
  | token token => simp [FirstSets.firstOfContinuation, Segment.vanishes]

theorem mem_firstOfContinuation :
    token ∈ (fs.firstOfContinuation (segment :: c)).1 ↔
      token ∈ segment.firsts fs ∨
        segment.vanishes fs = true ∧ token ∈ (fs.firstOfContinuation c).1 := by
  cases segment with
  | sequence definition =>
    simp only [FirstSets.firstOfContinuation, Segment.vanishes, Segment.firsts]
    split
    · next h => simp [h, or_comm]
    · next h => simp [h]
  | again definition separator =>
    cases separator with
    | none =>
      simp [FirstSets.firstOfContinuation, Segment.vanishes, Segment.firsts, or_comm]
    | some separator =>
      simp [FirstSets.firstOfContinuation, Segment.vanishes, Segment.firsts,
        TokenSet.not_mem_empty]
  | token token => simp [FirstSets.firstOfContinuation, Segment.vanishes, Segment.firsts]

theorem firstOfContinuation_append_snd :
    (fs.firstOfContinuation (c ++ d)).2 =
      ((fs.firstOfContinuation c).2 && (fs.firstOfContinuation d).2) := by
  induction c with
  | nil => simp [FirstSets.firstOfContinuation]
  | cons segment c ih =>
    rw [List.cons_append, firstOfContinuation_snd, firstOfContinuation_snd, ih, Bool.and_assoc]

theorem mem_firstOfContinuation_append :
    token ∈ (fs.firstOfContinuation (c ++ d)).1 ↔
      token ∈ (fs.firstOfContinuation c).1 ∨
        (fs.firstOfContinuation c).2 = true ∧ token ∈ (fs.firstOfContinuation d).1 := by
  induction c with
  | nil => simp [FirstSets.firstOfContinuation, TokenSet.not_mem_empty]
  | cons segment c ih =>
    rw [List.cons_append, mem_firstOfContinuation, mem_firstOfContinuation,
      firstOfContinuation_snd, ih, Bool.and_eq_true, and_or_left, ← or_assoc, and_assoc]

/-- No iteration of a repetition can be empty, as far as is known. -/
def Production.IsSolid (fs : FirstSets) : Production → Prop
  | .repetition _ _ definition _ => fs.nullableAll definition = false
  | _ => True

theorem nullableBranches_of_mem {branch : Alternative Production} {known : RuleId → Bool}
    {alternatives : List (Alternative Production)} (h : branch ∈ alternatives)
    (hNull : Production.nullableAll known branch.definition = true) :
    Production.nullableBranches known alternatives = true := by
  induction alternatives with
  | nil => cases h
  | cons other rest ih =>
    rw [Production.nullableBranches, Bool.or_eq_true]
    rcases List.mem_cons.mp h with rfl | h
    · exact .inl hNull
    · exact .inr (ih h)

theorem mem_firstOfBranches {branch : Alternative Production} {known : RuleId → Bool}
    {firsts : RuleId → TokenSet} {alternatives : List (Alternative Production)}
    (h : branch ∈ alternatives)
    (hFirst : token ∈ Production.firstOf known firsts branch.definition) :
    token ∈ Production.firstOfBranches known firsts alternatives := by
  induction alternatives with
  | nil => cases h
  | cons other rest ih =>
    rw [Production.firstOfBranches, TokenSet.mem_union]
    rcases List.mem_cons.mp h with rfl | h
    · exact .inr hFirst
    · exact .inl (ih h)

theorem snd_sequence (definition : List Production) :
    (fs.firstOfContinuation [.sequence definition]).2 = fs.nullableAll definition := by
  rw [firstOfContinuation_snd]
  exact Bool.and_true _

theorem mem_sequence {definition : List Production} :
    token ∈ (fs.firstOfContinuation [.sequence definition]).1 ↔ token ∈ fs.firstOf definition := by
  rw [mem_firstOfContinuation]
  simp [Segment.firsts, FirstSets.firstOfContinuation, TokenSet.not_mem_empty]

abbrev AreSolid (rules : List Rule) : Prop := AllRules (Production.IsSolid (.ofRules rules)) rules

abbrev IsSolid (rules : List Rule) : Continuation → Prop :=
  Throughout (Production.IsSolid (.ofRules rules))

theorem nullable_of_expands_vanishing {p : Production} (h : p.Expands rules c)
    (hNull : ((FirstSets.ofRules rules).firstOfContinuation c).2 = true) :
    Production.nullable (FirstSets.ofRules rules).isNullable p = true := by
  cases h with
  | terminal => simp [firstOfContinuation_snd, Segment.vanishes] at hNull
  | reference hTarget =>
    rw [snd_sequence] at hNull
    simpa [Production.nullable] using FirstSets.isNullable_of_definition hTarget hNull
  | noOption | option => simp [Production.nullable]
  | noIteration => simp [Production.nullable]
  | iteration =>
    rw [firstOfContinuation_snd, Bool.and_eq_true] at hNull
    rw [Production.nullable, Bool.or_eq_true]
    exact .inr hNull.1
  | alternative branch hBranch =>
    rw [snd_sequence] at hNull
    rw [Production.nullable]
    exact nullableBranches_of_mem hBranch hNull

theorem mem_first_of_expands {p : Production} (h : p.Expands rules c)
    (hSolid : p.IsSolid (.ofRules rules))
    (hFirst : token ∈ ((FirstSets.ofRules rules).firstOfContinuation c).1) :
    token ∈ Production.first (FirstSets.ofRules rules).isNullable (FirstSets.ofRules rules).first p := by
  cases h with
  | terminal =>
    simpa [mem_firstOfContinuation, Segment.firsts, Segment.vanishes, Production.first] using hFirst
  | reference hTarget =>
    rw [mem_sequence] at hFirst
    simpa [Production.first] using FirstSets.mem_first_of_definition hTarget hFirst
  | noOption | noIteration => exact absurd hFirst TokenSet.not_mem_empty
  | option =>
    rw [mem_sequence] at hFirst
    rwa [Production.first]
  | iteration =>
    have hSolid : (FirstSets.ofRules rules).nullableAll _ = false := hSolid
    rw [mem_firstOfContinuation, Segment.vanishes, hSolid] at hFirst
    rw [Production.first]
    exact hFirst.resolve_right fun h => Bool.false_ne_true h.1
  | alternative branch hBranch =>
    rw [mem_sequence] at hFirst
    rw [Production.first]
    exact mem_firstOfBranches hBranch hFirst

theorem vanishes_of_unfold (h : Unfold rules c d)
    (hNull : ((FirstSets.ofRules rules).firstOfContinuation d).2 = true) :
    ((FirstSets.ofRules rules).firstOfContinuation c).2 = true := by
  cases h with
  | @head segment e rest hExpands =>
    rw [firstOfContinuation_append_snd, Bool.and_eq_true] at hNull
    rw [firstOfContinuation_snd, Bool.and_eq_true]
    refine ⟨?_, hNull.2⟩
    cases hExpands with
    | nil => rfl
    | cons hp =>
      have hBoth := hNull.1
      rw [firstOfContinuation_append_snd, Bool.and_eq_true, snd_sequence] at hBoth
      rw [Segment.vanishes, FirstSets.nullableAll, Production.nullableAll, Bool.and_eq_true]
      exact ⟨nullable_of_expands_vanishing hp hBoth.1, hBoth.2⟩
    | stop => rfl
    | another => rfl
    | separated => rfl

theorem mem_firsts_of_expands (h : segment.Expands rules c)
    (hSolid : IsSolid rules [segment])
    (hFirst : token ∈ ((FirstSets.ofRules rules).firstOfContinuation c).1) :
    token ∈ segment.firsts (.ofRules rules) := by
  cases h with
  | nil | stop => exact absurd hFirst TokenSet.not_mem_empty
  | @cons p ps c hp =>
    have hSelf : p.IsSolid (.ofRules rules) := by
      refine hSolid _ List.mem_cons_self p (List.mem_append_left _ ?_)
      cases p <;> exact List.mem_cons_self
    rw [mem_firstOfContinuation_append, mem_sequence] at hFirst
    rw [Segment.firsts, FirstSets.firstOf, Production.firstOf]
    rcases hFirst with hFirst | ⟨hNull, hFirst⟩
    · have hMem := mem_first_of_expands hp hSelf hFirst
      split
      · exact TokenSet.mem_union.mpr (.inr hMem)
      · exact hMem
    · rw [if_pos (nullable_of_expands_vanishing hp hNull)]
      exact TokenSet.mem_union.mpr (.inl hFirst)
  | another =>
    rw [mem_firstOfContinuation, mem_firstOfContinuation] at hFirst
    rcases hFirst with hFirst | ⟨-, hFirst | ⟨-, hFirst⟩⟩
    · exact hFirst
    · exact hFirst
    · exact absurd hFirst TokenSet.not_mem_empty
  | separated =>
    rw [mem_firstOfContinuation] at hFirst
    simpa [Segment.firsts, Segment.vanishes] using hFirst

theorem mem_first_of_unfold (h : Unfold rules c d) (hSolid : IsSolid rules c)
    (hFirst : token ∈ ((FirstSets.ofRules rules).firstOfContinuation d).1) :
    token ∈ ((FirstSets.ofRules rules).firstOfContinuation c).1 := by
  cases h with
  | @head segment e rest hExpands =>
    rw [mem_firstOfContinuation_append] at hFirst
    rw [mem_firstOfContinuation]
    rcases hFirst with hFirst | ⟨hNull, hFirst⟩
    · refine .inl (mem_firsts_of_expands hExpands (fun other hOther => ?_) hFirst)
      exact hSolid other (List.mem_singleton.mp hOther ▸ List.mem_cons_self)
    · have hUnfold : Unfold rules [segment] (e ++ []) := .head hExpands
      have hVanish := vanishes_of_unfold hUnfold (by rwa [List.append_nil])
      rw [firstOfContinuation_snd, Bool.and_eq_true] at hVanish
      exact .inr ⟨hVanish.1, hFirst⟩

theorem Nullable.vanishes (h : Nullable rules c) :
    ((FirstSets.ofRules rules).firstOfContinuation c).2 = true := by
  induction h using Relation.ReflTransGen.head_induction_on with
  | refl => rfl
  | head hStep _ ih => exact vanishes_of_unfold hStep ih

theorem First.mem (hRules : AreSolid rules) (hSolid : IsSolid rules c)
    (h : First rules c token) :
    token ∈ ((FirstSets.ofRules rules).firstOfContinuation c).1 := by
  obtain ⟨rest, hRest⟩ := h
  induction hRest using Relation.ReflTransGen.head_induction_on with
  | refl => exact mem_firstOfContinuation.mpr (.inl (TokenSet.mem_insert.mpr (.inl rfl)))
  | head hStep _ ih => exact mem_first_of_unfold hStep hSolid (ih (hRules.unfold hStep hSolid))

theorem BeginsWith.mem_follow {v : Vocabulary} {kind : TypeId} (hRules : AreSolid rules)
    (hSolid : IsSolid rules c) (h : BeginsWith rules v c kind) :
    kind ∈ (FirstSets.ofRules rules).follow v c := by
  obtain ⟨token, hFirst, hMatch⟩ := h
  exact TokenSet.mem_withSubtypes.mpr ⟨token, hFirst.mem hRules hSolid, hMatch⟩

end Closed

end PredictiveParsing
