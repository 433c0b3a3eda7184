import Mathlib.Data.List.Induction
import Mathlib.Logic.Relation
import PredictiveParsing.Proofs.Vocabulary.Registry

/-!
# The closure of the categories

A definition can only name types that came before it, so the steps from a type to the categories it
names go down. A type matches exactly what these steps lead to, however the lists were put together.
-/

namespace PredictiveParsing

namespace Vocabulary

variable {v : Vocabulary} {types before : List TokenType} {type added : TokenType} {a b c e t id : TypeId}

/-- The definition that registers an id, and the types that are registered before it. -/
def Registers (types before : List TokenType) (type : TokenType) (id : TypeId) : Prop :=
  before ++ [type] <+: types ∧ id = (ofTypes before).size

/-- The definition of a type names a category that is registered at the time. -/
def StepsTo (types : List TokenType) (a c : TypeId) : Prop :=
  ∃ before type, Registers types before type a ∧ c ∈ type.categories ∧
    (ofTypes before).isRegistered c = true

theorem ofTypes_concat (types : List TokenType) (type : TokenType) :
    ofTypes (types ++ [type]) = (ofTypes types).define type := by
  simp [ofTypes]

theorem size_ofTypes (types : List TokenType) : (ofTypes types).size = types.length + 1 := by
  induction types using List.reverseRecOn with
  | nil => rfl
  | append_singleton types type ih =>
    rw [ofTypes_concat, size_define, ih, List.length_append, List.length_singleton]

theorem Registers.lt_size (h : Registers types before type id) : id < (ofTypes types).size := by
  obtain ⟨hPrefix, rfl⟩ := h
  have hLength := hPrefix.length_le
  rw [List.length_append, List.length_singleton] at hLength
  rw [size_ofTypes, size_ofTypes]
  exact Nat.succ_lt_succ hLength

theorem not_registers_nil : ¬ Registers [] before type id := by
  rintro ⟨hPrefix, -⟩
  exact List.append_ne_nil_of_right_ne_nil before (List.cons_ne_nil _ _) (List.prefix_nil.mp hPrefix)

theorem registers_concat : Registers (types ++ [added]) before type id ↔
    Registers types before type id ∨ before = types ∧ type = added ∧ id = (ofTypes types).size := by
  have hLast : before ++ [type] = types ++ [added] ↔ before = types ∧ type = added := by
    rw [← List.concat_eq_append, ← List.concat_eq_append, List.concat_inj]
  rw [Registers, Registers, List.prefix_concat_iff, or_and_right, or_comm, hLast, and_assoc]
  refine or_congr_right (and_congr_right fun hBefore => ?_)
  rw [hBefore]

theorem stepsTo_concat : StepsTo (types ++ [added]) a c ↔ StepsTo types a c ∨
    a = (ofTypes types).size ∧ c ∈ added.categories ∧ (ofTypes types).isRegistered c = true := by
  simp only [StepsTo, registers_concat]
  constructor
  · rintro ⟨before, type, hOld | ⟨rfl, rfl, rfl⟩, hNamed⟩
    · exact .inl ⟨before, type, hOld, hNamed⟩
    · exact .inr ⟨rfl, hNamed⟩
  · rintro (⟨before, type, hOld, hNamed⟩ | ⟨rfl, hNamed⟩)
    · exact ⟨before, type, .inl hOld, hNamed⟩
    · exact ⟨types, added, .inr ⟨rfl, rfl, rfl⟩, hNamed⟩

theorem StepsTo.lt (h : StepsTo types a c) : c < a := by
  obtain ⟨before, type, ⟨-, rfl⟩, -, hRegistered⟩ := h
  exact of_decide_eq_true hRegistered

theorem StepsTo.lt_size (h : StepsTo types a c) : a < (ofTypes types).size := by
  obtain ⟨before, type, hRegisters, -⟩ := h
  exact hRegisters.lt_size

theorem le_of_reaches (h : Relation.ReflTransGen (StepsTo types) a c) : c ≤ a := by
  induction h with
  | refl => exact Nat.le_refl a
  | tail _ hStep ih => exact (Nat.le_of_lt hStep.lt).trans ih

theorem reaches_concat (h : a < (ofTypes types).size) :
    Relation.ReflTransGen (StepsTo (types ++ [added])) a c ↔
      Relation.ReflTransGen (StepsTo types) a c := by
  constructor
  · intro hReaches
    induction hReaches with
    | refl => exact .refl
    | tail _ hStep ih =>
      rcases stepsTo_concat.mp hStep with hOld | ⟨rfl, -⟩
      · exact ih.tail hOld
      · exact absurd (le_of_reaches ih) (Nat.not_le_of_lt h)
  · exact Relation.ReflTransGen.mono (fun _ _ hStep => stepsTo_concat.mpr (.inl hStep)) a c

theorem reaches_concat_size :
    Relation.ReflTransGen (StepsTo (types ++ [added])) (ofTypes types).size c ↔
      c = (ofTypes types).size ∨ ∃ category ∈ added.categories, category < (ofTypes types).size ∧
        Relation.ReflTransGen (StepsTo types) category c := by
  rw [Relation.ReflTransGen.cases_head_iff, eq_comm]
  refine or_congr_right (exists_congr fun category => ?_)
  have hStep : StepsTo (types ++ [added]) (ofTypes types).size category ↔
      category ∈ added.categories ∧ category < (ofTypes types).size := by
    rw [stepsTo_concat, or_iff_right fun hOld => Nat.lt_irrefl _ hOld.lt_size]
    simp only [true_and, isRegistered, decide_eq_true_eq]
  rw [hStep, and_assoc]
  exact and_congr_right fun _ => and_congr_right fun hLt => reaches_concat hLt

theorem mem_matching_ofTypes : c ∈ (ofTypes types).matching a ↔
    a < (ofTypes types).size ∧ Relation.ReflTransGen (StepsTo types) a c := by
  induction types using List.reverseRecOn generalizing a c with
  | nil =>
    have hReaches : Relation.ReflTransGen (StepsTo []) a c ↔ c = a := by
      constructor
      · intro h
        rcases h.cases_head with hSame | ⟨category, ⟨before, type, hRegisters, -⟩, -⟩
        · exact hSame.symm
        · exact absurd hRegisters not_registers_nil
      · rintro rfl
        exact .refl
    rw [hReaches, size_ofTypes, List.length_nil, Nat.lt_one_iff]
    constructor
    · intro hMem
      obtain rfl : a = eof := Nat.lt_one_iff.mp (lt_size_of_mem_matching hMem)
      exact ⟨rfl, List.mem_singleton.mp (matching_eof [] ▸ hMem)⟩
    · rintro ⟨rfl, rfl⟩
      rw [← eof, matching_eof]
      exact List.mem_singleton_self eof
  | append_singleton types added ih =>
    rw [ofTypes_concat, matching_define, size_define]
    split
    case isTrue hNew =>
      subst hNew
      rw [reaches_concat_size, and_iff_right (Nat.lt_succ_self _), List.mem_append,
        List.mem_singleton, mem_inherited, or_comm]
      refine or_congr_right ?_
      constructor
      · rintro ⟨-, category, hNamed, hLt, hMatch⟩
        exact ⟨category, hNamed, hLt, (ih.mp hMatch).2⟩
      · rintro ⟨category, hNamed, hLt, hReaches⟩
        exact ⟨(le_of_reaches hReaches).trans_lt hLt, category, hNamed, hLt, ih.mpr ⟨hLt, hReaches⟩⟩
    case isFalse hOld =>
      rw [ih]
      constructor
      · rintro ⟨hLt, hReaches⟩
        exact ⟨Nat.lt_succ_of_lt hLt, (reaches_concat hLt).mpr hReaches⟩
      · rintro ⟨hLe, hReaches⟩
        have hLt := Nat.lt_of_le_of_ne (Nat.le_of_lt_succ hLe) hOld
        exact ⟨hLt, (reaches_concat hLt).mp hReaches⟩

theorem isMatch_ofTypes :
    (ofTypes types).isMatch a e = true ↔ Relation.ReflTransGen (StepsTo types) a e := by
  rw [isMatch_iff, mem_matching_ofTypes]
  constructor
  · rintro (rfl | ⟨-, hReaches⟩)
    · exact .refl
    · exact hReaches
  · intro hReaches
    rcases hReaches.cases_head with hSame | ⟨category, hStep, -⟩
    · exact .inl hSame
    · exact .inr ⟨hStep.lt_size, hReaches⟩

/-- Two types that match each other are one, since the steps go down. -/
theorem isMatch_antisymm : (ofTypes types).isMatch a e = true ∧ (ofTypes types).isMatch e a = true ↔
    a = e := by
  rw [isMatch_ofTypes, isMatch_ofTypes]
  constructor
  · exact fun ⟨hDown, hUp⟩ => Nat.le_antisymm (le_of_reaches hUp) (le_of_reaches hDown)
  · rintro rfl
    exact ⟨.refl, .refl⟩

theorem mem_dangling : t ∈ v.dangling ↔ ∃ entry, v.entries[t]? = some entry ∧ entry.dangling = true := by
  rw [dangling, List.mem_filter, ids, List.mem_range]
  constructor
  · rintro ⟨-, hDangling⟩
    cases hEntry : v.entries[t]? with
    | none => simp [hEntry] at hDangling
    | some entry => exact ⟨entry, rfl, by simpa [hEntry] using hDangling⟩
  · rintro ⟨entry, hEntry, hDangling⟩
    exact ⟨(Array.getElem?_eq_some_iff.mp hEntry).1, by simpa [hEntry] using hDangling⟩

theorem mem_dangling_define : t ∈ (v.define type).dangling ↔ t ∈ v.dangling ∨
    t = v.size ∧ ∃ id ∈ type.categories ++ type.longer, v.isRegistered id = false := by
  have hDropped : ((type.categories.filter v.isRegistered).length +
      (type.longer.filter v.isRegistered).length != type.categories.length + type.longer.length) = true ↔
      ∃ id ∈ type.categories ++ type.longer, v.isRegistered id = false := by
    rw [← List.length_append, ← List.length_append, ← List.filter_append, bne_iff_ne, ne_eq,
      List.length_filter_eq_length_iff]
    simp only [not_forall, Bool.not_eq_true, exists_prop]
  rw [mem_dangling, mem_dangling, ← hDropped, define, Array.getElem?_push]
  change (∃ entry, (if t = v.size then _ else v.entries[t]?) = some entry ∧ _) ↔ _
  split
  case isTrue hNew =>
    subst hNew
    have hNone : v.entries[v.size]? = none := Array.getElem?_eq_none (Nat.le_refl _)
    simp [hNone]
  case isFalse hOld => simp [hOld]

theorem mem_dangling_ofTypes : t ∈ (ofTypes types).dangling ↔ ∃ before type,
    Registers types before type t ∧
      ∃ id ∈ type.categories ++ type.longer, (ofTypes before).isRegistered id = false := by
  induction types using List.reverseRecOn with
  | nil =>
    have hNone : (ofTypes []).dangling = [] := rfl
    rw [hNone]
    refine iff_of_false List.not_mem_nil ?_
    rintro ⟨before, type, hRegisters, -⟩
    exact not_registers_nil hRegisters
  | append_singleton types added ih =>
    rw [ofTypes_concat, mem_dangling_define, ih]
    simp only [registers_concat]
    constructor
    · rintro (⟨before, type, hOld, hNamed⟩ | ⟨hNew, hNamed⟩)
      · exact ⟨before, type, .inl hOld, hNamed⟩
      · exact ⟨types, added, .inr ⟨rfl, rfl, hNew⟩, hNamed⟩
    · rintro ⟨before, type, hOld | ⟨rfl, rfl, hNew⟩, hNamed⟩
      · exact .inl ⟨before, type, hOld, hNamed⟩
      · exact .inr ⟨hNew, hNamed⟩

/-- The categories of a vocabulary, its subtypes and its dangling references are those of the
definitions, and the lists that are kept up with each definition hold them in ascending order. -/
theorem closure_ofTypes (types : List TokenType) :
    (∀ a e, (ofTypes types).isMatch a e = true ↔ Relation.ReflTransGen (StepsTo types) a e) ∧
    (∀ c, ((ofTypes types).subtypes c).Pairwise (· < ·) ∧ ∀ t, t ∈ (ofTypes types).subtypes c ↔
      t < (ofTypes types).size ∧ t ≠ c ∧ (ofTypes types).isMatch t c = true) ∧
    (∀ a e, (ofTypes types).isMatch a e = true ∧ (ofTypes types).isMatch e a = true ↔ a = e) ∧
    (∀ t, t ∈ (ofTypes types).dangling ↔ ∃ before type, Registers types before type t ∧
      ∃ id ∈ type.categories ++ type.longer, (ofTypes before).isRegistered id = false) ∧
    ∀ id, (Registry.ofTypes types).matching id = (ofTypes types).matching id ∧
      ((ofTypes types).matching id).Pairwise (· < ·) ∧
      (Registry.ofTypes types).subtypes id = (ofTypes types).subtypes id := by
  have hAgrees := Registry.agrees_ofTypes types
  refine ⟨fun _ _ => isMatch_ofTypes, fun c => ⟨?_, fun t => ?_⟩, fun _ _ => isMatch_antisymm,
    fun _ => mem_dangling_ofTypes, fun id => ⟨hAgrees.matching id, hAgrees.ascending id,
      hAgrees.subtypes id⟩⟩
  · exact List.pairwise_lt_range.filter _
  · rw [mem_subtypes, isMatch_iff]
    constructor
    · exact fun ⟨hOther, hMem⟩ => ⟨lt_size_of_mem_matching hMem, hOther, .inr hMem⟩
    · exact fun ⟨_, hOther, hMatch⟩ => ⟨hOther, hMatch.resolve_left hOther⟩

/-- Two ways lead to the first type, one category is named twice, and one is not there yet. -/
example : let v := ofTypes [.category "Word", (TokenType.category "Noun").inCategory 1,
      (TokenType.category "Verb").inCategory 1,
      ((((TokenType.literal "Walk" "walk").inCategory 3).inCategory 2).inCategory 3).inCategory 9]
    v.matching 4 = [1, 2, 3, 4] ∧ v.subtypes 1 = [2, 3, 4] ∧ v.dangling = [4] := by
  decide

end Vocabulary

end PredictiveParsing
