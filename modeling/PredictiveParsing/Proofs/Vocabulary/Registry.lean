import Mathlib.Data.List.Dedup
import Mathlib.Data.List.Sort
import PredictiveParsing.Proofs.Vocabulary.Matching

/-!
# Registering types one by one

The lists of a vocabulary as they are kept while types are registered: in ascending order the types
that each type matches, and for each type those that match it, to which a new type is added for all
that it matches. They are the lists that the finished vocabulary answers with.
-/

namespace PredictiveParsing

namespace Vocabulary

variable {v : Vocabulary} {type : TokenType} {id c : TypeId}

def inherited (v : Vocabulary) (type : TokenType) : List TypeId :=
  v.ids.filter fun id =>
    (type.categories.filter v.isRegistered).any fun category => (v.matching category).contains id

theorem mem_inherited : c ∈ v.inherited type ↔
    c < v.size ∧ ∃ category ∈ type.categories, category < v.size ∧ c ∈ v.matching category := by
  simp only [inherited, ids, isRegistered, List.mem_filter, List.mem_range, List.any_eq_true,
    decide_eq_true_eq, List.contains_iff_mem, and_assoc]

theorem matching_define : (v.define type).matching id =
    if id = v.size then v.inherited type ++ [v.size] else v.matching id := by
  have hSize : v.entries.size = v.size := rfl
  rw [matching, define, Array.getElem?_push, hSize]
  by_cases h : id = v.size
  · rw [if_pos h, if_pos h]
    rfl
  · rw [if_neg h, if_neg h]
    rfl

theorem pairwise_inherited : (v.inherited type ++ [v.size]).Pairwise (· < ·) := by
  refine List.pairwise_append.mpr ⟨List.pairwise_lt_range.filter _, List.pairwise_singleton _ _, ?_⟩
  intro c hc id hId
  rw [List.mem_singleton.mp hId]
  exact (mem_inherited.mp hc).1

theorem subtypes_define : (v.define type).subtypes c =
    v.subtypes c ++ if c ∈ v.inherited type then [v.size] else [] := by
  have hOld : (List.range v.size).filter (fun id => id != c &&
      ((v.define type).matching id).contains c) = v.subtypes c := by
    refine List.filter_congr fun id hId => ?_
    rw [matching_define, if_neg (Nat.ne_of_lt (List.mem_range.mp hId))]
  have hNew : (v.size != c && ((v.define type).matching v.size).contains c) =
      decide (c ∈ v.inherited type) := by
    rw [matching_define, if_pos rfl, Bool.eq_iff_iff, Bool.and_eq_true, bne_iff_ne,
      List.contains_iff_mem, List.mem_append, List.mem_singleton, decide_eq_true_iff]
    constructor
    · rintro ⟨hOther, hMem⟩
      exact hMem.resolve_right fun hSame => hOther hSame.symm
    · exact fun hMem => ⟨Nat.ne_of_gt (mem_inherited.mp hMem).1, .inl hMem⟩
  rw [subtypes, ids, size_define, List.range_succ, List.filter_append, hOld]
  by_cases h : c ∈ v.inherited type
  · rw [List.filter_singleton, hNew, if_pos h, decide_eq_true h]
    rfl
  · rw [List.filter_singleton, hNew, if_neg h, decide_eq_false h]
    rfl

end Vocabulary

/-- The number of types, and for each type those that it matches and those that match it. -/
structure Registry where
  size : Nat
  matching : TypeId → List TypeId
  subtypes : TypeId → List TypeId

namespace Registry

def enroll (id : TypeId) (matching : List TypeId) (subtypes : TypeId → List TypeId) :
    TypeId → List TypeId :=
  matching.foldl (fun subtypes c =>
    if c = id then subtypes else Function.update subtypes c (subtypes c ++ [id])) subtypes

def matched (r : Registry) (type : TokenType) : List TypeId :=
  ((type.categories.filter (· < r.size)).flatMap r.matching ++ [r.size]).mergeSort (· ≤ ·) |>.dedup

def define (r : Registry) (type : TokenType) : Registry :=
  { size := r.size + 1
    matching := Function.update r.matching r.size (r.matched type)
    subtypes := enroll r.size (r.matched type) r.subtypes }

def empty : Registry := define ⟨0, fun _ => [], fun _ => []⟩ (.category "EOF")

def ofTypes (types : List TokenType) : Registry := types.foldl define empty

variable {r : Registry} {v : Vocabulary} {type : TokenType} {id c : TypeId} {matching : List TypeId}
  {subtypes : TypeId → List TypeId}

theorem enroll_apply (h : matching.Nodup) : enroll id matching subtypes c =
    subtypes c ++ if c ∈ matching ∧ c ≠ id then [id] else [] := by
  induction matching generalizing subtypes with
  | nil => simp [enroll]
  | cons d matching ih =>
    obtain ⟨hNew, hRest⟩ := List.nodup_cons.mp h
    rw [enroll, List.foldl_cons, ← enroll, ih hRest]
    by_cases hd : d = id
    · subst hd
      rw [if_pos rfl]
      refine congrArg _ (if_congr ?_ rfl rfl)
      rw [List.mem_cons, and_congr_left_iff]
      exact fun hc => (or_iff_right hc).symm
    · rw [if_neg hd]
      by_cases hc : c = d
      · subst hc
        rw [Function.update_self, if_neg fun h => hNew h.1, List.append_nil,
          if_pos ⟨List.mem_cons_self, hd⟩]
      · rw [Function.update_of_ne hc]
        refine congrArg _ (if_congr ?_ rfl rfl)
        rw [List.mem_cons, or_iff_right hc]

/-- The lists are those of a vocabulary, in which they are in ascending order. -/
structure Agrees (r : Registry) (v : Vocabulary) : Prop where
  size : r.size = v.size
  matching : ∀ id, r.matching id = v.matching id
  subtypes : ∀ id, r.subtypes id = v.subtypes id
  ascending : ∀ id, (v.matching id).Pairwise (· < ·)
  registered : ∀ id, ∀ c ∈ v.matching id, c < v.size

theorem Agrees.matched_eq (h : Agrees r v) (type : TokenType) :
    r.matched type = v.inherited type ++ [v.size] := by
  have hSorted (ids : List TypeId) : (ids.mergeSort (· ≤ ·)).dedup.Pairwise (· < ·) := by
    have hLe : (ids.mergeSort (· ≤ ·)).Pairwise fun a b => decide (a ≤ b) = true :=
      List.pairwise_mergeSort (fun a b c => by simpa using Nat.le_trans)
        (fun a b => by simpa using Nat.le_total a b) ids
    have hBoth := (hLe.sublist (List.dedup_sublist _)).and (List.nodup_dedup _)
    exact hBoth.imp fun ⟨hLe, hNe⟩ => Nat.lt_of_le_of_ne (of_decide_eq_true hLe) hNe
  refine List.Pairwise.eq_of_mem_iff (hSorted _) Vocabulary.pairwise_inherited fun c => ?_
  rw [matched, List.mem_dedup, List.mem_mergeSort, List.mem_append, List.mem_append, h.size,
    Vocabulary.mem_inherited]
  refine or_congr_left ?_
  simp only [List.mem_flatMap, List.mem_filter, decide_eq_true_eq, h.matching, and_assoc]
  exact ⟨fun ⟨category, hMem, hLt, hc⟩ => ⟨h.registered _ _ hc, category, hMem, hLt, hc⟩, And.right⟩

theorem Agrees.define (h : Agrees r v) (type : TokenType) :
    Agrees (r.define type) (v.define type) := by
  constructor
  case size => rw [Registry.define, Vocabulary.size_define, h.size]
  case matching =>
    intro id
    rw [Registry.define, Vocabulary.matching_define]
    simp only [h.matched_eq, h.size]
    by_cases hId : id = v.size
    · rw [hId, Function.update_self, if_pos rfl]
    · rw [Function.update_of_ne hId, if_neg hId, h.matching]
  case subtypes =>
    intro c
    rw [Registry.define, Vocabulary.subtypes_define]
    simp only [h.matched_eq, h.size]
    have hNodup : (v.inherited type ++ [v.size]).Nodup :=
      Vocabulary.pairwise_inherited.imp Nat.ne_of_lt
    rw [enroll_apply hNodup, h.subtypes]
    refine congrArg _ (if_congr ?_ rfl rfl)
    rw [List.mem_append, List.mem_singleton]
    constructor
    · rintro ⟨hMem, hOther⟩
      exact hMem.resolve_right hOther
    · intro hMem
      exact ⟨.inl hMem, Nat.ne_of_lt (Vocabulary.mem_inherited.mp hMem).1⟩
  case ascending =>
    intro id
    rw [Vocabulary.matching_define]
    split
    · exact Vocabulary.pairwise_inherited
    · exact h.ascending id
  case registered =>
    intro id c hc
    rw [Vocabulary.size_define]
    rw [Vocabulary.matching_define] at hc
    split at hc
    · rcases List.mem_append.mp hc with hc | hc
      · exact Nat.lt_succ_of_lt (Vocabulary.mem_inherited.mp hc).1
      · exact Nat.lt_succ_of_le (Nat.le_of_eq (List.mem_singleton.mp hc))
    · exact Nat.lt_succ_of_lt (h.registered id c hc)

theorem agrees_nil : Agrees ⟨0, fun _ => [], fun _ => []⟩ ⟨#[]⟩ where
  size := rfl
  matching _ := rfl
  subtypes _ := rfl
  ascending _ := List.Pairwise.nil
  registered _ _ hc := by cases hc

theorem agrees_ofTypes (types : List TokenType) : Agrees (ofTypes types) (.ofTypes types) := by
  have hFold : ∀ (types : List TokenType) (r : Registry) (v : Vocabulary), Agrees r v →
      Agrees (types.foldl Registry.define r) (types.foldl Vocabulary.define v) := by
    intro types
    induction types with
    | nil => exact fun _ _ h => h
    | cons type types ih => exact fun _ _ h => ih _ _ (h.define type)
  exact hFold types _ _ (agrees_nil.define _)

end Registry

end PredictiveParsing
