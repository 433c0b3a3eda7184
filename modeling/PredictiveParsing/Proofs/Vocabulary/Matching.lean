import Mathlib.Tactic.Common
import PredictiveParsing.Vocabulary.TokenSet

/-!
# Which types match

The members of a type are the types that match it. The end of the input is a type of its own: it
matches nothing but itself.
-/

namespace PredictiveParsing

namespace Vocabulary

variable {v : Vocabulary} {kind category : TypeId}

theorem isMatch_iff : v.isMatch kind category = true ↔ kind = category ∨ category ∈ v.matching kind := by
  simp [isMatch]

theorem isMatch_self : v.isMatch kind kind = true := isMatch_iff.mpr (.inl rfl)

theorem lt_size_of_mem_matching (h : category ∈ v.matching kind) : kind < v.size := by
  by_contra hOut
  have hNone : v.entries[kind]? = none := Array.getElem?_eq_none (Nat.le_of_not_lt hOut)
  simp [matching, hNone] at h

theorem mem_subtypes : kind ∈ v.subtypes category ↔ kind ≠ category ∧ category ∈ v.matching kind := by
  simp only [subtypes, ids, List.mem_filter, List.mem_range, Bool.and_eq_true, bne_iff_ne,
    List.contains_iff_mem]
  exact ⟨fun h => h.2, fun h => ⟨lt_size_of_mem_matching h.2, h⟩⟩

theorem mem_members : kind ∈ v.members category ↔ v.isMatch kind category = true := by
  rw [members, List.mem_cons, mem_subtypes, isMatch_iff]
  by_cases h : kind = category
  · simp [h]
  · simp [h]

theorem entries_define (type : TokenType) {id : TypeId} (h : id < v.size) :
    (v.define type).entries[id]? = v.entries[id]? := by
  rw [define]
  exact Array.getElem?_push_lt h ▸ (Array.getElem?_eq_getElem h).symm

theorem size_define (type : TokenType) : (v.define type).size = v.size + 1 := by
  simp [define, size]

theorem entries_foldl_define (types : List TokenType) {id : TypeId} (h : id < v.size) :
    (types.foldl define v).entries[id]? = v.entries[id]? := by
  induction types generalizing v with
  | nil => rfl
  | cons type types ih =>
    rw [List.foldl_cons, ih (size_define type ▸ Nat.lt_succ_of_lt h), entries_define type h]

theorem size_foldl_define (types : List TokenType) : v.size ≤ (types.foldl define v).size := by
  induction types generalizing v with
  | nil => exact Nat.le_refl _
  | cons type types ih =>
    have hMore := @ih (v.define type)
    rw [size_define] at hMore
    exact Nat.le_of_succ_le hMore

theorem isRegistered_eof (types : List TokenType) : (ofTypes types).isRegistered eof = true :=
  decide_eq_true (Nat.lt_of_lt_of_le (by decide : 0 < empty.size) (size_foldl_define types))

theorem matching_eof (types : List TokenType) : (ofTypes types).matching eof = [eof] := by
  have hEntry : (ofTypes types).entries[eof]? = empty.entries[eof]? :=
    entries_foldl_define types (by decide)
  rw [matching, hEntry]
  rfl

theorem eof_isMatch_iff (types : List TokenType) :
    (ofTypes types).isMatch eof category = true ↔ category = eof := by
  rw [isMatch_iff, matching_eof, List.mem_singleton, eq_comm, or_self]

end Vocabulary

namespace TokenSet

variable {v : Vocabulary} {s : TokenSet} {kind : TypeId}

theorem mem_withSubtypes :
    kind ∈ s.withSubtypes v ↔ ∃ token ∈ s, v.isMatch kind token = true := by
  simp only [withSubtypes, mem_insertAll, List.mem_flatMap, Vocabulary.mem_subtypes]
  constructor
  · rintro (⟨token, hToken, -, hMatch⟩ | h)
    · exact ⟨token, hToken, Vocabulary.isMatch_iff.mpr (.inr hMatch)⟩
    · exact ⟨kind, h, Vocabulary.isMatch_self⟩
  · rintro ⟨token, hToken, hMatch⟩
    by_cases hEq : kind = token
    · exact .inr (hEq ▸ hToken)
    · exact .inl ⟨token, hToken, hEq, (Vocabulary.isMatch_iff.mp hMatch).resolve_left hEq⟩

end TokenSet

end PredictiveParsing
