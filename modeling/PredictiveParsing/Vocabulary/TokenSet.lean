import PredictiveParsing.Vocabulary.Basic

/-!
# Sets of token types

A set is the ascending list of its ids, so equal sets are equal lists.
-/

namespace PredictiveParsing

structure TokenSet where
  toList : List TypeId
  ascending : toList.Pairwise (· < ·) := by simp
deriving DecidableEq

namespace TokenSet

def empty : TokenSet where
  toList := []

instance : Inhabited TokenSet := ⟨empty⟩

def contains (s : TokenSet) (id : TypeId) : Bool := s.toList.contains id

instance : Membership TypeId TokenSet := ⟨fun s id => id ∈ s.toList⟩

theorem contains_iff {s : TokenSet} {id : TypeId} : s.contains id = true ↔ id ∈ s := by
  simp [contains, Membership.mem]

def isEmpty (s : TokenSet) : Bool := s.toList.isEmpty

def insertInto (id : TypeId) : List TypeId → List TypeId
  | [] => [id]
  | x :: xs => if id < x then id :: x :: xs else if id = x then x :: xs else x :: insertInto id xs

theorem mem_insertInto {id a : TypeId} {xs : List TypeId} :
    a ∈ insertInto id xs ↔ a = id ∨ a ∈ xs := by
  induction xs with
  | nil => simp [insertInto]
  | cons x xs ih =>
    simp only [insertInto]
    split
    · simp
    · split
      · rename_i h
        subst h
        simp
      · simp only [List.mem_cons, ih]
        constructor
        · rintro (h | h | h) <;> simp [h]
        · rintro (h | h | h) <;> simp [h]

theorem pairwise_insertInto {id : TypeId} {xs : List TypeId} (h : xs.Pairwise (· < ·)) :
    (insertInto id xs).Pairwise (· < ·) := by
  induction xs with
  | nil => simp [insertInto]
  | cons x xs ih =>
    obtain ⟨hx, hxs⟩ := List.pairwise_cons.1 h
    simp only [insertInto]
    split
    · rename_i hlt
      refine List.pairwise_cons.2 ⟨fun a ha => ?_, h⟩
      rcases List.mem_cons.1 ha with rfl | ha
      · exact hlt
      · exact Nat.lt_trans hlt (hx a ha)
    · split
      · exact h
      · rename_i hnlt hne
        refine List.pairwise_cons.2 ⟨fun a ha => ?_, ih hxs⟩
        rcases mem_insertInto.1 ha with rfl | ha
        · exact Nat.lt_of_le_of_ne (Nat.le_of_not_lt hnlt) (Ne.symm hne)
        · exact hx a ha

def insert (s : TokenSet) (id : TypeId) : TokenSet where
  toList := insertInto id s.toList
  ascending := pairwise_insertInto s.ascending

@[simp] theorem mem_insert {s : TokenSet} {id a : TypeId} : a ∈ s.insert id ↔ a = id ∨ a ∈ s :=
  mem_insertInto

theorem not_mem_empty {a : TypeId} : ¬ a ∈ empty := by
  show ¬ a ∈ ([] : List TypeId)
  simp

def insertAll (s : TokenSet) (ids : List TypeId) : TokenSet := ids.foldl insert s

@[simp] theorem mem_insertAll {s : TokenSet} {ids : List TypeId} {a : TypeId} :
    a ∈ s.insertAll ids ↔ a ∈ ids ∨ a ∈ s := by
  induction ids generalizing s with
  | nil => simp [insertAll]
  | cons i ids ih =>
    rw [show s.insertAll (i :: ids) = (s.insert i).insertAll ids from rfl, ih]
    simp only [mem_insert, List.mem_cons]
    constructor
    · rintro (h | h | h) <;> simp [h]
    · rintro ((h | h) | h) <;> simp [h]

def ofList (ids : List TypeId) : TokenSet := empty.insertAll ids

def union (s t : TokenSet) : TokenSet := s.insertAll t.toList

@[simp] theorem mem_union {s t : TokenSet} {a : TypeId} : a ∈ s.union t ↔ a ∈ t ∨ a ∈ s :=
  mem_insertAll

/-- Adds every type that matches a member, so that membership answers for actual tokens. -/
def withSubtypes (s : TokenSet) (v : Vocabulary) : TokenSet :=
  s.insertAll (s.toList.flatMap v.subtypes)

def names (s : TokenSet) (v : Vocabulary) : List String := s.toList.map v.name

end TokenSet

end PredictiveParsing
