import Mathlib.Data.List.Nodup
import PredictiveParsing.Proofs.Lexer.Dispatch

/-!
# What the buckets of a dispatch table hold

The candidates of a character are, in the order of the list, the types that can begin with some
character of the same bucket. The end of a list of candidates tells whether a type is in it already,
since the types of a table are distinct.
-/

namespace PredictiveParsing

namespace FirstChars

/-- No range ends in front of its first character. -/
def IsOrdered : FirstChars → Prop
  | .among set => ∀ r ∈ set, r.first ≤ r.last
  | .any => True

def BeginsIn (b : Nat) : FirstChars → Prop
  | .among set => ∃ c, set.contains c = true ∧ DispatchTable.bucket c = b
  | .any => True

def reaches (b : Nat) : FirstChars → Bool
  | .among set => DispatchTable.reaches set b
  | .any => true

end FirstChars

namespace DispatchTable

variable {types : List (TypeId × FirstChars)} {first : FirstChars} {set : CharSet} {c : Char}
  {b : Nat}

theorem size_build (types : List (TypeId × FirstChars)) :
    (build types).buckets.size = bucketCount := by
  rw [build, Array.size_map, Array.size_range]

theorem lt_bucketCount_of_reaches (h : reaches set b = true) : b < bucketCount := by
  obtain ⟨r, -, hIn⟩ := List.any_eq_true.mp h
  rw [Bool.and_eq_true, decide_eq_true_eq, decide_eq_true_eq] at hIn
  exact Nat.lt_of_le_of_lt hIn.2 (bucket_lt_bucketCount r.last)

/-- A range whose buckets include the one of a character has a character in it: that one, or the end
of the range that is next to it. -/
theorem exists_bucket_eq {r : CharRange} (hOrdered : r.first ≤ r.last)
    (hFirst : bucket r.first ≤ bucket c) (hLast : bucket c ≤ bucket r.last) :
    ∃ d, r.contains d = true ∧ bucket d = bucket c := by
  rcases Std.le_total (a := r.first) (b := c) with hAbove | hBelow
  · rcases Std.le_total (a := c) (b := r.last) with hInside | hBehind
    · exact ⟨c, CharRange.contains_iff.mpr ⟨hAbove, hInside⟩, rfl⟩
    · exact ⟨r.last, CharRange.contains_iff.mpr ⟨hOrdered, Std.le_refl _⟩,
        Nat.le_antisymm (bucket_mono hBehind) hLast⟩
  · exact ⟨r.first, CharRange.contains_iff.mpr ⟨Std.le_refl _, hOrdered⟩,
      Nat.le_antisymm hFirst (bucket_mono hBelow)⟩

theorem reaches_of_beginsIn (h : first.BeginsIn (bucket c)) : first.reaches (bucket c) = true := by
  cases first with
  | any => rfl
  | among set =>
    obtain ⟨d, hd, hBucket⟩ := h
    exact hBucket ▸ reaches_bucket hd

theorem beginsIn_of_reaches (hOrdered : first.IsOrdered) (h : first.reaches (bucket c) = true) :
    first.BeginsIn (bucket c) := by
  cases first with
  | any => trivial
  | among set =>
    obtain ⟨r, hr, hIn⟩ := List.any_eq_true.mp h
    rw [Bool.and_eq_true, decide_eq_true_eq, decide_eq_true_eq] at hIn
    obtain ⟨d, hd, hBucket⟩ := exists_bucket_eq (hOrdered r hr) hIn.1 hIn.2
    exact ⟨d, List.any_eq_true.mpr ⟨r, hr, hd⟩, hBucket⟩

theorem foldl_of_nodup {step : List TypeId → TypeId × FirstChars → List TypeId}
    {p : TypeId × FirstChars → Bool}
    (hStep : ∀ found e, e.1 ∉ found → step found e = if p e then found ++ [e.1] else found)
    (hDistinct : (types.map Prod.fst).Nodup) {found : List TypeId}
    (hNew : ∀ e ∈ types, e.1 ∉ found) :
    types.foldl step found = found ++ (types.filter p).map Prod.fst := by
  induction types generalizing found with
  | nil => rw [List.foldl_nil, List.filter_nil, List.map_nil, List.append_nil]
  | cons e types ih =>
    rw [List.map_cons, List.nodup_cons] at hDistinct
    obtain ⟨hFirst, hRest⟩ := List.forall_mem_cons.mp hNew
    rw [List.foldl_cons, hStep found e hFirst]
    cases hp : p e with
    | false =>
      rw [if_neg Bool.false_ne_true, ih hDistinct.2 hRest, List.filter_cons_of_neg (by simp [hp])]
    | true =>
      have hApart : ∀ e' ∈ types, e'.1 ∉ found ++ [e.1] := by
        intro e' he' hMem
        rcases List.mem_append.mp hMem with hOld | hSame
        · exact hRest e' he' hOld
        · rw [← List.mem_singleton.mp hSame] at hDistinct
          exact hDistinct.1 (List.mem_map_of_mem he')
      rw [if_pos rfl, ih hDistinct.2 hApart, List.filter_cons_of_pos hp, List.map_cons,
        List.append_assoc, List.singleton_append]

theorem candidatesIn_eq (hDistinct : (types.map Prod.fst).Nodup) (b : Nat) :
    candidatesIn types b = (types.filter (·.2.reaches b)).map Prod.fst := by
  rw [candidatesIn]
  refine (foldl_of_nodup (p := (·.2.reaches b)) ?_ hDistinct fun _ _ => List.not_mem_nil).trans ?_
  · rintro found ⟨id, first⟩ hNew
    cases first with
    | any => rfl
    | among set =>
      have hLast : (found.getLast? != some id) = true :=
        bne_iff_ne.mpr fun hLast => hNew (List.mem_of_getLast? hLast)
      simp only [hLast, Bool.and_true]
      rfl
  · exact List.nil_append _

theorem mem_candidates_iff (hDistinct : (types.map Prod.fst).Nodup) {id : TypeId}
    (hMem : (id, first) ∈ types) :
    id ∈ (build types).candidates c ↔ first.reaches (bucket c) = true := by
  rw [candidates_build, candidatesIn_eq hDistinct, List.mem_map]
  constructor
  · rintro ⟨e, hFound, hId⟩
    obtain ⟨hMem', hReached⟩ := List.mem_filter.mp hFound
    obtain rfl : e = (id, first) := List.inj_on_of_nodup_map hDistinct hMem' hMem hId
    exact hReached
  · intro hReached
    exact ⟨(id, first), List.mem_filter.mpr ⟨hMem, hReached⟩, rfl⟩

/-- The candidates of a character are, without a repetition and in the order of the list, the types
of which nothing is known or that can begin with a character of its bucket. All buckets that come
into it are in the table. -/
theorem candidates_exact (hDistinct : (types.map Prod.fst).Nodup) (c : Char) :
    ((build types).candidates c).Nodup ∧
      ((build types).candidates c).Sublist (types.map Prod.fst) ∧
      (∀ id first, (id, first) ∈ types →
        (first.BeginsIn (bucket c) → id ∈ (build types).candidates c) ∧
          (first.IsOrdered → id ∈ (build types).candidates c → first.BeginsIn (bucket c))) ∧
      bucket c < (build types).buckets.size ∧
      ∀ id set, (id, .among set) ∈ types → ∀ b, reaches set b = true →
        b < (build types).buckets.size := by
  have hSublist : ((build types).candidates c).Sublist (types.map Prod.fst) := by
    rw [candidates_build, candidatesIn_eq hDistinct]
    exact List.filter_sublist.map _
  rw [size_build]
  refine ⟨hSublist.nodup hDistinct, hSublist, fun id first hMem => ?_, bucket_lt_bucketCount c,
    fun _ _ _ _ => lt_bucketCount_of_reaches⟩
  rw [mem_candidates_iff hDistinct hMem]
  exact ⟨reaches_of_beginsIn, beginsIn_of_reaches⟩

/-- Ranges that overlap, out of order, across the gap of the surrogates, and a type that can begin
with anything. -/
def mixed : List (TypeId × FirstChars) :=
  [ (1, .among [⟨'b', 'd'⟩, ⟨'a', 'b'⟩]), (2, .among [⟨'x', '\ue000'⟩, ⟨'z', '\u0500'⟩]), (3, .any),
    (4, .among [⟨'\u0400', '\u0401'⟩]) ]

theorem candidates_exact_mixed : (mixed.map Prod.fst).Nodup ∧
    ((build mixed).candidates '\u07ff').Nodup ∧
    ((build mixed).candidates '\u07ff').Sublist [1, 2, 3, 4] ∧
    4 ∈ (build mixed).candidates '\u07ff' ∧ 1 ∉ (build mixed).candidates '\u07ff' := by
  have hDistinct : (mixed.map Prod.fst).Nodup := by decide
  obtain ⟨hNodup, hSublist, hExact, -, -⟩ := candidates_exact hDistinct '\u07ff'
  have hLast := hExact 4 (.among [⟨'\u0400', '\u0401'⟩]) (by decide)
  have hFirst := hExact 1 (.among [⟨'b', 'd'⟩, ⟨'a', 'b'⟩]) (by decide)
  refine ⟨hDistinct, hNodup, hSublist, hLast.1 ⟨'\u0400', by decide, by decide⟩, fun hMem => ?_⟩
  have hReached := reaches_of_beginsIn (hFirst.2 (by decide : ∀ r ∈ _, _) hMem)
  revert hReached
  decide

end DispatchTable

end PredictiveParsing
