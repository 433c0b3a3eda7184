import Mathlib.Data.List.Perm.Basic

/-!
# Members by their keys

A list put together anew from its members key by key is the list in another order, whatever the
order of the keys.
-/

namespace PredictiveParsing

variable {α κ : Type} [DecidableEq κ]

theorem nodup_eraseDups (xs : List κ) : xs.eraseDups.Nodup := by
  induction hLength : xs.length using Nat.strongRecOn generalizing xs with
  | ind n ih =>
    cases xs with
    | nil => simp
    | cons x xs =>
      rw [List.eraseDups_cons, List.nodup_cons, List.mem_eraseDups]
      refine ⟨by simp, ih _ ?_ _ rfl⟩
      rw [← hLength, List.length_cons]
      exact Nat.lt_succ_of_le (List.length_filter_le _ _)

theorem perm_flatMap_filter (f : α → κ) {keys : List κ} (hKeys : keys.Nodup) (xs : List α) :
    (keys.flatMap fun k => xs.filter fun x => f x = k).Perm (xs.filter fun x => f x ∈ keys) := by
  induction keys with
  | nil => simp
  | cons k keys ih =>
    obtain ⟨hNew, hKeys⟩ := List.nodup_cons.mp hKeys
    have hSplit := List.filter_append_perm (fun x => f x = k) (xs.filter fun x => f x ∈ k :: keys)
    have hFirst : (xs.filter fun x => f x ∈ k :: keys).filter (fun x => f x = k) =
        xs.filter fun x => f x = k := by
      rw [List.filter_filter]
      refine List.filter_congr fun x _ => ?_
      by_cases h : f x = k
      · simp [h]
      · simp [h]
    have hRest : (xs.filter fun x => f x ∈ k :: keys).filter (fun x => !decide (f x = k)) =
        xs.filter fun x => f x ∈ keys := by
      rw [List.filter_filter]
      refine List.filter_congr fun x _ => ?_
      by_cases h : f x = k
      · simp [h, hNew]
      · simp [h]
    rw [hFirst, hRest] at hSplit
    rw [List.flatMap_cons]
    exact (List.Perm.append_left _ (ih hKeys)).trans hSplit

end PredictiveParsing
