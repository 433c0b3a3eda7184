import Mathlib.Data.List.Forall2

/-!
# Traversals that can fail

What a list is made of that a partial function made from another list, and when it makes one.
-/

namespace PredictiveParsing

variable {β γ : Type} {f : β → Option γ} {xs : List β} {ys : List γ}

theorem exists_mapM {Q : γ → Prop} (h : ∀ x ∈ xs, ∃ y, f x = some y ∧ Q y) :
    ∃ ys, xs.mapM f = some ys ∧ ∀ y ∈ ys, Q y := by
  induction xs with
  | nil => exact ⟨[], rfl, List.forall_mem_nil _⟩
  | cons x xs ih =>
    obtain ⟨⟨y, hy, hFirst⟩, hRest⟩ := List.forall_mem_cons.mp h
    obtain ⟨ys, hys, hMore⟩ := ih hRest
    exact ⟨y :: ys, by rw [List.mapM_cons, hy, hys]; rfl, List.forall_mem_cons.mpr ⟨hFirst, hMore⟩⟩

theorem exists_bind_mapM {δ : Type} {last : List γ → Option δ} (h : ∀ x ∈ xs, ∃ y, f x = some y)
    (hLast : ∀ ys, ∃ z, last ys = some z) : ∃ z, xs.mapM f >>= last = some z := by
  obtain ⟨ys, hys, -⟩ : ∃ ys, xs.mapM f = some ys ∧ ∀ y ∈ ys, True :=
    exists_mapM fun x hx => (h x hx).imp fun _ hy => ⟨hy, trivial⟩
  obtain ⟨z, hz⟩ := hLast ys
  exact ⟨z, Option.bind_eq_some_iff.mpr ⟨ys, hys, hz⟩⟩

theorem mapM_congr {f' : β → Option γ} (h : ∀ x ∈ xs, f x = f' x) : xs.mapM f = xs.mapM f' := by
  induction xs with
  | nil => rfl
  | cons x xs ih =>
    obtain ⟨hFirst, hRest⟩ := List.forall_mem_cons.mp h
    rw [List.mapM_cons, List.mapM_cons, hFirst, ih hRest]

theorem mapM_map {δ ε : Type} {f' : δ → Option ε} {change : β → δ} {change' : γ → ε}
    (h : ∀ x, f' (change x) = (f x).map change') :
    (xs.map change).mapM f' = (xs.mapM f).map (List.map change') := by
  induction xs with
  | nil => rfl
  | cons x xs ih =>
    rw [List.map_cons, List.mapM_cons, List.mapM_cons, h, ih]
    cases f x with
    | none => rfl
    | some y =>
      cases xs.mapM f with
      | none => rfl
      | some ys => rfl

theorem foldlM_map {δ ε : Type} {step : γ → β → Option γ} {step' : ε → δ → Option ε}
    {change : β → δ} {change' : γ → ε}
    (h : ∀ y x, step' (change' y) (change x) = (step y x).map change') (start : γ) :
    (xs.map change).foldlM step' (change' start) = (xs.foldlM step start).map change' := by
  induction xs generalizing start with
  | nil => rfl
  | cons x xs ih =>
    rw [List.map_cons, List.foldlM_cons, List.foldlM_cons, h]
    cases step start x with
    | none => rfl
    | some y => exact ih y

theorem foldlM_congr {step step' : γ → β → Option γ} (start : γ)
    (h : ∀ y, ∀ x ∈ xs, step y x = step' y x) : xs.foldlM step start = xs.foldlM step' start := by
  induction xs generalizing start with
  | nil => rfl
  | cons x xs ih =>
    rw [List.foldlM_cons, List.foldlM_cons, h start x List.mem_cons_self]
    exact congrArg _ (funext fun y => ih y fun y x hx => h y x (List.mem_cons_of_mem _ hx))

theorem exists_getElem?_of_length (hLength : ys.length = xs.length) {n : Nat} {y : γ}
    (h : ys[n]? = some y) : ∃ x, xs[n]? = some x := by
  have hLt := (List.getElem?_eq_some_iff.mp h).1
  exact ⟨_, List.getElem?_eq_getElem (hLength ▸ hLt)⟩

theorem forall₂_of_mapM (h : xs.mapM f = some ys) :
    List.Forall₂ (fun x y => f x = some y) xs ys := by
  induction xs generalizing ys with
  | nil =>
    rw [List.mapM_nil] at h
    cases h
    exact .nil
  | cons x xs ih =>
    rw [List.mapM_cons] at h
    obtain ⟨y, hy, hRest⟩ := Option.bind_eq_some_iff.mp h
    obtain ⟨ys', hys', hSame⟩ := Option.bind_eq_some_iff.mp hRest
    cases hSame
    exact .cons hy (ih hys')

theorem length_of_mapM (h : xs.mapM f = some ys) : ys.length = xs.length :=
  (forall₂_of_mapM h).length_eq.symm

theorem getElem?_of_mapM (h : xs.mapM f = some ys) (n : Nat) : ys[n]? = xs[n]?.bind f := by
  have hMembers := forall₂_of_mapM h
  clear h
  induction hMembers generalizing n with
  | nil => rfl
  | cons hFirst _ ih =>
    cases n with
    | zero => exact hFirst.symm
    | succ n => exact ih n

theorem mem_of_mapM (h : xs.mapM f = some ys) :
    (∀ x ∈ xs, ∃ y ∈ ys, f x = some y) ∧ ∀ y ∈ ys, ∃ x ∈ xs, f x = some y := by
  have hMembers := forall₂_of_mapM h
  clear h
  induction hMembers with
  | nil => exact ⟨List.forall_mem_nil _, List.forall_mem_nil _⟩
  | cons hFirst _ ih =>
    obtain ⟨hForth, hBack⟩ := ih
    refine ⟨List.forall_mem_cons.mpr ⟨⟨_, List.mem_cons_self, hFirst⟩, fun x hx => ?_⟩,
      List.forall_mem_cons.mpr ⟨⟨_, List.mem_cons_self, hFirst⟩, fun y hy => ?_⟩⟩
    · obtain ⟨y, hy, hSame⟩ := hForth x hx
      exact ⟨y, List.mem_cons_of_mem _ hy, hSame⟩
    · obtain ⟨x, hx, hSame⟩ := hBack y hy
      exact ⟨x, List.mem_cons_of_mem _ hx, hSame⟩

theorem filterMap_of_mapM {g : β → Option (Option γ)} {kept : List (Option γ)}
    (h : xs.mapM g = some kept) : kept.filterMap id = xs.filterMap fun x => (g x).join := by
  have hMembers := forall₂_of_mapM h
  clear h
  induction hMembers with
  | nil => rfl
  | cons hFirst _ ih =>
    rw [List.filterMap_cons, List.filterMap_cons, ih, hFirst, id, Option.join_some]

end PredictiveParsing
