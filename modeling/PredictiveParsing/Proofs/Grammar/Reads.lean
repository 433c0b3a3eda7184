import PredictiveParsing.Proofs.Grammar.Derivation

/-!
# Derivations by what they read

Reading is what a derivation and a run have in common: a run can unfold more than a derivation it
follows, where both come to nothing, but it reads the same tokens. So derivations are counted by the
tokens that they read, the end of the input included.
-/

namespace PredictiveParsing

open Relation

inductive DerivesIn (rules : List Rule) (v : Vocabulary) : Nat → Continuation → List Token → Prop
  | done : DerivesIn rules v 0 [] []
  | unfold {n : Nat} {c d : Continuation} {xs : List Token} (hStep : Unfold rules c d)
      (h : DerivesIn rules v n d xs) : DerivesIn rules v n c xs
  | read {n : Nat} {token : TypeId} {rest : Continuation} {x : Token} {xs : List Token}
      (hMatch : v.isMatch x.kind token = true) (h : DerivesIn rules v n rest xs) :
      DerivesIn rules v (n + 1) (.token token :: rest) (x :: xs)
  | atEnd {n : Nat} {rest : Continuation} (h : DerivesIn rules v n rest []) :
      DerivesIn rules v (n + 1) (.token Vocabulary.eof :: rest) []

variable {rules : List Rule} {v : Vocabulary} {c d rest : Continuation} {segment : Segment}
  {xs : List Token} {n : Nat} {kind : TypeId}

theorem DerivesIn.derives (h : DerivesIn rules v n c xs) : Derives rules v c xs := by
  induction h with
  | done => exact .refl
  | unfold hStep _ ih => exact .head (.unfold hStep) ih
  | read hMatch _ ih => exact .head (.read hMatch) ih
  | atEnd _ ih => exact .head .atEnd ih

theorem Derives.reads (h : Derives rules v c xs) : ∃ n, DerivesIn rules v n c xs := by
  rw [Derives] at h
  generalize hStart : (c, xs) = start at h
  induction h using ReflTransGen.head_induction_on generalizing c xs with
  | refl =>
    cases hStart
    exact ⟨0, .done⟩
  | head hStep _ ih =>
    cases hStep with
    | unfold hUnfold =>
      cases hStart
      obtain ⟨n, h⟩ := ih rfl
      exact ⟨n, .unfold hUnfold h⟩
    | read hMatch =>
      cases hStart
      obtain ⟨n, h⟩ := ih rfl
      exact ⟨n + 1, .read hMatch h⟩
    | atEnd =>
      cases hStart
      obtain ⟨n, h⟩ := ih rfl
      exact ⟨n + 1, .atEnd h⟩

theorem unfolds_of_steps {c' : Continuation} {ys : List Token}
    (h : Steps rules v (c, xs) (c', ys)) :
    ys.length ≤ xs.length ∧ (ys.length = xs.length → xs ≠ [] → Unfolds rules c c') := by
  generalize hStart : (c, xs) = start at h
  induction h using ReflTransGen.head_induction_on generalizing c xs with
  | refl =>
    cases hStart
    exact ⟨Nat.le_refl _, fun _ _ => .refl⟩
  | head hStep _ ih =>
    cases hStep with
    | unfold hUnfold =>
      cases hStart
      obtain ⟨hLe, hUnfolds⟩ := ih rfl
      exact ⟨hLe, fun hSame hSome => .head hUnfold (hUnfolds hSame hSome)⟩
    | read =>
      cases hStart
      obtain ⟨hLe, -⟩ := ih rfl
      rw [List.length_cons]
      exact ⟨by omega, fun hSame => by omega⟩
    | atEnd =>
      cases hStart
      exact ⟨(ih rfl).1, fun _ hSome => absurd rfl hSome⟩

theorem Nullable.unfold (hStep : Unfold rules c d) (h : Nullable rules d) : Nullable rules c :=
  .head hStep h

theorem BeginsWith.unfold (hStep : Unfold rules c d) (h : BeginsWith rules v d kind) :
    BeginsWith rules v c kind := by
  obtain ⟨token, ⟨rest, hRest⟩, hMatch⟩ := h
  exact ⟨token, ⟨rest, .head hStep hRest⟩, hMatch⟩

theorem beginsWith_append : BeginsWith rules v (c ++ d) kind ↔
    BeginsWith rules v c kind ∨ Nullable rules c ∧ BeginsWith rules v d kind := by
  simp only [BeginsWith, first_append]
  constructor
  · rintro ⟨token, hFirst | ⟨hNull, hFirst⟩, hMatch⟩
    · exact .inl ⟨token, hFirst, hMatch⟩
    · exact .inr ⟨hNull, token, hFirst, hMatch⟩
  · rintro (⟨token, hFirst, hMatch⟩ | ⟨hNull, token, hFirst, hMatch⟩)
    · exact ⟨token, .inl hFirst, hMatch⟩
    · exact ⟨token, .inr ⟨hNull, hFirst⟩, hMatch⟩

theorem beginsWith_token {token : TypeId} (hMatch : v.isMatch kind token = true) :
    BeginsWith rules v (.token token :: rest) kind := ⟨token, ⟨rest, .refl⟩, hMatch⟩

namespace DerivesIn

theorem of_unfolds (hUnfolds : Unfolds rules c d) (h : DerivesIn rules v n d xs) :
    DerivesIn rules v n c xs := by
  induction hUnfolds using ReflTransGen.head_induction_on with
  | refl => exact h
  | head hStep _ ih => exact .unfold hStep ih

theorem insert (hNull : Nullable rules c) (h : DerivesIn rules v n rest xs) :
    DerivesIn rules v n (c ++ rest) xs := h.of_unfolds (unfolds_append hNull rest)

theorem skip (h : DerivesIn rules v n (c ++ rest) xs)
    (hNot : ¬ BeginsWith rules v c (headKind xs)) :
    Nullable rules c ∧ DerivesIn rules v n rest xs := by
  generalize hWhole : c ++ rest = whole at h
  induction h generalizing c with
  | done =>
    obtain ⟨rfl, rfl⟩ := List.append_eq_nil_iff.mp hWhole
    exact ⟨nullable_nil, .done⟩
  | unfold hStep h ih =>
    cases c with
    | nil =>
      cases hWhole
      exact ⟨nullable_nil, .unfold hStep h⟩
    | cons segment c =>
      cases hStep with
      | head hExpands =>
        obtain ⟨rfl, rfl⟩ := List.cons.inj hWhole
        have hOne : Unfold rules (segment :: c) (_ ++ c) := .head hExpands
        have hRest := ih (fun hBegins => hNot (hBegins.unfold hOne)) (List.append_assoc _ _ _)
        exact ⟨hRest.1.unfold hOne, hRest.2⟩
  | read hMatch h ih =>
    cases c with
    | nil =>
      cases hWhole
      exact ⟨nullable_nil, .read hMatch h⟩
    | cons segment c =>
      obtain ⟨rfl, rfl⟩ := List.cons.inj hWhole
      exact absurd (beginsWith_token hMatch) hNot
  | atEnd h ih =>
    cases c with
    | nil =>
      cases hWhole
      exact ⟨nullable_nil, .atEnd h⟩
    | cons segment c =>
      obtain ⟨rfl, rfl⟩ := List.cons.inj hWhole
      exact absurd (beginsWith_token Vocabulary.isMatch_self) hNot

theorem of_append (h : DerivesIn rules v n (c ++ rest) xs) :
    ∃ m k ys zs, n = m + k ∧ xs = ys ++ zs ∧ DerivesIn rules v m c ys ∧
      DerivesIn rules v k rest zs := by
  generalize hWhole : c ++ rest = whole at h
  induction h generalizing c with
  | done =>
    obtain ⟨rfl, rfl⟩ := List.append_eq_nil_iff.mp hWhole
    exact ⟨0, 0, [], [], rfl, rfl, .done, .done⟩
  | @unfold n _ _ xs hStep h ih =>
    cases c with
    | nil =>
      cases hWhole
      exact ⟨0, n, [], xs, (Nat.zero_add n).symm, rfl, .done, .unfold hStep h⟩
    | cons segment c =>
      cases hStep with
      | head hExpands =>
        obtain ⟨rfl, rfl⟩ := List.cons.inj hWhole
        obtain ⟨m, k, ys, zs, hn, hxs, hFront, hRest⟩ := ih (List.append_assoc _ _ _)
        exact ⟨m, k, ys, zs, hn, hxs, .unfold (.head hExpands) hFront, hRest⟩
  | @read n _ _ x xs hMatch h ih =>
    cases c with
    | nil =>
      cases hWhole
      exact ⟨0, n + 1, [], x :: xs, (Nat.zero_add _).symm, rfl, .done, .read hMatch h⟩
    | cons segment c =>
      obtain ⟨rfl, rfl⟩ := List.cons.inj hWhole
      obtain ⟨m, k, ys, zs, rfl, rfl, hFront, hRest⟩ := ih rfl
      exact ⟨m + 1, k, x :: ys, zs, by omega, rfl, .read hMatch hFront, hRest⟩
  | @atEnd n _ h ih =>
    cases c with
    | nil =>
      cases hWhole
      exact ⟨0, n + 1, [], [], (Nat.zero_add _).symm, rfl, .done, .atEnd h⟩
    | cons segment c =>
      obtain ⟨rfl, rfl⟩ := List.cons.inj hWhole
      obtain ⟨m, k, ys, zs, rfl, hNil, hFront, hRest⟩ := ih rfl
      obtain ⟨rfl, rfl⟩ := List.append_eq_nil_iff.mp hNil.symm
      exact ⟨m + 1, k, [], [], by omega, rfl, .atEnd hFront, hRest⟩

theorem of_append_nil (h : DerivesIn rules v n (c ++ rest) []) :
    ∃ m ≤ n, DerivesIn rules v m rest [] := by
  obtain ⟨m, k, ys, zs, rfl, hNil, -, hRest⟩ := h.of_append
  obtain ⟨-, rfl⟩ := List.append_eq_nil_iff.mp hNil.symm
  exact ⟨k, Nat.le_add_left k m, hRest⟩

theorem eq_nil (h : DerivesIn rules v n [] xs) : xs = [] := by
  cases h with
  | done => rfl
  | unfold hStep => cases hStep

/-! ## The first step -/

theorem of_token {token : TypeId} (h : DerivesIn rules v n (.token token :: rest) xs) :
    ∃ m, n = m + 1 ∧ ((∃ x ys, xs = x :: ys ∧ v.isMatch x.kind token = true ∧
        DerivesIn rules v m rest ys) ∨
      token = Vocabulary.eof ∧ xs = [] ∧ DerivesIn rules v m rest []) := by
  cases h with
  | unfold hStep => cases hStep with | head hExpands => cases hExpands
  | read hMatch h => exact ⟨_, rfl, .inl ⟨_, _, rfl, hMatch, h⟩⟩
  | atEnd h => exact ⟨_, rfl, .inr ⟨rfl, rfl, h⟩⟩

theorem of_nil (h : DerivesIn rules v n (.sequence [] :: rest) xs) :
    DerivesIn rules v n rest xs := by
  cases h with
  | unfold hStep h => cases hStep with | head hExpands => cases hExpands with | nil => exact h

theorem of_production {p : Production} {ps : List Production}
    (h : DerivesIn rules v n (.sequence (p :: ps) :: rest) xs) :
    ∃ c, p.Expands rules c ∧ DerivesIn rules v n (c ++ .sequence ps :: rest) xs := by
  cases h with
  | unfold hStep h =>
    cases hStep with
    | head hExpands =>
      cases hExpands with
      | cons hp =>
        rw [List.append_assoc, List.singleton_append] at h
        exact ⟨_, hp, h⟩

theorem of_again {definition : List Production} {separator : Option TypeId}
    (h : DerivesIn rules v n (.again definition separator :: rest) xs) :
    ∃ c, (Segment.again definition separator).Expands rules c ∧
      DerivesIn rules v n (c ++ rest) xs := by
  cases h with
  | unfold hStep h => cases hStep with | head hExpands => exact ⟨_, hExpands, h⟩

/-! ## The first production -/

section Productions

variable {ps : List Production} {occurrence : Nat}

theorem of_terminal {token : TypeId} (hEof : token ≠ Vocabulary.eof)
    (h : DerivesIn rules v n [.sequence (.terminal token occurrence :: ps)] xs) :
    ∃ m x ys, n = m + 1 ∧ xs = x :: ys ∧ v.isMatch x.kind token = true ∧
      DerivesIn rules v m [.sequence ps] ys := by
  obtain ⟨c, hExpands, h⟩ := h.of_production
  cases hExpands
  obtain ⟨m, rfl, ⟨x, ys, rfl, hMatch, hRest⟩ | ⟨rfl, -⟩⟩ := of_token h
  · exact ⟨m, x, ys, rfl, rfl, hMatch, hRest⟩
  · exact absurd rfl hEof

theorem of_reference {name : String} {target : RuleId}
    (h : DerivesIn rules v n [.sequence (.nonTerminal name (some target) occurrence :: ps)] xs) :
    ∃ m k ys zs, n = m + k ∧ xs = ys ++ zs ∧
      DerivesIn rules v m [.sequence (definitionOf rules target)] ys ∧
      DerivesIn rules v k [.sequence ps] zs := by
  obtain ⟨c, hExpands, h⟩ := h.of_production
  cases hExpands
  exact h.of_append

theorem of_last_reference {name : String} {target : RuleId}
    (h : DerivesIn rules v n [.sequence [.nonTerminal name (some target) occurrence]] xs) :
    ∃ m ≤ n, DerivesIn rules v m [.sequence (definitionOf rules target)] xs := by
  obtain ⟨m, k, ys, zs, rfl, rfl, hDerived, hNothing⟩ := h.of_reference
  obtain rfl := hNothing.of_nil.eq_nil
  rw [List.append_nil]
  exact ⟨m, Nat.le_add_right m k, hDerived⟩

theorem of_alternation {branches : List (Alternative Production)}
    (h : DerivesIn rules v n [.sequence (.alternation branches occurrence :: ps)] xs) :
    ∃ branch ∈ branches, ∃ m k ys zs, n = m + k ∧ xs = ys ++ zs ∧
      DerivesIn rules v m [.sequence branch.definition] ys ∧
      DerivesIn rules v k [.sequence ps] zs := by
  obtain ⟨c, hExpands, h⟩ := h.of_production
  cases hExpands with
  | alternative branch hBranch => exact ⟨branch, hBranch, h.of_append⟩

/-- A repetition that may come to nothing is what goes on between its iterations. -/
theorem of_repetition {definition : List Production}
    (h : DerivesIn rules v n [.sequence (.repetition false none definition occurrence :: ps)] xs) :
    DerivesIn rules v n [.again definition none, .sequence ps] xs := by
  obtain ⟨c, hExpands, h⟩ := h.of_production
  cases hExpands with
  | noIteration => exact .unfold (.head .stop) h
  | iteration => exact .unfold (.head .another) h

end Productions

end DerivesIn

end PredictiveParsing
