import PredictiveParsing.Proofs.Grammar.Starts

/-!
# Strings of token types

What a continuation derives, as the types that it expects and not as tokens that match them. A
derivation expands from the left and gives off the types that it meets, so it may also be broken off
behind some of them.
-/

namespace PredictiveParsing

/-- A leftmost derivation gives off some types of tokens and has something left behind them. -/
inductive Yields (rules : List Rule) : Continuation → Path → Continuation → Prop
  | refl {c : Continuation} : Yields rules c [] c
  | unfold {c d rest : Continuation} {w : Path} (hUnfold : Unfold rules c d)
      (h : Yields rules d w rest) : Yields rules c w rest
  | token {c rest : Continuation} {token : TypeId} {w : Path} (h : Yields rules c w rest) :
      Yields rules (.token token :: c) (token :: w) rest

def Spells (rules : List Rule) (c : Continuation) (w : Path) : Prop := Yields rules c w []

/-- A string is the leading part of what a leftmost derivation gives off. -/
def Leads (rules : List Rule) (c : Continuation) (w : Path) : Prop := ∃ rest, Yields rules c w rest

variable {rules : List Rule} {c d e rest : Continuation} {segment : Segment} {token : TypeId}
  {u w path : Path}

theorem Yields.append (h : Yields rules c w d) (rest : Continuation) :
    Yields rules (c ++ rest) w (d ++ rest) := by
  induction h with
  | refl => exact .refl
  | unfold hUnfold _ ih => exact .unfold (hUnfold.append rest) ih
  | token _ ih => exact .token ih

theorem Yields.trans (h : Yields rules c w d) (hMore : Yields rules d u e) :
    Yields rules c (w ++ u) e := by
  induction h with
  | refl => exact hMore
  | unfold hUnfold _ ih => exact .unfold hUnfold (ih hMore)
  | token _ ih => exact .token (ih hMore)

theorem yields_tokens (path : Path) (c : Continuation) :
    Yields rules (path.map .token ++ c) path c := by
  induction path with
  | nil => exact .refl
  | cons token path ih => exact .token ih

/-- What is behind gives off nothing before what is in front has been used up. -/
theorem yields_append_cases (h : Yields rules (c ++ d) w e) :
    (∃ rest, Yields rules c w rest ∧ e = rest ++ d) ∨
      ∃ front back, w = front ++ back ∧ Spells rules c front ∧ Yields rules d back e := by
  generalize hEq : c ++ d = whole at h
  induction h generalizing c with
  | refl => exact .inl ⟨c, .refl, hEq.symm⟩
  | @unfold _ next _ w hUnfold hRest ih =>
    cases c with
    | nil =>
      cases hEq
      exact .inr ⟨[], w, rfl, .refl, .unfold hUnfold hRest⟩
    | cons segment c =>
      cases hUnfold with
      | @head _ first _ hExpands =>
        obtain ⟨rfl, rfl⟩ := List.cons.inj hEq
        rcases ih (c := first ++ c) (List.append_assoc _ _ _) with
          ⟨rest, hFront, hRest⟩ | ⟨front, back, hw, hFront, hBack⟩
        · exact .inl ⟨rest, .unfold (.head hExpands) hFront, hRest⟩
        · exact .inr ⟨front, back, hw, .unfold (.head hExpands) hFront, hBack⟩
  | @token _ _ token w hRest ih =>
    cases c with
    | nil =>
      cases hEq
      exact .inr ⟨[], token :: w, rfl, .refl, .token hRest⟩
    | cons segment c =>
      obtain ⟨rfl, rfl⟩ := List.cons.inj hEq
      rcases ih rfl with ⟨rest, hFront, hRest⟩ | ⟨front, back, rfl, hFront, hBack⟩
      · exact .inl ⟨rest, .token hFront, hRest⟩
      · exact .inr ⟨token :: front, back, rfl, .token hFront, hBack⟩

theorem yields_head (hSegment : ∀ token, segment ≠ .token token) (hGoes : w ≠ [] ∨ e = []) :
    Yields rules (segment :: rest) w e ↔
      ∃ d, segment.Expands rules d ∧ Yields rules (d ++ rest) w e := by
  constructor
  · intro h
    cases h with
    | refl => exact hGoes.elim (absurd rfl) nofun
    | unfold hUnfold h =>
      cases hUnfold with
      | head hExpands => exact ⟨_, hExpands, h⟩
    | token => exact absurd rfl (hSegment _)
  · rintro ⟨d, hExpands, h⟩
    exact .unfold (.head hExpands) h

theorem yields_empty (hGoes : w ≠ [] ∨ e = []) :
    Yields rules (.sequence [] :: rest) w e ↔ Yields rules rest w e := by
  rw [yields_head (fun _ h => by cases h) hGoes]
  constructor
  · rintro ⟨_, ⟨⟩, h⟩
    exact h
  · exact fun h => ⟨[], .nil, h⟩

/-! ## Whole strings -/

theorem spells_nil : Spells rules [] w ↔ w = [] := by
  constructor
  · intro h
    cases h with
    | refl => rfl
    | unfold hUnfold => cases hUnfold
  · rintro rfl
    exact .refl

theorem spells_append : Spells rules (c ++ d) w ↔
    ∃ front back, w = front ++ back ∧ Spells rules c front ∧ Spells rules d back := by
  constructor
  · intro h
    rcases yields_append_cases h with ⟨rest, hFront, hNil⟩ | h
    · obtain ⟨rfl, rfl⟩ := List.append_eq_nil_iff.mp hNil.symm
      exact ⟨w, [], (List.append_nil w).symm, hFront, .refl⟩
    · exact h
  · rintro ⟨front, back, rfl, hFront, hBack⟩
    exact (hFront.append d).trans hBack

theorem spells_tokens : Spells rules (path.map .token) w ↔ w = path := by
  constructor
  · intro h
    induction path generalizing w with
    | nil => exact spells_nil.mp h
    | cons token path ih =>
      cases h with
      | unfold hUnfold =>
        cases hUnfold with
        | head hExpands => cases hExpands
      | token h => rw [ih h]
  · rintro rfl
    have hAll : Yields rules (w.map .token ++ []) w [] := yields_tokens w []
    rwa [List.append_nil] at hAll

theorem spells_tokens_append : Spells rules (path.map .token ++ c) w ↔
    ∃ u, w = path ++ u ∧ Spells rules c u := by
  rw [spells_append]
  constructor
  · rintro ⟨front, u, rfl, hFront, hBack⟩
    exact ⟨u, by rw [spells_tokens.mp hFront], hBack⟩
  · rintro ⟨u, rfl, h⟩
    exact ⟨path, u, rfl, spells_tokens.mpr rfl, h⟩

theorem spells_empty : Spells rules (.sequence [] :: rest) w ↔ Spells rules rest w :=
  yields_empty (.inr rfl)

theorem isLeftmost_spells : IsLeftmost rules (Spells rules · w) where
  head _ _ hSegment := yields_head hSegment (.inr rfl)
  empty _ _ := by simp only [spells_append, spells_empty]

/-! ## Leading parts -/

theorem leads_nil : Leads rules c [] := ⟨c, .refl⟩

theorem leads_append : Leads rules (c ++ d) w ↔ Leads rules c w ∨
    ∃ front back, w = front ++ back ∧ Spells rules c front ∧ Leads rules d back := by
  constructor
  · rintro ⟨e, h⟩
    rcases yields_append_cases h with ⟨rest, hFront, -⟩ | ⟨front, back, hw, hFront, hBack⟩
    · exact .inl ⟨rest, hFront⟩
    · exact .inr ⟨front, back, hw, hFront, e, hBack⟩
  · rintro (⟨rest, h⟩ | ⟨front, back, rfl, hFront, e, hBack⟩)
    · exact ⟨rest ++ d, h.append d⟩
    · exact ⟨e, (hFront.append d).trans hBack⟩

theorem leads_empty : Leads rules (.sequence [] :: rest) w ↔ Leads rules rest w := by
  by_cases hw : w = []
  · exact hw ▸ iff_of_true leads_nil leads_nil
  · exact exists_congr fun _ => yields_empty (.inl hw)

theorem isLeftmost_leads (hw : w ≠ []) : IsLeftmost rules (Leads rules · w) where
  head segment rest hSegment := by
    simp only [Leads, yields_head hSegment (.inl hw)]
    exact ⟨fun ⟨e, d, hExpands, h⟩ => ⟨d, hExpands, e, h⟩,
      fun ⟨d, hExpands, e, h⟩ => ⟨e, d, hExpands, h⟩⟩
  empty _ _ := by simp only [leads_append, leads_empty]

end PredictiveParsing
