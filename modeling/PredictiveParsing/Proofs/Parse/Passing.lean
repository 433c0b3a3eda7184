import PredictiveParsing.Proofs.Grammar.FirstTokens
import PredictiveParsing.Proofs.Grammar.LeftRecursion
import PredictiveParsing.Proofs.Parse.Halting
import PredictiveParsing.Proofs.Parse.InRange

/-!
# What a run gets past

A repair can get a run past productions without moving on, but only in front of a token that begins
what is behind them. A token that begins the productions themselves is read before anything has to
be repaired, and productions that can be empty are passed over in front of any other token.
-/

namespace PredictiveParsing.Parse

open Structure

variable {α : Type}

def Input.BeginsAt (i : Input α) (ps : List Production) (n : Nat) : Prop :=
  i.grammar.Begins ps (i.kindAt n)

def Input.Fits (i : Input α) (ps : List Production) (n : Nat) : Prop :=
  i.BeginsAt ps n ∨ Nullable i.grammar.rules [.sequence ps]

/-- A state behind productions that were run from a place, with what can be behind them. -/
structure Passed (i : Input α) (ps : List Production) (behind : TypeId → Prop) (n : Nat)
    (t : State) : Prop where
  le : n ≤ t.position
  inRange : Production.endFree ps = true → n ≤ i.tokens.size → InRange i t
  reads : Production.endFree ps = true → i.BeginsAt ps n → n < t.position
  stays : Production.endFree ps = true → t.position = n →
    Nullable i.grammar.rules [.sequence ps] ∨ behind (i.kindAt n)
  omits : Nullable i.grammar.rules [.sequence ps] → ¬ i.BeginsAt ps n → t.position = n

structure Broken (i : Input α) (ps : List Production) (n : Nat) (t : State) : Prop where
  le : n ≤ t.position
  inRange : n ≤ i.tokens.size → InRange i t
  reads : i.BeginsAt ps n → n < t.position
  full : Nullable i.grammar.rules [.sequence ps] → i.BeginsAt ps n

variable {i : Input α} {ps qs d : List Production} {p : Production} {behind : TypeId → Prop}
  {n m : Nat} {t u : State} {k : List Production × Continuation}

theorem beginsAt_append : i.BeginsAt (ps ++ qs) n ↔
    i.BeginsAt ps n ∨ Nullable i.grammar.rules [.sequence ps] ∧ i.BeginsAt qs n :=
  beginsWith_sequence_append

theorem not_beginsAt_nil : ¬ i.BeginsAt [] n := not_beginsWith_sequence_nil

theorem Input.Fits.right (h : i.Fits (ps ++ qs) n) (hNot : ¬ i.BeginsAt ps n) :
    Nullable i.grammar.rules [.sequence ps] ∧ i.Fits qs n := by
  rcases h with hBegins | hNull
  · exact ((beginsAt_append.mp hBegins).resolve_left hNot).imp_right .inl
  · exact (nullable_sequence_append.mp hNull).imp_right .inr

theorem Input.Fits.left (h : i.Fits (ps ++ qs) n) : i.Fits ps n :=
  or_iff_not_imp_left.mpr fun hNot => (h.right hNot).1

abbrev Input.Behind (i : Input α) (qs : List Production) (k : List Production × Continuation)
    (kind : TypeId) : Prop :=
  BeginsWith i.grammar.rules i.grammar.vocabulary (inSequence qs k) kind

theorem begins_of_behind (h : i.Behind qs k (i.kindAt n)) :
    i.BeginsAt qs n ∨
      Nullable i.grammar.rules [.sequence qs] ∧ i.Behind [] k (i.kindAt n) := by
  have hSplit : ∀ ps, inSequence ps k = [.sequence (ps ++ k.1)] ++ k.2 := fun _ => rfl
  rw [Input.Behind, hSplit, beginsWith_append, beginsWith_sequence_append,
    nullable_sequence_append] at h
  rw [Input.Behind, hSplit, beginsWith_append]
  rcases h with (hqs | ⟨hNull, hBegins⟩) | ⟨⟨hNull, hNull'⟩, hBegins⟩
  · exact .inl hqs
  · exact .inr ⟨hNull, .inl hBegins⟩
  · exact .inr ⟨hNull, .inr ⟨hNull', hBegins⟩⟩

theorem behind_nested {kind : TypeId} (h : i.Behind [] ([], inSequence [] k) kind) :
    i.Behind [] k kind :=
  (((beginsWith_append (c := [.sequence []])).mp h).resolve_left not_beginsWith_sequence_nil).2

namespace Passed

theorem congr (h : Passed i ps behind n t) (hSame : u.position = t.position) :
    Passed i ps behind n u where
  le := hSame ▸ h.le
  inRange hFree hn := (h.inRange hFree hn).congr hSame
  reads hFree hBegins := hSame ▸ h.reads hFree hBegins
  stays hFree hStays := h.stays hFree (hSame ▸ hStays)
  omits hNull hNot := hSame.trans (h.omits hNull hNot)

theorem mono {behind' : TypeId → Prop} (h : Passed i ps behind n t)
    (hBehind : ∀ kind, behind kind → behind' kind) : Passed i ps behind' n t :=
  { h with stays := fun hFree hSame => (h.stays hFree hSame).imp_right (hBehind _) }

theorem of_nullable (hNull : Nullable i.grammar.rules [.sequence ps]) (hNot : ¬ i.BeginsAt ps n)
    (hSame : t.position = n) : Passed i ps behind n t where
  le := hSame.ge
  inRange _ hn := hSame.trans_le hn
  reads _ hBegins := absurd hBegins hNot
  stays _ _ := .inl hNull
  omits _ _ := hSame

theorem of_begins (hBegins : i.BeginsAt ps n) (hLt : n < t.position) (hRange : InRange i t) :
    Passed i ps behind n t where
  le := Nat.le_of_lt hLt
  inRange _ _ := hRange
  reads _ _ := hLt
  stays _ hSame := absurd hSame (Nat.ne_of_gt hLt)
  omits _ hNot := absurd hBegins hNot

theorem of_not_fits (hNot : ¬ i.Fits ps n) (hLe : n ≤ t.position)
    (hRange : Production.endFree ps = true → n ≤ i.tokens.size → InRange i t)
    (hBehind : t.position = n → behind (i.kindAt n)) : Passed i ps behind n t where
  le := hLe
  inRange := hRange
  reads _ hBegins := absurd (.inl hBegins) hNot
  stays _ hSame := .inr (hBehind hSame)
  omits hNull := absurd (.inr hNull) hNot

theorem append (h : Passed i ps (i.Behind qs k) n t)
    (h' : Passed i qs (i.Behind [] k) t.position u) :
    Passed i (ps ++ qs) (i.Behind [] k) n u := by
  have hLe := h.le
  have hLe' := h'.le
  refine ⟨Nat.le_trans hLe hLe', fun hFree hn => ?_, fun hFree hBegins => ?_,
    fun hFree hSame => ?_, fun hNull hNot => ?_⟩
  · rw [Production.endFree_append, Bool.and_eq_true] at hFree
    exact h'.inRange hFree.2 (h.inRange hFree.1 hn)
  · rw [Production.endFree_append, Bool.and_eq_true] at hFree
    by_cases hps : i.BeginsAt ps n
    · exact Nat.lt_of_lt_of_le (h.reads hFree.1 hps) hLe'
    · obtain ⟨hNull, hqs⟩ := (beginsAt_append.mp hBegins).resolve_left hps
      have hSame := h.omits hNull hps
      exact hSame ▸ h'.reads hFree.2 (hSame.symm ▸ hqs)
  · rw [Production.endFree_append, Bool.and_eq_true] at hFree
    have hSame' : t.position = n := by omega
    rw [hSame'] at h'
    rw [nullable_sequence_append]
    rcases h.stays hFree.1 hSame' with hNull | hBehind
    · exact (h'.stays hFree.2 hSame).imp_left fun hNull' => ⟨hNull, hNull'⟩
    · rcases begins_of_behind hBehind with hqs | ⟨-, hRest⟩
      · exact absurd hSame (Nat.ne_of_gt (h'.reads hFree.2 hqs))
      · exact .inr hRest
  · obtain ⟨hps, hqs⟩ := nullable_sequence_append.mp hNull
    rw [beginsAt_append, not_or, not_and] at hNot
    have hSame := h.omits hps hNot.1
    rw [hSame] at h'
    exact h'.omits hqs (hNot.2 hps)

end Passed

namespace Broken

theorem congr (h : Broken i ps n t) (hSame : u.position = t.position) : Broken i ps n u where
  le := hSame ▸ h.le
  inRange hn := (h.inRange hn).congr hSame
  reads hBegins := hSame ▸ h.reads hBegins
  full := h.full

theorem of_not_fits (hNot : ¬ i.Fits ps n) (hSame : t.position = n) : Broken i ps n t where
  le := hSame.ge
  inRange hn := hSame.trans_le hn
  reads hBegins := absurd (.inl hBegins) hNot
  full hNull := absurd (.inr hNull) hNot

theorem of_begins (hBegins : i.BeginsAt ps n) (hLt : n < t.position) (hRange : InRange i t) :
    Broken i ps n t where
  le := Nat.le_of_lt hLt
  inRange _ := hRange
  reads _ := hLt
  full _ := hBegins

theorem left (h : Broken i ps n t) : Broken i (ps ++ qs) n t where
  le := h.le
  inRange := h.inRange
  reads hBegins := h.reads ((beginsAt_append.mp hBegins).elim id fun hqs => h.full hqs.1)
  full hNull := beginsAt_append.mpr (.inl (h.full (nullable_sequence_append.mp hNull).1))

theorem right (h : Passed i ps behind n t) (h' : Broken i qs t.position u)
    (hEnd : qs = [] ∨ Production.endFree ps = true) : Broken i (ps ++ qs) n u := by
  have hLe := h.le
  have hLe' := h'.le
  have hFree : Production.endFree ps = true := by
    refine hEnd.resolve_left ?_
    rintro rfl
    exact not_beginsAt_nil (h'.full nullable_sequence_nil)
  refine ⟨Nat.le_trans hLe hLe', fun hn => h'.inRange (h.inRange hFree hn), fun hBegins => ?_,
    fun hNull => ?_⟩
  · by_cases hps : i.BeginsAt ps n
    · exact Nat.lt_of_lt_of_le (h.reads hFree hps) hLe'
    · obtain ⟨hNull, hqs⟩ := (beginsAt_append.mp hBegins).resolve_left hps
      have hSame := h.omits hNull hps
      exact hSame ▸ h'.reads (hSame.symm ▸ hqs)
  · obtain ⟨hps, hqs⟩ := nullable_sequence_append.mp hNull
    refine beginsAt_append.mpr (or_iff_not_imp_left.mpr fun hNot => ⟨hps, ?_⟩)
    exact h.omits hps hNot ▸ h'.full hqs

end Broken

theorem Passed.of_broken (h : Broken i ps n t) (hLe : t.position ≤ u.position) (hRange : InRange i u)
    (hBehind : u.position = n → behind (i.kindAt n)) : Passed i ps behind n u where
  le := Nat.le_trans h.le hLe
  inRange _ _ := hRange
  reads _ hBegins := Nat.lt_of_lt_of_le (h.reads hBegins) hLe
  stays _ hSame := .inr (hBehind hSame)
  omits hNull hNot := absurd (h.full hNull) hNot

/-! ## Nested productions -/

section Nested

variable (hExpands : p.Expands i.grammar.rules [.sequence d])

include hExpands

theorem beginsAt_nested (h : i.BeginsAt d n) : i.BeginsAt [p] n :=
  beginsWith_production.mpr ⟨_, hExpands, h⟩

theorem nullable_nested (h : Nullable i.grammar.rules [.sequence d]) :
    Nullable i.grammar.rules [.sequence [p]] :=
  nullable_production.mpr ⟨_, hExpands, h⟩

variable (hFits : i.Fits [p] n → i.Fits d n) (hBegins : i.BeginsAt [p] n → i.BeginsAt d n)

include hFits hBegins

theorem Passed.nested (h : Passed i d behind n t) (hFree : Production.endFree d = true) :
    Passed i [p] behind n t where
  le := h.le
  inRange _ := h.inRange hFree
  reads _ hp := h.reads hFree (hBegins hp)
  stays _ hSame := (h.stays hFree hSame).imp_left (nullable_nested hExpands)
  omits hNull hNot :=
    have hNot' : ¬ i.BeginsAt d n := fun hd => hNot (beginsAt_nested hExpands hd)
    h.omits ((hFits (.inr hNull)).resolve_left hNot') hNot'

theorem Broken.nested (h : Broken i d n t) : Broken i [p] n t where
  le := h.le
  inRange := h.inRange
  reads hp := h.reads (hBegins hp)
  full hNull := beginsAt_nested hExpands ((hFits (.inr hNull)).elim id h.full)

end Nested

/-! ## Calls -/

variable [Inhabited α]

def CallsRecover (i : Input α) (n : Nat) (id : RuleId) : Prop :=
  ∀ occurrence label s, id < i.grammar.rules.length →
    Production.endFree (definitionOf i.grammar.rules id) = true → Inside i s → InRange i s →
    s.position = n → Halts (fun fuel => i.invoke fuel id occurrence label s)
      (Passed i (definitionOf i.grammar.rules id)
        (fun kind => i.inCurrentFollow (i.enter s id occurrence) kind = true) n)
      fun _ => Broken i (definitionOf i.grammar.rules id) n

/-- The calls that productions can make halt: those of rules that fit if the productions fit, and
otherwise all of them. -/
structure Prepared (i : Input α) (n : Nat) (ps : List Production) : Prop where
  later : ∀ m > n, ∀ id, CallsRecover i m id
  fitting : ∀ id ∈ (openingOf (.ofRules i.grammar.rules) ps).1,
    i.Fits (definitionOf i.grammar.rules id) n → CallsRecover i n id
  first : i.Fits ps n ∨
    (∀ id ∈ (openingOf (.ofRules i.grammar.rules) ps).1, CallsRecover i n id) ∧
      ∀ id, i.Fits (definitionOf i.grammar.rules id) n → CallsRecover i n id

namespace Prepared

theorem of_calls (h : ∀ m ≥ n, ∀ id, CallsRecover i m id) : Prepared i n ps where
  later m hm := h m (Nat.le_of_lt hm)
  fitting id _ _ := h n (Nat.le_refl n) id
  first := .inr ⟨fun id _ => h n (Nat.le_refl n) id, fun id _ => h n (Nat.le_refl n) id⟩

theorem left (h : Prepared i n (ps ++ qs)) : Prepared i n ps where
  later := h.later
  fitting id hId := h.fitting id (mem_openingOf_left hId)
  first := h.first.imp Input.Fits.left (.imp_left fun hFirst id hId =>
    hFirst id (mem_openingOf_left hId))

/-- Behind productions that were passed: if a repair has moved nowhere, the token begins what is
next, so that only rules that fit are called there. -/
theorem right (h : Prepared i n (ps ++ qs)) (ht : Passed i ps (i.Behind qs k) n t)
    (hEnd : qs = [] ∨ Production.endFree ps = true) : Prepared i t.position qs := by
  rcases Nat.lt_or_eq_of_le ht.le with hLt | hSame
  · exact .of_calls fun m hm => h.later m (Nat.lt_of_lt_of_le hLt hm)
  · rw [← hSame]
    rcases hEnd with rfl | hFree
    · refine ⟨h.later, fun id hId => ?_, .inl (.inr nullable_sequence_nil)⟩
      simp [openingOf] at hId
    · have hOpening : Nullable i.grammar.rules [.sequence ps] →
          ∀ id ∈ (openingOf (.ofRules i.grammar.rules) qs).1,
            id ∈ (openingOf (.ofRules i.grammar.rules) (ps ++ qs)).1 := by
        intro hNull id hId
        exact mem_openingOf_right (FirstSets.nullableAll_iff.mpr hNull) hId
      rcases h.first with hFits | ⟨hFirst, hFitting⟩
      · have hNot : ¬ i.BeginsAt ps n := fun hps =>
          absurd hSame (Nat.ne_of_lt (ht.reads hFree hps))
        obtain ⟨hNull, hqs⟩ := hFits.right hNot
        exact ⟨h.later, fun id hId => h.fitting id (hOpening hNull id hId), .inl hqs⟩
      · refine ⟨h.later, fun id _ => hFitting id, ?_⟩
        rcases ht.stays hFree hSame.symm with hNull | hBehind
        · exact .inr ⟨fun id hId => hFirst id (hOpening hNull id hId), hFitting⟩
        · exact .inl ((begins_of_behind hBehind).imp_right And.left)

theorem nested (h : Prepared i n [p]) (hFits : i.Fits d n)
    (hFirst : ∀ id ∈ (openingOf (.ofRules i.grammar.rules) d).1,
      id ∈ (opening (.ofRules i.grammar.rules) p).1) : Prepared i n d where
  later := h.later
  fitting id hId := h.fitting id (by
    rw [openingOf_singleton]
    exact hFirst id hId)
  first := .inl hFits

end Prepared

end PredictiveParsing.Parse
