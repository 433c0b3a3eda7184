import Mathlib.Logic.Relation
import PredictiveParsing.Grammar.Continuation
import PredictiveParsing.Proofs.Vocabulary.Matching
import PredictiveParsing.Vocabulary.Token

/-!
# Derivations

The language of a grammar, told without a parser. A continuation is rewritten from the left: its
first segment is expanded, or is a token that reads the next token of the input. The end of the
input is read without being used up.
-/

namespace PredictiveParsing

open Relation

/-- What a production stands for, one level down. -/
inductive Production.Expands (rules : List Rule) : Production → Continuation → Prop
  | terminal {token : TypeId} {occurrence : Nat} :
      Expands rules (.terminal token occurrence) [.token token]
  | reference {name : String} {target : RuleId} {occurrence : Nat} (h : target < rules.length) :
      Expands rules (.nonTerminal name (some target) occurrence)
        [.sequence (definitionOf rules target)]
  | noOption {definition : List Production} {occurrence : Nat} :
      Expands rules (.option definition occurrence) []
  | option {definition : List Production} {occurrence : Nat} :
      Expands rules (.option definition occurrence) [.sequence definition]
  | noIteration {separator : Option TypeId} {definition : List Production} {occurrence : Nat} :
      Expands rules (.repetition false separator definition occurrence) []
  | iteration {mandatory : Bool} {separator : Option TypeId} {definition : List Production}
      {occurrence : Nat} :
      Expands rules (.repetition mandatory separator definition occurrence)
        [.sequence definition, .again definition separator]
  | alternative {alternatives : List (Alternative Production)} {occurrence : Nat}
      (branch : Alternative Production) (h : branch ∈ alternatives) :
      Expands rules (.alternation alternatives occurrence) [.sequence branch.definition]

inductive Segment.Expands (rules : List Rule) : Segment → Continuation → Prop
  | nil : Expands rules (.sequence []) []
  | cons {p : Production} {ps : List Production} {c : Continuation} (h : p.Expands rules c) :
      Expands rules (.sequence (p :: ps)) (c ++ [.sequence ps])
  | stop {definition : List Production} {separator : Option TypeId} :
      Expands rules (.again definition separator) []
  | another {definition : List Production} :
      Expands rules (.again definition none) [.sequence definition, .again definition none]
  | separated {definition : List Production} {separator : TypeId} :
      Expands rules (.again definition (some separator))
        [.token separator, .sequence definition, .again definition (some separator)]

inductive Unfold (rules : List Rule) : Continuation → Continuation → Prop
  | head {segment : Segment} {c rest : Continuation} (h : segment.Expands rules c) :
      Unfold rules (segment :: rest) (c ++ rest)

/-- A step of a derivation, on what remains to be derived and the tokens that remain. -/
inductive DerivationStep (rules : List Rule) (v : Vocabulary) :
    Continuation × List Token → Continuation × List Token → Prop
  | unfold {c c' : Continuation} {xs : List Token} (h : Unfold rules c c') :
      DerivationStep rules v (c, xs) (c', xs)
  | read {token : TypeId} {rest : Continuation} {x : Token} {xs : List Token}
      (h : v.isMatch x.kind token = true) :
      DerivationStep rules v (.token token :: rest, x :: xs) (rest, xs)
  | atEnd {rest : Continuation} :
      DerivationStep rules v (.token Vocabulary.eof :: rest, []) (rest, [])

abbrev Unfolds (rules : List Rule) : Continuation → Continuation → Prop :=
  ReflTransGen (Unfold rules)

abbrev Steps (rules : List Rule) (v : Vocabulary) :
    Continuation × List Token → Continuation × List Token → Prop :=
  ReflTransGen (DerivationStep rules v)

/-- A continuation derives a list of tokens if some steps use up both. -/
def Derives (rules : List Rule) (v : Vocabulary) (c : Continuation) (xs : List Token) : Prop :=
  Steps rules v (c, xs) ([], [])

/-- A continuation that can stand for nothing at all. -/
def Nullable (rules : List Rule) (c : Continuation) : Prop := Unfolds rules c []

/-- A type of token that a continuation can begin with. -/
def First (rules : List Rule) (c : Continuation) (token : TypeId) : Prop :=
  ∃ rest, Unfolds rules c (.token token :: rest)

/-- The kind of the next token; behind all tokens, the end of the input. -/
def headKind (xs : List Token) : TypeId := (xs.head?.map (·.kind)).getD Vocabulary.eof

def BeginsWith (rules : List Rule) (v : Vocabulary) (c : Continuation) (kind : TypeId) : Prop :=
  ∃ token, First rules c token ∧ v.isMatch kind token = true

variable {rules : List Rule} {v : Vocabulary} {c c' d : Continuation} {segment : Segment}
  {ps qs : List Production} {token kind : TypeId}

theorem Unfold.append (h : Unfold rules c c') (rest : Continuation) :
    Unfold rules (c ++ rest) (c' ++ rest) := by
  cases h with
  | head hExpands =>
    rw [List.append_assoc]
    exact .head hExpands

theorem unfolds_append (h : Unfolds rules c c') (rest : Continuation) :
    Unfolds rules (c ++ rest) (c' ++ rest) :=
  h.lift (· ++ rest) fun _ _ hStep => hStep.append rest

/-- What is behind comes into play only after what is in front has been expanded to nothing. -/
theorem unfolds_append_cases {rest e : Continuation} (h : Unfolds rules (c ++ rest) e) :
    (∃ d, Unfolds rules c d ∧ e = d ++ rest) ∨ (Nullable rules c ∧ Unfolds rules rest e) := by
  induction h with
  | refl => exact .inl ⟨c, .refl, rfl⟩
  | @tail e f _ hStep ih =>
    rcases ih with ⟨d, hd, rfl⟩ | ⟨hNull, hRest⟩
    · cases d with
      | nil => exact .inr ⟨hd, .single hStep⟩
      | cons segment d =>
        left
        generalize hEq : segment :: d ++ rest = e at hStep
        cases hStep with
        | head hExpands =>
          obtain ⟨rfl, rfl⟩ := List.cons.inj hEq
          exact ⟨_ ++ d, hd.tail (.head hExpands), (List.append_assoc _ _ _).symm⟩
    · exact .inr ⟨hNull, hRest.tail hStep⟩

theorem nullable_nil : Nullable rules [] := ReflTransGen.refl

theorem nullable_append : Nullable rules (c ++ d) ↔ Nullable rules c ∧ Nullable rules d := by
  constructor
  · intro h
    rcases unfolds_append_cases h with ⟨e, he, hNil⟩ | h
    · obtain ⟨rfl, rfl⟩ := List.append_eq_nil_iff.mp hNil.symm
      exact ⟨he, nullable_nil⟩
    · exact h
  · rintro ⟨hc, hd⟩
    exact (unfolds_append hc d).trans hd

theorem first_append :
    First rules (c ++ d) token ↔ First rules c token ∨ Nullable rules c ∧ First rules d token := by
  constructor
  · rintro ⟨rest, h⟩
    rcases unfolds_append_cases h with ⟨e, he, hEq⟩ | ⟨hNull, hRest⟩
    · cases e with
      | nil => exact .inr ⟨he, rest, by rw [hEq]; exact .refl⟩
      | cons segment e =>
        obtain ⟨rfl, rfl⟩ := List.cons.inj hEq
        exact .inl ⟨e, he⟩
    · exact .inr ⟨hNull, rest, hRest⟩
  · rintro (⟨rest, h⟩ | ⟨hNull, rest, h⟩)
    · exact ⟨rest ++ d, unfolds_append h d⟩
    · exact ⟨rest, (unfolds_append hNull d).trans h⟩

theorem nullable_of_expands (h : segment.Expands rules c) (hNull : Nullable rules c) :
    Nullable rules [segment] :=
  ReflTransGen.head (.head h) (by rwa [List.append_nil])

theorem nullable_singleton :
    Nullable rules [segment] ↔ ∃ c, segment.Expands rules c ∧ Nullable rules c := by
  constructor
  · intro h
    rcases ReflTransGen.cases_head h with h | ⟨d, hStep, hRest⟩
    · cases h
    · cases hStep with
      | head hExpands => exact ⟨_, hExpands, by rwa [List.append_nil] at hRest⟩
  · rintro ⟨c, hExpands, hNull⟩
    exact nullable_of_expands hExpands hNull

theorem steps_cases {xs ys : List Token} (h : Steps rules v (c, xs) (c', ys)) :
    (ys = xs ∧ Unfolds rules c c') ∨ BeginsWith rules v c (headKind xs) := by
  generalize hEq : (c', ys) = e at h
  induction h generalizing c' ys with
  | refl =>
    cases hEq
    exact .inl ⟨rfl, .refl⟩
  | @tail e f _ hStep ih =>
    rcases @ih e.1 e.2 rfl with ⟨hSame, hUnfold⟩ | h
    · cases hStep with
      | unfold hOne =>
        cases hEq
        exact .inl ⟨hSame, hUnfold.tail hOne⟩
      | @read token rest x xs' hMatch =>
        simp only at hSame hUnfold
        subst hSame
        exact .inr ⟨token, ⟨rest, hUnfold⟩, hMatch⟩
      | @atEnd rest =>
        simp only at hSame hUnfold
        subst hSame
        exact .inr ⟨Vocabulary.eof, ⟨rest, hUnfold⟩, Vocabulary.isMatch_self⟩
    · exact .inr h

theorem steps_unfold {xs : List Token} (h : Unfold rules c c') :
    Steps rules v (c, xs) (c', xs) := .single (.unfold h)

theorem steps_expand {xs : List Token} {rest : Continuation} (h : segment.Expands rules c) :
    Steps rules v (segment :: rest, xs) (c ++ rest, xs) := steps_unfold (.head h)

/-! ## Sequences -/

theorem nullable_sequence_nil : Nullable rules [.sequence []] :=
  nullable_of_expands .nil nullable_nil

theorem steps_production {p : Production} {xs : List Token} {rest : Continuation}
    (h : p.Expands rules c) :
    Steps rules v (.sequence (p :: ps) :: rest, xs) (c ++ .sequence ps :: rest, xs) := by
  have hStep : Steps rules v (.sequence (p :: ps) :: rest, xs)
      ((c ++ [.sequence ps]) ++ rest, xs) := steps_expand (.cons h)
  rwa [List.append_assoc, List.singleton_append] at hStep

theorem nullable_sequence_cons {p : Production} :
    Nullable rules [.sequence (p :: ps)] ↔
      (∃ c, p.Expands rules c ∧ Nullable rules c) ∧ Nullable rules [.sequence ps] := by
  constructor
  · intro h
    obtain ⟨d, hExpands, hNull⟩ := nullable_singleton.mp h
    cases hExpands with
    | cons hp =>
      obtain ⟨hc, hps⟩ := nullable_append.mp hNull
      exact ⟨⟨_, hp, hc⟩, hps⟩
  · rintro ⟨⟨c, hp, hc⟩, hps⟩
    exact nullable_of_expands (.cons hp) (nullable_append.mpr ⟨hc, hps⟩)

theorem nullable_sequence_append :
    Nullable rules [.sequence (ps ++ qs)] ↔
      Nullable rules [.sequence ps] ∧ Nullable rules [.sequence qs] := by
  induction ps with
  | nil => simp [nullable_sequence_nil]
  | cons p ps ih => rw [List.cons_append, nullable_sequence_cons, nullable_sequence_cons, ih,
      and_assoc]

end PredictiveParsing
