import Mathlib.Data.List.Infix
import PredictiveParsing.Proofs.Lexer.Dispatch
import PredictiveParsing.Proofs.Lexer.LineBreaks
import PredictiveParsing.Proofs.Lexer.Tiling

/-!
# What is skipped is walked over one character after the other

A token is walked over at once, and a carriage return and a line feed in it are one line break.
Characters that nothing matches are skipped one by one, so the line feed of a pair is looked at
alone. The cursor comes to the same position both ways only if no pair is skipped, or if the line
feed ends no line by itself and another terminator is skipped behind all pairs.
-/

namespace PredictiveParsing

namespace Text

variable {terminators cs : List Char} {c : Char}

/-- Somewhere a line feed follows a carriage return. -/
def HasPair (cs : List Char) : Prop := ['\r', '\n'] <:+: cs

/-- Some terminator has no pair of a carriage return and a line feed from there on. -/
def EndsBehindPairs (terminators cs : List Char) : Prop :=
  ∃ c rest, c :: rest <:+ cs ∧ c ∈ terminators ∧ ¬ HasPair (c :: rest)

theorem not_hasPair_nil : ¬ HasPair [] := by
  rw [HasPair, List.infix_nil]
  exact List.cons_ne_nil _ _

theorem hasPair_cons :
    HasPair (c :: cs) ↔ (∃ rest, c = '\r' ∧ cs = '\n' :: rest) ∨ HasPair cs := by
  rw [HasPair, List.infix_cons_iff, List.cons_prefix_cons]
  refine or_congr_left ⟨?_, ?_⟩
  · rintro ⟨rfl, rest, rfl⟩
    exact ⟨rest, rfl, rfl⟩
  · rintro ⟨rest, rfl, rfl⟩
    exact ⟨rfl, rest, rfl⟩

theorem hasPair_cons_of_not (h : ∀ rest, c = '\r' → cs = '\n' :: rest → False) :
    HasPair (c :: cs) ↔ HasPair cs := by
  rw [hasPair_cons, or_iff_right]
  rintro ⟨rest, hFirst, hRest⟩
  exact h rest hFirst hRest

theorem not_endsBehindPairs_nil : ¬ EndsBehindPairs terminators [] := by
  rintro ⟨c, rest, hSuffix, -⟩
  exact List.cons_ne_nil _ _ (List.suffix_nil.mp hSuffix)

theorem endsBehindPairs_cons : EndsBehindPairs terminators (c :: cs) ↔
    (c ∈ terminators ∧ ¬ HasPair (c :: cs)) ∨ EndsBehindPairs terminators cs := by
  constructor
  · rintro ⟨x, rest, hSuffix, hEnds⟩
    rcases List.suffix_cons_iff.mp hSuffix with hAll | hBehind
    · obtain ⟨rfl, rfl⟩ := List.cons.inj hAll
      exact .inl hEnds
    · exact .inr ⟨x, rest, hBehind, hEnds⟩
  · rintro (hEnds | ⟨x, rest, hSuffix, hEnds⟩)
    · exact ⟨c, cs, List.suffix_refl _, hEnds⟩
    · exact ⟨x, rest, hSuffix.trans (List.suffix_cons c cs), hEnds⟩

end Text

namespace LineCol

def step (terminators : List Char) (p : LineCol) (c : Char) : LineCol :=
  if terminators.contains c then ⟨p.line + 1, 1⟩ else ⟨p.line, p.column + 1⟩

variable {terminators : List Char} {p : LineCol} {c : Char}

theorem step_of_mem (h : c ∈ terminators) : step terminators p c = ⟨p.line + 1, 1⟩ :=
  if_pos (List.contains_iff_mem.mpr h)

theorem step_of_not_mem (h : c ∉ terminators) :
    step terminators p c = ⟨p.line, p.column + 1⟩ :=
  if_neg fun hMem => h (List.contains_iff_mem.mp hMem)

end LineCol

namespace Lexer

open LineCol (step)
open Text (HasPair EndsBehindPairs)

variable {terminators cs : List Char} {p q last : LineCol}

namespace Cursor

theorem walk_eq_foldl (h : '\r' ∈ terminators → ¬ HasPair cs) :
    (walk terminators p last cs).1 = cs.foldl (step terminators) p := by
  fun_induction walk terminators p last cs with
  | case1 p last => rfl
  | case2 p last cs hReturn ih =>
    have hPair : HasPair ('\r' :: '\n' :: cs) := Text.hasPair_cons.mpr (.inl ⟨cs, rfl, rfl⟩)
    exact absurd hPair (h (List.contains_iff_mem.mp hReturn))
  | case3 p last cs hReturn ih =>
    have hOther : '\r' ∉ terminators := fun hMem => hReturn (List.contains_iff_mem.mpr hMem)
    rw [ih fun hMem => absurd hMem hOther, ← LineCol.step_of_not_mem hOther]
    rfl
  | case4 p last c cs hOther hTerminator ih =>
    rw [ih fun hMem hPair => h hMem (Text.hasPair_cons.mpr (.inr hPair)), List.foldl_cons,
      LineCol.step_of_mem (List.contains_iff_mem.mp hTerminator)]
  | case5 p last c cs hOther hTerminator ih =>
    rw [ih fun hMem hPair => h hMem (Text.hasPair_cons.mpr (.inr hPair)), List.foldl_cons,
      LineCol.step_of_not_mem fun hMem => hTerminator (List.contains_iff_mem.mpr hMem)]

section Pairs

variable (hReturn : '\r' ∈ terminators)
include hReturn

/-- If a line feed ends lines too, each pair counts two of them when it is looked at in parts. -/
theorem line_walk_lt (hFeed : '\n' ∈ terminators)
    (h : q.line < p.line ∨ q.line ≤ p.line ∧ HasPair cs) :
    (walk terminators q last cs).1.line < (cs.foldl (step terminators) p).line := by
  fun_induction walk terminators q last cs generalizing p with
  | case1 q last =>
    rcases h with hLt | ⟨-, hPair⟩
    · exact hLt
    · exact absurd hPair Text.not_hasPair_nil
  | case2 q last cs _ ih =>
    rw [List.foldl_cons, List.foldl_cons, LineCol.step_of_mem hReturn, LineCol.step_of_mem hFeed]
    exact ih (.inl (by dsimp only; omega))
  | case3 q last cs hNot ih => exact absurd (List.contains_iff_mem.mpr hReturn) hNot
  | case4 q last c cs hOther hTerminator ih =>
    rw [Text.hasPair_cons_of_not hOther] at h
    rw [List.foldl_cons, LineCol.step_of_mem (List.contains_iff_mem.mp hTerminator)]
    exact ih (h.imp Nat.succ_lt_succ (And.imp_left Nat.succ_le_succ))
  | case5 q last c cs hOther hTerminator ih =>
    rw [Text.hasPair_cons_of_not hOther] at h
    rw [List.foldl_cons,
      LineCol.step_of_not_mem fun hMem => hTerminator (List.contains_iff_mem.mpr hMem)]
    exact ih h

/-- If a line feed ends no line, it is counted as a column up to the next terminator. -/
theorem foldl_eq_walk_iff (hFeed : '\n' ∉ terminators) (hLine : p.line = q.line) :
    cs.foldl (step terminators) p = (walk terminators q last cs).1 ↔
      (p.column = q.column ∧ ¬ HasPair cs) ∨ EndsBehindPairs terminators cs := by
  fun_induction walk terminators q last cs generalizing p with
  | case1 q last =>
    rw [or_iff_left Text.not_endsBehindPairs_nil, and_iff_left Text.not_hasPair_nil, List.foldl_nil]
    obtain ⟨line, column⟩ := p
    obtain ⟨line', column'⟩ := q
    rw [LineCol.mk.injEq, and_iff_right hLine]
  | case2 q last cs _ ih =>
    have hPair : HasPair ('\r' :: '\n' :: cs) := Text.hasPair_cons.mpr (.inl ⟨cs, rfl, rfl⟩)
    rw [List.foldl_cons, List.foldl_cons, LineCol.step_of_mem hReturn,
      LineCol.step_of_not_mem hFeed, ih (by rw [hLine]), Text.endsBehindPairs_cons,
      Text.endsBehindPairs_cons]
    simp [hPair, hFeed]
  | case3 q last cs hNot ih => exact absurd (List.contains_iff_mem.mpr hReturn) hNot
  | case4 q last c cs hOther hTerminator ih =>
    have hMem := List.contains_iff_mem.mp hTerminator
    rw [List.foldl_cons, LineCol.step_of_mem hMem, ih (by rw [hLine]), Text.endsBehindPairs_cons,
      Text.hasPair_cons_of_not hOther]
    rw [and_iff_right rfl, and_iff_right hMem, ← or_assoc, or_iff_right_of_imp And.right]
  | case5 q last c cs hOther hTerminator ih =>
    have hMem : c ∉ terminators := fun hMem => hTerminator (List.contains_iff_mem.mpr hMem)
    have hNext : (⟨p.line, p.column + 1⟩ : LineCol).line = q.line := hLine
    rw [List.foldl_cons, LineCol.step_of_not_mem hMem, ih hNext, Text.endsBehindPairs_cons,
      Text.hasPair_cons_of_not hOther]
    simp [hMem]

end Pairs

theorem foldl_eq_walk : cs.foldl (step terminators) p = (walk terminators p last cs).1 ↔
    ('\r' ∈ terminators → HasPair cs → '\n' ∉ terminators ∧ EndsBehindPairs terminators cs) := by
  by_cases hOne : '\r' ∈ terminators ∧ HasPair cs
  · obtain ⟨hReturn, hPair⟩ := hOne
    by_cases hFeed : '\n' ∈ terminators
    · have hLt : (walk terminators p last cs).1.line < (cs.foldl (step terminators) p).line :=
        line_walk_lt hReturn hFeed (.inr ⟨Nat.le_refl _, hPair⟩)
      refine iff_of_false (fun hSame => ?_) fun hOnly => (hOnly hReturn hPair).1 hFeed
      rw [hSame] at hLt
      exact Nat.lt_irrefl _ hLt
    · rw [foldl_eq_walk_iff hReturn hFeed rfl]
      simp [hReturn, hPair, hFeed]
  · have hSame : (walk terminators p last cs).1 = cs.foldl (step terminators) p :=
      walk_eq_foldl fun hReturn hPair => hOne ⟨hReturn, hPair⟩
    exact iff_of_true hSame.symm fun hReturn hPair => absurd ⟨hReturn, hPair⟩ hOne

variable {cfg : LexerConfig} {cur : Cursor} {image rest : List Char} {c : Char} {lineBreaks : Bool}

theorem eq_iff_position {a b : Cursor} (hOffset : a.offset = b.offset) (hRest : a.rest = b.rest) :
    a = b ↔ a.position = b.position := by
  obtain ⟨offset, position, rest⟩ := a
  obtain ⟨offset', position', rest'⟩ := b
  obtain rfl : offset = offset' := hOffset
  obtain rfl : rest = rest' := hRest
  simp only [Cursor.mk.injEq, true_and, and_true]

theorem position_advance (h : cfg.positionTracking ≠ .offsetOnly) :
    (cur.advance cfg image rest true).1.position =
      (walk cfg.lineTerminators cur.position cur.position image).1 := by
  rw [advance, if_neg h]
  rfl

theorem position_advance_char (h : cfg.positionTracking ≠ .offsetOnly) :
    (cur.advance cfg [c] rest true).1.position = step cfg.lineTerminators cur.position c := by
  have hNone : ¬ HasPair [c] := by
    rw [Text.hasPair_cons_of_not fun _ _ hMore => by cases hMore]
    exact Text.not_hasPair_nil
  rw [position_advance h, walk_eq_foldl fun _ => hNone]
  rfl

theorem position_advance_untracked (h : cfg.positionTracking = .offsetOnly) :
    (cur.advance cfg image rest lineBreaks).1.position = cur.position := by
  rw [advance, if_pos h]

end Cursor

/-! ## Skipped characters -/

section Skipped

variable {l : Lexer} {text : List Char} {mode : Mode} {cur : Cursor} {c : Char}
  {f : LineCol → Char → LineCol}
  (hStep : ∀ cur c rest, (Cursor.advance l.config cur [c] rest true).1.position = f cur.position c)
include hStep

theorem position_skipUnmatched : (l.skipUnmatched text mode cur cs).1.position =
    (l.skipUnmatched text mode cur cs).2.foldl f cur.position := by
  induction cs generalizing cur with
  | nil => rfl
  | cons c cs ih =>
    rw [skipUnmatched]
    split
    · rfl
    · rw [ih, hStep]
      rfl

theorem position_skip : (l.skip text mode cur c cs).1.position =
    (l.skip text mode cur c cs).2.foldl f cur.position := by
  simp only [skip]
  split
  · rw [position_skipUnmatched hStep, hStep]
    rfl
  · exact hStep cur c cs

end Skipped

variable {l : Lexer} {text : List Char} {mode : Mode} {cur : Cursor} {c : Char}

/-- Characters that are skipped lead to the place and the position behind them as if they had been
walked over at once, unless positions are tracked and a pair in them counts otherwise. -/
theorem skip_eq_advance (l : Lexer) (text : List Char) (mode : Mode) (cur : Cursor) (c : Char)
    (cs : List Char) :
    (l.skip text mode cur c cs).1 = (cur.advance l.config (l.skip text mode cur c cs).2
        (l.skip text mode cur c cs).1.rest true).1 ↔
      (l.config.positionTracking ≠ .offsetOnly → '\r' ∈ l.config.lineTerminators →
        HasPair (l.skip text mode cur c cs).2 →
          '\n' ∉ l.config.lineTerminators ∧
            EndsBehindPairs l.config.lineTerminators (l.skip text mode cur c cs).2) := by
  rw [Cursor.eq_iff_position (offset_skip.trans (Cursor.offset_advance _ _ _ _ _).symm)
    (Cursor.rest_advance _ _ _ _ _).symm]
  by_cases hTracked : l.config.positionTracking = .offsetOnly
  · refine iff_of_true ?_ fun hOther => absurd hTracked hOther
    rw [position_skip (f := fun p _ => p) fun _ _ _ => Cursor.position_advance_untracked hTracked,
      List.foldl_fixed, Cursor.position_advance_untracked hTracked]
  · rw [position_skip fun _ _ _ => Cursor.position_advance_char hTracked,
      Cursor.position_advance hTracked, Cursor.foldl_eq_walk, imp_iff_right hTracked]

def lineBreak : List Char := ['\r', '\n', 'a']

/-- A line break that is skipped counts two lines, so the word behind it is found in the third line
instead of the second one. -/
theorem skip_counts_pair_twice : ∃ l,
    build (.ofTypes [.literal "Word" "a"]) (.single [1]) {} = .ok l ∧
      l.skip lineBreak (l.mode 0) (.start lineBreak) '\r' ['\n', 'a'] =
        (⟨2, ⟨3, 1⟩, ['a']⟩, ['\r', '\n']) ∧
      ((Cursor.start lineBreak).advance l.config ['\r', '\n'] ['a'] true).1 =
        ⟨2, ⟨2, 1⟩, ['a']⟩ := by
  obtain ⟨l, hBuild, hBoth⟩ : ∃ l,
      build (.ofTypes [.literal "Word" "a"]) (.single [1]) {} = .ok l ∧
        decide (l.skip lineBreak (l.mode 0) (.start lineBreak) '\r' ['\n', 'a'] =
            (⟨2, ⟨3, 1⟩, ['a']⟩, ['\r', '\n']) ∧
          ((Cursor.start lineBreak).advance l.config ['\r', '\n'] ['a'] true).1 =
            ⟨2, ⟨2, 1⟩, ['a']⟩) = true :=
    exists_of_build _ (by decide +kernel)
  exact ⟨l, hBuild, of_decide_eq_true hBoth⟩

end Lexer

end PredictiveParsing
