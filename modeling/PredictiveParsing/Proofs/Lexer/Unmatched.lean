import PredictiveParsing.Proofs.Lexer.Dispatch
import PredictiveParsing.Proofs.Lexer.Tiling

/-!
# Unexpected characters are maximal stretches that nothing matches

The main loop of a run goes by the table of first characters, and recovery tries all types of the
mode. Both find a match at the same places, so recovery stops where the next token begins.
-/

namespace PredictiveParsing.Lexer

variable {l : Lexer} {v : Vocabulary} {d : LexerDefinition} {config : LexerConfig}
  {text front stretch rest cs : List Char} {cur : Cursor} {c : Char} {mode : Mode} {id : TypeId}
  {modes : List Nat} {segments : List Segment}

/-! ## Where a type matches -/

def MatchesBetween (l : Lexer) (id : TypeId) (front rest : List Char) : Prop :=
  ∃ compiled n, l.compiled.lookup id = some compiled ∧
    compiled.matcher.matchAt (front ++ rest) (Text.byteLength front) rest = some n ∧ 0 < n

theorem DispatchesByStart.isSome_tryMatch (h : l.DispatchesByStart) (hText : text = front ++ cur.rest)
    (hOffset : Text.byteLength front = cur.offset) :
    (l.tryMatch text cur id).isSome = true ↔ l.MatchesBetween id front cur.rest := by
  rw [Option.isSome_iff_exists]
  constructor
  · rintro ⟨m, hTried⟩
    obtain ⟨-, compiled, n, hLookup, hMatch, hPos, -⟩ := tryMatch_eq_some hTried
    exact ⟨compiled, n, hLookup, by rwa [← hText, hOffset], hPos⟩
  · rintro ⟨compiled, n, hLookup, hMatch, hPos⟩
    rw [← hText, hOffset] at hMatch
    obtain ⟨image, behind, hSplit⟩ :=
      h.exists_splitBytes? id compiled hLookup _ _ _ n hMatch
    refine ⟨⟨id, image, behind⟩, ?_⟩
    simp only [tryMatch, hLookup, hMatch, Option.bind_eq_bind, Option.bind_some, if_pos hPos,
      hSplit]
    rfl

theorem DispatchesByStart.matchIn_eq_none (h : l.DispatchesByStart)
    (hText : text = front ++ cur.rest) (hOffset : Text.byteLength front = cur.offset)
    (hRest : cur.rest ≠ []) (index : Nat) :
    l.matchIn text (l.mode index) cur = none ↔
      ∀ id ∈ (l.mode index).types, ¬ l.MatchesBetween id front cur.rest := by
  obtain ⟨c, cs, hCons⟩ := List.exists_cons_of_ne_nil hRest
  rw [h.matchIn_eq ⟨front, hText, hOffset⟩ hCons, matchFirst, Option.map_eq_none_iff,
    List.findSome?_eq_none_iff]
  refine forall₂_congr fun id _ => ?_
  rw [← h.isSome_tryMatch hText hOffset, Bool.not_eq_true, Option.isSome_eq_false_iff,
    Option.isNone_iff_eq_none]

/-! ## What recovery skips -/

/-- No type of a mode matches anywhere in a stretch of a text, and behind it one does or the text
ends. -/
structure Unmatched (l : Lexer) (mode : Mode) (front stretch rest : List Char) : Prop where
  inside : ∀ u w, stretch = u ++ w → w ≠ [] → ∀ id ∈ mode.types,
    ¬ l.MatchesBetween id (front ++ u) (w ++ rest)
  behind : rest ≠ [] → ∃ id ∈ mode.types, l.MatchesBetween id (front ++ stretch) rest

theorem unmatched_nil (h : rest ≠ [] → ∃ id ∈ mode.types, l.MatchesBetween id front rest) :
    l.Unmatched mode front [] rest := by
  refine ⟨fun u w hNone hw => absurd (List.append_eq_nil_iff.mp hNone.symm).2 hw, ?_⟩
  rwa [List.append_nil]

theorem Unmatched.cons (h : l.Unmatched mode (front ++ [c]) stretch rest)
    (hHere : ∀ id ∈ mode.types, ¬ l.MatchesBetween id front (c :: (stretch ++ rest))) :
    l.Unmatched mode front (c :: stretch) rest := by
  constructor
  case inside =>
    intro u w hStretch hw id hId
    cases u with
    | nil =>
      rw [List.nil_append] at hStretch
      rw [List.append_nil, ← hStretch]
      exact hHere id hId
    | cons x u =>
      rw [List.cons_append] at hStretch
      obtain ⟨rfl, hBehind⟩ := List.cons.inj hStretch
      have hInside := h.inside u w hBehind hw id hId
      rwa [List.append_assoc] at hInside
  case behind =>
    intro hRest
    obtain ⟨id, hId, hMatch⟩ := h.behind hRest
    rw [List.append_assoc] at hMatch
    exact ⟨id, hId, hMatch⟩

theorem DispatchesByStart.unmatched_skipUnmatched (h : l.DispatchesByStart)
    (hText : text = front ++ cur.rest)
    (hOffset : Text.byteLength front = cur.offset) (hRest : cur.rest = cs) :
    l.Unmatched mode front (l.skipUnmatched text mode cur cs).2
      (l.skipUnmatched text mode cur cs).1.rest := by
  induction cs generalizing front cur with
  | nil =>
    rw [skipUnmatched, hRest]
    exact unmatched_nil fun hMore => absurd rfl hMore
  | cons c cs ih =>
    rw [skipUnmatched]
    split
    · next hFound =>
      obtain ⟨id, hId, hTried⟩ := List.any_eq_true.mp hFound
      exact unmatched_nil fun _ => ⟨id, hId, (h.isSome_tryMatch hText hOffset).mp hTried⟩
    · next hNone =>
      have hNext : (cur.advance l.config [c] cs true).1.rest = cs := Cursor.rest_advance _ _ _ _ _
      refine Unmatched.cons (ih ?_ ?_ hNext) fun id hId hMatch => ?_
      · rw [hNext, List.append_assoc, hText, hRest]
        rfl
      · rw [Text.byteLength_append, Cursor.offset_advance, hOffset]
      · rw [skipped_append_rest_skipUnmatched hNext, ← hRest] at hMatch
        exact hNone (List.any_eq_true.mpr ⟨id, hId, (h.isSome_tryMatch hText hOffset).mpr hMatch⟩)

theorem DispatchesByStart.unmatched_skip (h : l.DispatchesByStart)
    (hRecovery : l.config.recovery = true) (hText : text = front ++ cur.rest)
    (hOffset : Text.byteLength front = cur.offset) (hRest : cur.rest = c :: cs) {index : Nat}
    (hMatch : l.matchIn text (l.mode index) cur = none) :
    l.Unmatched (l.mode index) front (l.skip text (l.mode index) cur c cs).2
      (l.skip text (l.mode index) cur c cs).1.rest := by
  have hNext : (cur.advance l.config [c] cs true).1.rest = cs := Cursor.rest_advance _ _ _ _ _
  have hNone := (h.matchIn_eq_none hText hOffset (by simp [hRest]) index).mp hMatch
  simp only [skip, if_pos hRecovery]
  refine Unmatched.cons (h.unmatched_skipUnmatched ?_ ?_ hNext) fun id hId => ?_
  · rw [hNext, List.append_assoc, hText, hRest]
    rfl
  · rw [Text.byteLength_append, Cursor.offset_advance, hOffset]
  · rw [skipped_append_rest_skipUnmatched hNext, ← hRest]
    exact hNone id hId

/-! ## Unexpected characters of a run -/

theorem Cuts.behind_unmatched (h : l.Cuts text modes cur segments) (hStarts : l.DispatchesByStart)
    (hText : text = front ++ cur.rest) (hOffset : Text.byteLength front = cur.offset)
    (hMatch : cur.rest ≠ [] → ∃ id ∈ (l.mode (modes.headD 0)).types,
      l.MatchesBetween id front cur.rest) :
    cur.rest = [] ∧ segments = [] ∨
      cur.rest ≠ [] ∧ ∃ t stuck after,
        segments = .token t modes stuck :: after ∧ t.span.start = cur.offset := by
  have hFound (hRest : cur.rest ≠ []) : l.matchIn text (l.mode (modes.headD 0)) cur ≠ none := by
    intro hNone
    obtain ⟨id, hId, hHere⟩ := hMatch hRest
    exact (hStarts.matchIn_eq_none hText hOffset hRest _).mp hNone id hId hHere
  cases h with
  | done hRest => exact .inl ⟨hRest, rfl⟩
  | token hMatch hBehind =>
    obtain ⟨id, hTried⟩ := exists_tryMatch_of_matchIn hMatch
    have hShorter := length_rest_of_tryMatch hTried
    exact .inr ⟨List.ne_nil_of_length_pos (Nat.zero_lt_of_lt hShorter), _, _, _, rfl, rfl⟩
  | skipped hRest hNone => exact absurd hNone (hFound (by simp [hRest]))
  | stopped hRest hNone => exact absurd hNone (hFound (by simp [hRest]))

/-- An error stands for a maximal stretch of a text that no type of a mode matches a part of, and
some segments go on behind it with a token. -/
def SkipsMaximally (l : Lexer) (text : List Char) (mode : Mode) (e : LexicalError)
    (after : List Segment) : Prop :=
  ∃ front stretch rest, text = front ++ stretch ++ rest ∧ stretch ≠ [] ∧
    e.span = ⟨Text.byteLength front, Text.byteLength (front ++ stretch)⟩ ∧
    l.Unmatched mode front stretch rest ∧
    (rest = [] ∧ after = [] ∨
      rest ≠ [] ∧ ∃ t modes stuck further,
        after = .token t modes stuck :: further ∧ t.span.start = e.span.stop)

section Recovery

variable (hStarts : l.DispatchesByStart) (hRecovery : l.config.recovery = true)
include hStarts hRecovery

theorem Cuts.skipsMaximally {e : LexicalError} {after : List Segment}
    (h : l.Cuts text modes cur (.skipped e :: after)) (hAt : cur.IsAt text) :
    l.SkipsMaximally text (l.mode (modes.headD 0)) e after := by
  cases h with
  | @skipped _ _ c cs _ hRest hMatch _ hBehind =>
    obtain ⟨front, hText, hOffset⟩ := hAt
    have hUnmatched := hStarts.unmatched_skip hRecovery hText hOffset hRest hMatch
    have hParts : text = front ++ (l.skip text (l.mode (modes.headD 0)) cur c cs).2 ++
        (l.skip text (l.mode (modes.headD 0)) cur c cs).1.rest := by
      rw [List.append_assoc, skipped_append_rest_skip, ← hRest, hText]
    have hStop : Text.byteLength (front ++ (l.skip text (l.mode (modes.headD 0)) cur c cs).2) =
        (l.skip text (l.mode (modes.headD 0)) cur c cs).1.offset := by
      rw [Text.byteLength_append, hOffset, offset_skip]
    refine ⟨front, _, _, hParts, skipped_ne_nil, ?_, hUnmatched, ?_⟩
    · rw [hStop, offset_skip, hOffset]
      rfl
    · rcases hBehind.behind_unmatched hStarts hParts hStop hUnmatched.behind with
        hEnd | ⟨hMore, t, stuck, further, hNext, hStart⟩
      · exact .inl hEnd
      · exact .inr ⟨hMore, t, modes, stuck, further, hNext, hStart.trans offset_skip⟩
  | stopped hRest hMatch hOff => exact absurd (hRecovery.symm.trans hOff) (by simp)

/-- By induction on the run; a token comes between one stretch and the next one. -/
theorem Cuts.pairwise_unexpected (h : l.Cuts text modes cur segments) (hAt : cur.IsAt text) :
    (segments.filterMap Segment.unexpected?).Pairwise fun a b => a.span.stop < b.span.start := by
  induction h with
  | done hRest => exact .nil
  | token hMatch hBehind ih => exact ih (hAt.finishToken (image_append_rest_of_matchIn hMatch))
  | skipped hRest hMatch hOn hBehind ih =>
    have hFurther := ih (hAt.skip hRest)
    obtain ⟨-, stop, hTile, -⟩ := hBehind.segmentation (hAt.skip hRest)
    obtain ⟨_, _, _, -, -, -, -, hNext⟩ :=
      (Cuts.skipped hRest hMatch hOn hBehind).skipsMaximally hStarts hRecovery hAt
    refine hFurther.cons fun b hb => ?_
    rcases hNext with ⟨-, rfl⟩ | ⟨-, t, modes', stuck, further, rfl, hStart⟩
    · cases hb
    · obtain ⟨s, hs, hSkipped⟩ := List.mem_filterMap.mp hb
      obtain ⟨hBegin, hLt, -, hTail⟩ := hTile
      cases s with
      | token => cases hSkipped
      | skipped e =>
        cases hSkipped
        rcases List.mem_cons.mp hs with hToken | hLater
        · cases hToken
        · calc
            _ = t.span.start := hStart.symm
            _ < t.span.stop := lt_of_eq_of_lt hBegin hLt
            _ ≤ b.span.start := hTail.le_start _ hLater
  | stopped hRest hMatch hOff => exact absurd (hRecovery.symm.trans hOff) (by simp)

end Recovery

/-- Every error of unexpected characters stands for a maximal stretch that no type of the mode in
force matches a part of, and there is a token between two of them. -/
theorem unexpected_maximal [RegexLibrary] (hLaws : RegexLibrary.Lawful)
    (h : build v d config = .ok l) (hRecovery : config.recovery = true)
    (hCustom : ∀ id ∈ d.used, ∀ type, v.type? id = some type →
      ∀ p, type.pattern = .custom p → p.StartsAsStated) (text : List Char) (start : Nat) :
    (∀ e ∈ (l.run text start).errors, e.isUnexpected = true →
      ∃ before after, l.cut text start = before ++ .skipped e :: after ∧
        l.SkipsMaximally text (l.mode ((l.modesBehind [start] before).headD 0)) e after) ∧
    ((l.run text start).errors.filter (·.isUnexpected)).Pairwise
      fun a b => a.span.stop < b.span.start := by
  have hStarts := dispatchesByStart_of_lawful hLaws h hCustom
  have hOn : l.config.recovery = true := by
    rw [(eq_of_build h).2]
    exact hRecovery
  by_cases hLarge : LexicalError.maxBytes < Text.byteLength text
  · rw [run, if_pos hLarge]
    refine ⟨fun e he hUnexpected => ?_, .nil⟩
    rw [List.mem_singleton.mp he] at hUnexpected
    cases hUnexpected
  · have hTiles := run_tiles l (Nat.le_of_not_lt hLarge) start
    constructor
    · intro e he hUnexpected
      have hMem := List.mem_filter.mpr ⟨he, hUnexpected⟩
      rw [hTiles.unexpected] at hMem
      obtain ⟨s, hs, hSkipped⟩ := List.mem_filterMap.mp hMem
      cases s with
      | token => cases hSkipped
      | skipped e =>
        cases hSkipped
        obtain ⟨before, after, hCut⟩ := List.append_of_mem hs
        obtain ⟨there, hAt, hThere⟩ := exists_at_of_cut hCut
        exact ⟨before, after, hCut, hThere.skipsMaximally hStarts hOn hAt⟩
    · rw [hTiles.unexpected]
      exact (cuts_segments l text [start] (.start text)).pairwise_unexpected hStarts hOn
        (Cursor.isAt_start text)

namespace Stretches

def types : List TokenType := [.literal "Word" "ab", .new "Comment" (.custom Quotations.comment)]

def between : List Char := "ab?!#c".toList

theorem custom_startsAsStated : ∀ id ∈ (LexerDefinition.single [1, 2]).used, ∀ type,
    (Vocabulary.ofTypes types).type? id = some type →
      ∀ p, type.pattern = .custom p → p.StartsAsStated := by
  have hUsed : (LexerDefinition.single [1, 2]).used = [1, 2] := by decide
  rw [hUsed]
  simp only [List.forall_mem_cons]
  refine ⟨?_, ?_, fun id hNone => absurd hNone List.not_mem_nil⟩
  · rintro type ⟨⟩ p ⟨⟩
  · rintro type ⟨⟩ p ⟨⟩
    exact Quotations.comment_startsAsStated

end Stretches

/-- Two characters between a word and a comment are one error. -/
theorem unexpected_maximal_between : ∃ l e before after,
    build (.ofTypes Stretches.types) (.single [1, 2]) {} = .ok l ∧
      (l.run Stretches.between 0).errors = [e] ∧ e.span = ⟨2, 4⟩ ∧
      l.cut Stretches.between 0 = before ++ .skipped e :: after ∧
      l.SkipsMaximally Stretches.between (l.mode ((l.modesBehind [0] before).headD 0)) e after := by
  obtain ⟨l, hBuild, hRun⟩ :
      ∃ l, build (.ofTypes Stretches.types) (.single [1, 2]) {} = .ok l ∧
        ((l.undispatched.run Stretches.between 0).errors.map
          (fun e => (e.isUnexpected, e.span)) == [(true, ⟨2, 4⟩)]) = true :=
    exists_of_build _ (by decide +kernel)
  have hStarts := dispatchesByStart_of_lawful Regex.library_lawful hBuild
    Stretches.custom_startsAsStated
  rw [run_undispatched hStarts, beq_iff_eq] at hRun
  obtain ⟨e, hErrors, hError⟩ := List.map_eq_singleton_iff.mp hRun
  obtain ⟨hUnexpected, hSpan⟩ := Prod.mk.inj hError
  obtain ⟨hMaximal, -⟩ :=
    unexpected_maximal Regex.library_lawful hBuild rfl Stretches.custom_startsAsStated
      Stretches.between 0
  obtain ⟨before, after, hCut, hSkips⟩ :=
    hMaximal e (hErrors ▸ List.mem_singleton_self e) hUnexpected
  exact ⟨l, e, before, after, hBuild, hErrors, hSpan, hCut, hSkips⟩

end PredictiveParsing.Lexer
