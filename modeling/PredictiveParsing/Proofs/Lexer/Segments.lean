import PredictiveParsing.Lexer.Run

/-!
# The segments of a run

A cursor stands at a place of the text: what is left is what comes behind the bytes that it has
passed. Tokens and skipped characters lead from one place to another. The segments of a run are a
trace of such steps, which ends with the text or, without recovery, at the first unexpected
character.
-/

namespace PredictiveParsing

namespace Lexer

variable {l : Lexer} {text image rest cs : List Char} {cur : Cursor} {c : Char} {m : Match}

def Cursor.IsAt (text : List Char) (cur : Cursor) : Prop :=
  ∃ front, text = front ++ cur.rest ∧ Text.byteLength front = cur.offset

namespace Cursor

theorem isAt_start (text : List Char) : (start text).IsAt text := ⟨[], rfl, rfl⟩

@[simp] theorem offset_advance (cfg : LexerConfig) (cur : Cursor) (image rest : List Char)
    (lineBreaks : Bool) :
    (advance cfg cur image rest lineBreaks).1.offset = cur.offset + Text.byteLength image := by
  unfold advance
  split
  · rfl
  · split <;> rfl

theorem IsAt.advance (h : cur.IsAt text) (hImage : image ++ rest = cur.rest) (cfg : LexerConfig)
    (lineBreaks : Bool) : (cur.advance cfg image rest lineBreaks).1.IsAt text := by
  obtain ⟨front, hText, hLength⟩ := h
  refine ⟨front ++ image, ?_, ?_⟩
  · rw [rest_advance, List.append_assoc, hImage, hText]
  · rw [offset_advance, Text.byteLength_append, hLength]

end Cursor

/-! ## Matches -/

theorem tryMatch_eq_some {id : TypeId} (h : l.tryMatch text cur id = some m) :
    m.kind = id ∧ ∃ compiled n, l.compiled.lookup id = some compiled ∧
      compiled.matcher.matchAt text cur.offset cur.rest = some n ∧ 0 < n ∧
        Text.splitBytes? n cur.rest = some (m.image, m.rest) := by
  simp only [tryMatch, Option.bind_eq_bind, Option.bind_eq_some_iff] at h
  obtain ⟨compiled, hLookup, n, hMatch, h⟩ := h
  split at h
  next hPos =>
    obtain ⟨⟨image, rest⟩, hSplit, hFound⟩ := Option.bind_eq_some_iff.mp h
    cases hFound
    exact ⟨rfl, compiled, n, hLookup, hMatch, hPos, hSplit⟩
  · cases h

theorem image_append_rest_of_tryMatch {id : TypeId} (h : l.tryMatch text cur id = some m) :
    m.image ++ m.rest = cur.rest := by
  obtain ⟨-, compiled, n, -, -, -, hSplit⟩ := tryMatch_eq_some h
  exact Text.append_of_splitBytes? hSplit

theorem preferLonger_cases (l : Lexer) (text : List Char) (cur : Cursor) (m : Match) :
    l.preferLonger text cur m = m ∨
      ∃ id ∈ l.longer m.kind, l.tryMatch text cur id = some (l.preferLonger text cur m) := by
  unfold preferLonger
  cases hLonger : (l.longer m.kind).findSome? fun id =>
      (l.tryMatch text cur id).filter fun longer => longer.rest.length < m.rest.length with
  | none => exact .inl rfl
  | some longer =>
    obtain ⟨id, hId, hMatch⟩ := List.exists_of_findSome?_eq_some hLonger
    exact .inr ⟨id, hId, Option.eq_some_of_filter_eq_some hMatch⟩

theorem exists_tryMatch_of_matchFirst {candidates : List TypeId}
    (h : l.matchFirst text cur candidates = some m) : ∃ id, l.tryMatch text cur id = some m := by
  obtain ⟨first, hFirst, rfl⟩ := Option.map_eq_some_iff.mp h
  obtain ⟨id, -, hTried⟩ := List.exists_of_findSome?_eq_some hFirst
  rcases l.preferLonger_cases text cur first with hSame | ⟨longer, -, hLonger⟩
  · exact ⟨id, by rw [hSame, hTried]⟩
  · exact ⟨longer, hLonger⟩

theorem exists_tryMatch_of_matchIn {mode : Mode} (h : l.matchIn text mode cur = some m) :
    ∃ id, l.tryMatch text cur id = some m := by
  unfold matchIn at h
  split at h
  · cases h
  · exact exists_tryMatch_of_matchFirst h

theorem image_append_rest_of_matchIn {mode : Mode} (h : l.matchIn text mode cur = some m) :
    m.image ++ m.rest = cur.rest := by
  obtain ⟨id, hMatch⟩ := exists_tryMatch_of_matchIn h
  exact image_append_rest_of_tryMatch hMatch

theorem Cursor.IsAt.finishToken (h : cur.IsAt text) (hMatch : m.image ++ m.rest = cur.rest) :
    (l.finishToken cur m).1.IsAt text :=
  h.advance hMatch _ _

theorem append_finishToken {front : List Char} (hText : text = front ++ cur.rest)
    (hOffset : Text.byteLength front = cur.offset) (hMatch : m.image ++ m.rest = cur.rest) :
    text = (front ++ m.image) ++ (l.finishToken cur m).1.rest ∧
      Text.byteLength (front ++ m.image) = (l.finishToken cur m).1.offset := by
  constructor
  · rw [rest_finishToken, List.append_assoc, hMatch, hText]
  · rw [Text.byteLength_append, hOffset, finishToken, Cursor.offset_advance]

/-! ## Skipped characters -/

theorem Cursor.IsAt.skipUnmatched {mode : Mode} (h : cur.IsAt text) (hRest : cur.rest = cs) :
    (l.skipUnmatched text mode cur cs).1.IsAt text := by
  induction cs generalizing cur with
  | nil => exact h
  | cons c cs ih =>
    rw [Lexer.skipUnmatched]
    split
    · exact h
    · exact ih (h.advance hRest.symm _ _) (rest_advance _ _ _ _ _)

theorem Cursor.IsAt.skip {mode : Mode} (h : cur.IsAt text) (hRest : cur.rest = c :: cs) :
    (l.skip text mode cur c cs).1.IsAt text := by
  have hNext : (cur.advance l.config [c] cs true).1.IsAt text := h.advance hRest.symm _ _
  simp only [Lexer.skip]
  split
  · exact hNext.skipUnmatched (rest_advance _ _ _ _ _)
  · exact hNext

/-! ## One segment after the other -/

variable {modes : List Nat}

theorem segments_end (h : cur.rest = []) : l.segments text modes cur = [] := by
  rw [segments]
  split
  · rfl
  · next hRest =>
    rw [h] at hRest
    cases hRest

theorem segments_token (hRest : cur.rest = c :: cs)
    (hMatch : l.matchIn text (l.mode (modes.headD 0)) cur = some m) :
    l.segments text modes cur =
      .token (l.finishToken cur m).2 modes (l.popsMode m.kind && modes.length ≤ 1) ::
        l.segments text (l.switchModes m.kind modes) (l.finishToken cur m).1 := by
  rw [segments]
  split
  · next hNone =>
    rw [hRest] at hNone
    cases hNone
  · simp only
    split
    · next hFound =>
      rw [hMatch] at hFound
      cases hFound
      rfl
    · next hFound =>
      rw [hMatch] at hFound
      cases hFound

theorem segments_skipped (hRest : cur.rest = c :: cs)
    (hMatch : l.matchIn text (l.mode (modes.headD 0)) cur = none) :
    l.segments text modes cur =
      .skipped (.unexpected (l.skip text (l.mode (modes.headD 0)) cur c cs).2 cur.offset
        (Cursor.shown l.config cur.position)) ::
        if l.config.recovery then
          l.segments text modes (l.skip text (l.mode (modes.headD 0)) cur c cs).1
        else [] := by
  rw [segments]
  split
  · next hNone =>
    rw [hRest] at hNone
    cases hNone
  · next hSame =>
    rw [hRest] at hSame
    cases hSame
    simp only
    split
    · next hFound =>
      rw [hMatch] at hFound
      cases hFound
    · rfl

/-! ## Runs as traces -/

/-- The segments that a run cuts off from a cursor on, with some modes in force there. -/
inductive Cuts (l : Lexer) (text : List Char) : List Nat → Cursor → List Segment → Prop
  | done {modes : List Nat} {cur : Cursor} (hRest : cur.rest = []) : Cuts l text modes cur []
  | token {modes : List Nat} {cur : Cursor} {m : Match} {segments : List Segment}
    (hMatch : l.matchIn text (l.mode (modes.headD 0)) cur = some m)
    (hBehind : Cuts l text (l.switchModes m.kind modes) (l.finishToken cur m).1 segments) :
    Cuts l text modes cur
      (.token (l.finishToken cur m).2 modes (l.popsMode m.kind && modes.length ≤ 1) :: segments)
  | skipped {modes : List Nat} {cur : Cursor} {c : Char} {cs : List Char} {segments : List Segment}
    (hRest : cur.rest = c :: cs) (hMatch : l.matchIn text (l.mode (modes.headD 0)) cur = none)
    (hRecovery : l.config.recovery = true)
    (hBehind : Cuts l text modes (l.skip text (l.mode (modes.headD 0)) cur c cs).1 segments) :
    Cuts l text modes cur
      (.skipped (.unexpected (l.skip text (l.mode (modes.headD 0)) cur c cs).2 cur.offset
        (Cursor.shown l.config cur.position)) :: segments)
  | stopped {modes : List Nat} {cur : Cursor} {c : Char} {cs : List Char}
    (hRest : cur.rest = c :: cs) (hMatch : l.matchIn text (l.mode (modes.headD 0)) cur = none)
    (hRecovery : l.config.recovery = false) :
    Cuts l text modes cur
      [.skipped (.unexpected (l.skip text (l.mode (modes.headD 0)) cur c cs).2 cur.offset
        (Cursor.shown l.config cur.position))]

/-- By induction on what is left of the text; each segment takes some of it. -/
theorem cuts_segments (l : Lexer) (text : List Char) (modes : List Nat) (cur : Cursor) :
    l.Cuts text modes cur (l.segments text modes cur) := by
  induction hLength : cur.rest.length using Nat.strongRecOn generalizing modes cur with
  | ind n ih =>
    subst hLength
    cases hRest : cur.rest with
    | nil =>
      rw [segments_end hRest]
      exact .done hRest
    | cons c cs =>
      cases hMatch : l.matchIn text (l.mode (modes.headD 0)) cur with
      | some m =>
        have hShorter := length_rest_of_matchIn hMatch
        rw [segments_token hRest hMatch]
        exact .token hMatch (ih _ (by rwa [rest_finishToken]) _ _ rfl)
      | none =>
        have hShorter := length_rest_skip l text (l.mode (modes.headD 0)) cur c cs
        rw [segments_skipped hRest hMatch]
        cases hRecovery : l.config.recovery with
        | true =>
          rw [if_pos rfl]
          exact .skipped hRest hMatch hRecovery
            (ih _ (by rw [hRest]; exact Nat.lt_succ_of_le hShorter) _ _ rfl)
        | false =>
          rw [if_neg (by simp)]
          exact .stopped hRest hMatch hRecovery

/-- The modes in force behind some segments. Tokens of every group can switch them. -/
def modesBehind (l : Lexer) (modes : List Nat) (segments : List Segment) : List Nat :=
  (segments.filterMap Segment.token?).foldl (fun modes t => l.switchModes t.kind modes) modes

theorem Cuts.exists_at {before after : List Segment} {s : Segment}
    (h : l.Cuts text modes cur (before ++ s :: after)) (hAt : cur.IsAt text) :
    ∃ there : Cursor,
      there.IsAt text ∧ l.Cuts text (l.modesBehind modes before) there (s :: after) := by
  induction before generalizing modes cur with
  | nil => exact ⟨cur, hAt, h⟩
  | cons first before ih =>
    rw [List.cons_append] at h
    generalize hSegments : before ++ s :: after = segments at h
    cases h with
    | token hMatch hBehind =>
      subst hSegments
      exact ih hBehind (hAt.finishToken (image_append_rest_of_matchIn hMatch))
    | skipped hRest hMatch hRecovery hBehind =>
      subst hSegments
      exact ih hBehind (hAt.skip hRest)
    | stopped hRest hMatch hRecovery => simp at hSegments

end Lexer

end PredictiveParsing
