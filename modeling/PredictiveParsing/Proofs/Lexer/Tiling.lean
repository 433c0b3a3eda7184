import Mathlib.Data.List.Basic
import PredictiveParsing.Proofs.Lexer.Segments
import PredictiveParsing.Regex.Library

/-!
# The segments of a run tile the text

One segment begins where the one before it ends, none is empty, and each is the part of the text
that its span says. Only a run without recovery can end before the text does, behind the first
character that no type matches.
-/

namespace PredictiveParsing

namespace Text

variable {text front image rest : List Char} {start stop : Nat}

theorem slice?_of_append (hText : text = front ++ (image ++ rest))
    (hStart : byteLength front = start) :
    slice? text start (start + byteLength image) = some image := by
  subst hText hStart
  simp only [slice?, splitBytes?_byteLength_append, Option.bind_eq_bind, Option.bind_some,
    Nat.le_add_right, if_true, Nat.add_sub_cancel_left]
  rfl

theorem splitBytes?_of_slice? (h : slice? text start stop = some image)
    (hFront : splitBytes? start text = some (front, rest)) :
    ∃ behind, rest = image ++ behind ∧ splitBytes? stop text = some (front ++ image, behind) := by
  simp only [slice?, Option.bind_eq_bind, hFront, Option.bind_some] at h
  split at h
  next hLe =>
    obtain ⟨⟨image', behind⟩, hImage, hSame⟩ := Option.bind_eq_some_iff.mp h
    cases hSame
    have hRest := append_of_splitBytes? hImage
    have hStop : byteLength (front ++ image') = stop := by
      rw [byteLength_append, byteLength_of_splitBytes? hFront, byteLength_of_splitBytes? hImage]
      omega
    refine ⟨behind, hRest.symm, ?_⟩
    rw [← append_of_splitBytes? hFront, ← hRest, ← List.append_assoc, ← hStop]
    exact splitBytes?_byteLength_append _ _
  · cases h

theorem byteLength_of_slice? (h : slice? text start stop = some image) :
    byteLength image = stop - start := by
  simp only [slice?, Option.bind_eq_bind, Option.bind_eq_some_iff] at h
  obtain ⟨⟨front, rest⟩, -, h⟩ := h
  split at h
  · obtain ⟨⟨image', behind⟩, hImage, hSame⟩ := Option.bind_eq_some_iff.mp h
    cases hSame
    exact byteLength_of_splitBytes? hImage
  · cases h

end Text

def LexicalError.isUnexpected : LexicalError → Bool
  | .unexpected _ _ _ => true
  | _ => false

namespace Lexer

namespace Segment

def span : Segment → Span
  | .token t _ _ => t.span
  | .skipped e => e.span

def image : Segment → List Char
  | .token t _ _ => t.image.toList
  | .skipped (.unexpected stretch _ _) => stretch
  | .skipped _ => []

def unexpected? : Segment → Option LexicalError
  | .token _ _ _ => none
  | .skipped e => some e

/-- Segments that stand next to each other from one offset up to another one. None is empty, and
each is the part of the text that its span says, so characters begin and end there. -/
def Tile (text : List Char) : Nat → List Segment → Nat → Prop
  | start, [], stop => start = stop
  | start, s :: rest, stop =>
    s.span.start = start ∧ start < s.span.stop ∧ s.span.text? text = some s.image ∧
      Tile text s.span.stop rest stop

variable {text front rest : List Char} {start stop : Nat} {segments : List Segment}

theorem Tile.le_start (h : Tile text start segments stop) :
    ∀ s ∈ segments, start ≤ s.span.start := by
  induction segments generalizing start with
  | nil => exact fun s hs => by cases hs
  | cons s segments ih =>
    obtain ⟨rfl, hLt, -, hRest⟩ := h
    refine List.forall_mem_cons.mpr ⟨Nat.le_refl _, fun x hx => ?_⟩
    exact Nat.le_of_lt (Nat.lt_of_lt_of_le hLt (ih hRest x hx))

theorem Tile.flatMap_image (h : Tile text start segments stop)
    (hFront : Text.splitBytes? start text = some (front, rest)) :
    ∃ behind, rest = segments.flatMap image ++ behind ∧
      Text.splitBytes? stop text = some (front ++ segments.flatMap image, behind) := by
  induction segments generalizing start front rest with
  | nil =>
    obtain rfl : start = stop := h
    exact ⟨rest, rfl, by simpa using hFront⟩
  | cons s segments ih =>
    obtain ⟨rfl, -, hText, hRest⟩ := h
    obtain ⟨next, rfl, hNext⟩ := Text.splitBytes?_of_slice? hText hFront
    obtain ⟨behind, rfl, hBehind⟩ := ih hRest hNext
    refine ⟨behind, ?_, ?_⟩
    · rw [List.flatMap_cons, List.append_assoc]
    · rw [List.flatMap_cons, ← List.append_assoc]
      exact hBehind

theorem Tile.flatMap_image_eq (h : Tile text 0 segments (Text.byteLength text)) :
    segments.flatMap image = text := by
  have hWhole := Text.splitBytes?_byteLength_append text []
  rw [List.append_nil] at hWhole
  have hNone : Text.splitBytes? 0 text = some ([], text) := by cases text <;> rfl
  obtain ⟨behind, -, hSplit⟩ := h.flatMap_image hNone
  rw [hWhole] at hSplit
  exact (congrArg Prod.fst (Option.some.inj hSplit)).symm

end Segment

variable {l : Lexer} {text cs : List Char} {cur : Cursor} {c : Char} {m : Match} {mode : Mode}
  {modes : List Nat}

/-! ## What is skipped -/

theorem skipped_append_rest_skipUnmatched (hRest : cur.rest = cs) :
    (l.skipUnmatched text mode cur cs).2 ++ (l.skipUnmatched text mode cur cs).1.rest = cs := by
  induction cs generalizing cur with
  | nil => simpa [skipUnmatched] using hRest
  | cons c cs ih =>
    rw [skipUnmatched]
    split
    · exact hRest
    · exact congrArg (c :: ·) (ih (Cursor.rest_advance _ _ _ _ _))

theorem offset_skipUnmatched : (l.skipUnmatched text mode cur cs).1.offset =
    cur.offset + Text.byteLength (l.skipUnmatched text mode cur cs).2 := by
  induction cs generalizing cur with
  | nil => simp [skipUnmatched]
  | cons c cs ih =>
    rw [skipUnmatched]
    split
    · simp
    · simp only [ih, Cursor.offset_advance, Text.byteLength_cons, Text.byteLength_nil]
      omega

theorem skipped_append_rest_skip :
    (l.skip text mode cur c cs).2 ++ (l.skip text mode cur c cs).1.rest = c :: cs := by
  simp only [skip]
  split
  · exact congrArg (c :: ·) (skipped_append_rest_skipUnmatched (Cursor.rest_advance _ _ _ _ _))
  · simp

theorem offset_skip : (l.skip text mode cur c cs).1.offset =
    cur.offset + Text.byteLength (l.skip text mode cur c cs).2 := by
  simp only [skip]
  split
  · simp only [offset_skipUnmatched, Cursor.offset_advance, Text.byteLength_cons,
      Text.byteLength_nil]
    omega
  · simp

theorem skipped_ne_nil : (l.skip text mode cur c cs).2 ≠ [] := by
  simp only [skip]
  split <;> exact List.cons_ne_nil _ _

theorem skipped_of_recovery (h : l.config.recovery = false) :
    (l.skip text mode cur c cs).2 = [c] := by
  simp [skip, h]

/-! ## Every segment is a tile -/

theorem Cursor.IsAt.text? {image rest : List Char} (h : cur.IsAt text)
    (hImage : image ++ rest = cur.rest) :
    (⟨cur.offset, cur.offset + Text.byteLength image⟩ : Span).text? text = some image := by
  obtain ⟨front, hText, hOffset⟩ := h
  exact Text.slice?_of_append (hImage ▸ hText) hOffset

theorem image_ne_nil_of_matchIn (h : l.matchIn text mode cur = some m) : m.image ≠ [] := by
  intro hNone
  have hSame := image_append_rest_of_matchIn h
  have hLt := length_rest_of_matchIn h
  rw [hNone, List.nil_append] at hSame
  exact absurd (congrArg List.length hSame) (Nat.ne_of_lt hLt)

theorem tile_token {segments : List Segment} {stop : Nat} {stuck : Bool} (hAt : cur.IsAt text)
    (hMatch : l.matchIn text mode cur = some m)
    (h : Segment.Tile text (l.finishToken cur m).1.offset segments stop) :
    Segment.Tile text cur.offset (.token (l.finishToken cur m).2 modes stuck :: segments) stop := by
  have hPos := Text.byteLength_pos (image_ne_nil_of_matchIn hMatch)
  refine ⟨rfl, Nat.lt_add_of_pos_right hPos, ?_, ?_⟩
  · rw [Segment.image, finishToken, String.toList_ofList]
    exact hAt.text? (image_append_rest_of_matchIn hMatch)
  · rwa [finishToken, Cursor.offset_advance] at h

theorem tile_skipped {segments : List Segment} {stop : Nat} {start : Option LineCol}
    (hAt : cur.IsAt text) (hRest : cur.rest = c :: cs)
    (h : Segment.Tile text (l.skip text mode cur c cs).1.offset segments stop) :
    Segment.Tile text cur.offset
      (.skipped (.unexpected (l.skip text mode cur c cs).2 cur.offset start) :: segments) stop := by
  refine ⟨rfl, Nat.lt_add_of_pos_right (Text.byteLength_pos skipped_ne_nil), ?_, ?_⟩
  · exact hAt.text? (skipped_append_rest_skip.trans hRest.symm)
  · rwa [offset_skip] at h

/-- The segments from one offset to another one are all of a run from there on: nothing of the text
is left, or the run has ended with one unexpected character. -/
structure Segmentation (l : Lexer) (text : List Char) (start : Nat) (segments : List Segment)
    (stop : Nat) : Prop where
  tile : Segment.Tile text start segments stop
  ends : stop = Text.byteLength text ∧
      (l.config.recovery = false → segments.filterMap Segment.unexpected? = []) ∨
    l.config.recovery = false ∧ ∃ tokens c offset position,
      segments = tokens ++ [.skipped (.unexpected [c] offset position)] ∧
        tokens.filterMap Segment.unexpected? = []

theorem Segmentation.cons_token {segments : List Segment} {start next stop : Nat} {t : Token}
    {stuck : Bool} (h : l.Segmentation text next segments stop)
    (hTile : Segment.Tile text start (.token t modes stuck :: segments) stop) :
    l.Segmentation text start (.token t modes stuck :: segments) stop := by
  refine ⟨hTile, ?_⟩
  rcases h.ends with hAll | ⟨hOff, tokens, c, offset, position, rfl, hTokens⟩
  · exact .inl hAll
  · exact .inr ⟨hOff, _ :: tokens, c, offset, position, rfl, hTokens⟩

theorem Cuts.segmentation {segments : List Segment} (h : l.Cuts text modes cur segments)
    (hAt : cur.IsAt text) :
    segments.length ≤ cur.rest.length ∧ ∃ stop, l.Segmentation text cur.offset segments stop := by
  induction h with
  | @done modes cur hRest =>
    obtain ⟨front, hText, hOffset⟩ := hAt
    rw [hRest, List.append_nil] at hText
    exact ⟨Nat.zero_le _, cur.offset, rfl, .inl ⟨by rw [hText, hOffset], fun _ => rfl⟩⟩
  | @token modes cur m segments hMatch hBehind ih =>
    have hShorter := length_rest_of_matchIn hMatch
    obtain ⟨hCount, stop, hSegments⟩ :=
      ih (hAt.finishToken (image_append_rest_of_matchIn hMatch))
    rw [rest_finishToken] at hCount
    refine ⟨?_, stop, hSegments.cons_token (tile_token hAt hMatch hSegments.tile)⟩
    rw [List.length_cons]
    omega
  | @skipped modes cur c cs segments hRest hMatch hRecovery hBehind ih =>
    have hShorter := length_rest_skip l text (l.mode (modes.headD 0)) cur c cs
    obtain ⟨hCount, stop, hTile, hEnds⟩ := ih (hAt.skip hRest)
    refine ⟨?_, stop, tile_skipped hAt hRest hTile, ?_⟩
    · rw [hRest, List.length_cons, List.length_cons]
      omega
    · rcases hEnds with ⟨hStop, -⟩ | ⟨hOff, -⟩
      · exact .inl ⟨hStop, fun hOff => absurd (hRecovery.symm.trans hOff) (by simp)⟩
      · exact absurd (hRecovery.symm.trans hOff) (by simp)
  | @stopped modes cur c cs hRest hMatch hRecovery =>
    have hTile : Segment.Tile text cur.offset [.skipped (.unexpected
        (l.skip text (l.mode (modes.headD 0)) cur c cs).2 cur.offset
        (Cursor.shown l.config cur.position))] _ :=
      tile_skipped hAt hRest rfl
    rw [skipped_of_recovery hRecovery] at hTile ⊢
    refine ⟨?_, _, hTile, .inr ⟨hRecovery, [], c, cur.offset, _, rfl, rfl⟩⟩
    rw [hRest, List.length_singleton]
    exact Nat.le_add_left _ _

theorem segmentation_segments (hAt : cur.IsAt text) :
    (l.segments text modes cur).length ≤ cur.rest.length ∧
      ∃ stop, l.Segmentation text cur.offset (l.segments text modes cur) stop :=
  (cuts_segments l text modes cur).segmentation hAt

/-! ## The result of a run -/

theorem Segment.Tile.image_ne_nil {segments : List Segment} {start stop : Nat}
    (h : Segment.Tile text start segments stop) : ∀ s ∈ segments, s.image ≠ [] := by
  induction segments generalizing start with
  | nil => exact fun s hs => by cases hs
  | cons s segments ih =>
    obtain ⟨rfl, hPos, hText, hRest⟩ := h
    refine List.forall_mem_cons.mpr ⟨fun hNone => ?_, ih hRest⟩
    have hLength := Text.byteLength_of_slice? hText
    rw [hNone, Text.byteLength_nil] at hLength
    omega

theorem unexpected_resultOf {segments : List Segment} (h : ∀ s ∈ segments, s.image ≠ []) :
    (l.resultOf segments).errors.filter (·.isUnexpected) =
      segments.filterMap Segment.unexpected? := by
  rw [resultOf, List.filter_filterMap]
  refine List.filterMap_congr fun s hs => ?_
  cases s with
  | token t modes stuck => cases stuck <;> rfl
  | skipped e =>
    cases e with
    | unexpected stretch offset start => rfl
    | emptyModeStack | inputTooLarge => exact absurd rfl (h _ hs)

/-- The pieces that a run cuts a text into, with a mode in force at its beginning. -/
def cut (l : Lexer) (text : List Char) (mode : Nat) : List Segment :=
  l.segments text [mode] (.start text)

theorem exists_at_of_cut {start : Nat} {before after : List Segment} {s : Segment}
    (h : l.cut text start = before ++ s :: after) :
    ∃ there : Cursor,
      there.IsAt text ∧ l.Cuts text (l.modesBehind [start] before) there (s :: after) :=
  Cuts.exists_at (h ▸ cuts_segments l text [start] (.start text)) (Cursor.isAt_start text)

/-- The pieces of a run tile the text, or its front up to the only unexpected character of a run
without recovery. -/
structure Tiles (l : Lexer) (text : List Char) (mode : Nat) : Prop where
  result : l.run text mode = l.resultOf (l.cut text mode)
  length_le : (l.cut text mode).length ≤ text.length
  unexpected : (l.run text mode).errors.filter (·.isUnexpected) =
    (l.cut text mode).filterMap Segment.unexpected?
  recovering : l.config.recovery = true →
    Segment.Tile text 0 (l.cut text mode) (Text.byteLength text)
  stopping : l.config.recovery = false →
    (l.run text mode).errors.filter (·.isUnexpected) = [] ∧
      Segment.Tile text 0 (l.cut text mode) (Text.byteLength text) ∨
    ∃ tokens c offset position,
      (l.run text mode).errors.filter (·.isUnexpected) = [.unexpected [c] offset position] ∧
      l.cut text mode = tokens ++ [.skipped (.unexpected [c] offset position)] ∧
      Segment.Tile text 0 (l.cut text mode) (offset + c.utf8Size)

theorem tiles_last {segments : List Segment} {s : Segment} {start stop : Nat}
    (h : Segment.Tile text start (segments ++ [s]) stop) : stop = s.span.stop := by
  induction segments generalizing start with
  | nil => exact h.2.2.2.symm
  | cons other segments ih => exact ih h.2.2.2

/-- A run ends, and cuts a text that is not too large into pieces that tile it, whatever the
matchers of its types answer. -/
theorem run_tiles (l : Lexer) {text : List Char}
    (hSize : Text.byteLength text ≤ LexicalError.maxBytes) (mode : Nat) : l.Tiles text mode := by
  have hResult : l.run text mode = l.resultOf (l.cut text mode) :=
    if_neg (Nat.not_lt.mpr hSize)
  obtain ⟨hCount, stop, hTile, hEnds⟩ : (l.cut text mode).length ≤ text.length ∧
      ∃ stop, l.Segmentation text 0 (l.cut text mode) stop :=
    segmentation_segments (Cursor.isAt_start text)
  have hUnexpected : (l.run text mode).errors.filter (·.isUnexpected) =
      (l.cut text mode).filterMap Segment.unexpected? := by
    rw [hResult]
    exact unexpected_resultOf hTile.image_ne_nil
  refine ⟨hResult, hCount, hUnexpected, fun hOn => ?_, fun hOff => ?_⟩
  · rcases hEnds with ⟨rfl, -⟩ | ⟨hOff, -⟩
    · exact hTile
    · exact absurd (hOn.symm.trans hOff) (by simp)
  · rcases hEnds with ⟨rfl, hNone⟩ | ⟨-, tokens, c, offset, position, hSegments, hTokens⟩
    · exact .inl ⟨hUnexpected.trans (hNone hOff), hTile⟩
    · refine .inr ⟨tokens, c, offset, position, ?_, hSegments, ?_⟩
      · rw [hUnexpected, hSegments, List.filterMap_append, hTokens]
        rfl
      · rw [hSegments] at hTile
        obtain rfl := tiles_last hTile
        rw [hSegments]
        exact hTile

namespace BadLengths

/-- A matcher that cuts a character in two, and then answers more than is left of the text. -/
def broken : CustomPattern where
  matchAt text offset := some (if offset = 0 then 1 else Text.byteLength text + 1)
  startChars := some ['é', 'x']

def types : List TokenType := [.new "Broken" (.custom broken), .literal "X" "x"]

end BadLengths

/-- Lengths at which no character ends are no matches. -/
theorem run_tiles_badLengths : ∃ l, build (.ofTypes BadLengths.types) (.single [1, 2]) {} = .ok l ∧
    Text.byteLength "éx".toList ≤ LexicalError.maxBytes ∧ l.Tiles "éx".toList 0 := by
  have hAccepted : definitionErrors (.ofTypes BadLengths.types) (.single [1, 2]) {} = [] := by
    decide +kernel
  have hSize : Text.byteLength "éx".toList ≤ LexicalError.maxBytes := by decide
  cases hBuild : build (.ofTypes BadLengths.types) (.single [1, 2]) {} with
  | error e =>
    rw [build, hAccepted] at hBuild
    cases hBuild
  | ok l => exact ⟨l, rfl, hSize, run_tiles l hSize 0⟩

end Lexer

end PredictiveParsing
