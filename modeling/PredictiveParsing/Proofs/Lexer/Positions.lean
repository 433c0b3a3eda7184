import PredictiveParsing.Proofs.Lexer.Groups
import PredictiveParsing.Proofs.Lexer.LineBreaks
import PredictiveParsing.Proofs.PatternFacts

/-!
# Positions of tokens and errors are those of their characters

Only the tokens of types that can have line breaks are looked through for them, and what is skipped
is looked through one character after the other. Both keep to the positions that the text alone
tells, unless a pair of a carriage return and a line feed is cut in two or skipped.
-/

namespace PredictiveParsing

open LineCol (atIndex)
open Text (beginsPair IsBetween)

/-- Tokens of a type are looked through if they can have line breaks: its definition asks for it, or
leaves it to the pattern, which is not a custom one. -/
def TokenType.LooksForBreaks (t : TokenType) : Prop :=
  t.lineBreaks = some true ∨ t.lineBreaks = none ∧ ∀ p, t.pattern ≠ .custom p

/-- A token has the positions of its first and its last character. -/
def Token.HasPositions (terminators text : List Char) (t : Token) : Prop :=
  ∃ front image rest, text = front ++ image ++ rest ∧ image ≠ [] ∧
    t.span = ⟨Text.byteLength front, Text.byteLength (front ++ image)⟩ ∧
    t.start = some (atIndex terminators text front.length) ∧
    t.stop = some (atIndex terminators text (front.length + image.length - 1))

def LexicalError.HasPosition (terminators text : List Char) (e : LexicalError) : Prop :=
  ∃ front c rest, text = front ++ c :: rest ∧ e.span.start = Text.byteLength front ∧
    e.start = some (atIndex terminators text front.length)

namespace Lexer

variable {l : Lexer} {v : Vocabulary} {d : LexerDefinition} {config : LexerConfig}
  {terminators text front stretch rest cs : List Char} {cur : Cursor} {c : Char} {mode : Mode}
  {m : Match} {modes : List Nat} {segments : List Segment} {offset stop : Nat}

/-! ## Pairs -/

/-- Every pair of a carriage return and a line feed that ends behind an offset is in a token. -/
def PairsInTokens (text : List Char) (offset : Nat) (segments : List Segment) : Prop :=
  ∀ front rest, text = front ++ '\r' :: '\n' :: rest → offset < Text.byteLength front + 2 →
    ∃ t ∈ segments.filterMap Segment.token?,
      t.span.start ≤ Text.byteLength front ∧ Text.byteLength front + 2 ≤ t.span.stop

theorem PairsInTokens.behind_token {t : Token} {stuck : Bool}
    (h : PairsInTokens text offset (.token t modes stuck :: segments))
    (hLe : offset ≤ t.span.stop) : PairsInTokens text t.span.stop segments := by
  intro front rest hText hBehind
  obtain ⟨u, hu, hStart, hStop⟩ := h front rest hText (by omega)
  rcases List.mem_cons.mp hu with rfl | hLater
  · omega
  · exact ⟨u, hLater, hStart, hStop⟩

theorem PairsInTokens.behind_skipped {e : LexicalError}
    (h : PairsInTokens text offset (.skipped e :: segments)) (hLe : offset ≤ stop) :
    PairsInTokens text stop segments := by
  intro front rest hText hBehind
  exact h front rest hText (by omega)

theorem byteLength_le_of_prefix (h : front <+: text) :
    Text.byteLength front ≤ Text.byteLength text := by
  obtain ⟨rest, rfl⟩ := h
  rw [Text.byteLength_append]
  exact Nat.le_add_right _ _

theorem byteLength_append_return (before : List Char) :
    Text.byteLength (before ++ ['\r']) = Text.byteLength before + 1 := by
  rw [Text.byteLength_append]
  rfl

theorem PairsInTokens.le_byteLength (h : PairsInTokens text offset segments) {start : Nat}
    (hTile : Segment.Tile text start segments stop) (hText : text = front ++ '\r' :: '\n' :: rest)
    (hBehind : offset < Text.byteLength front + 2) : start ≤ Text.byteLength front := by
  obtain ⟨t, ht, hStart, -⟩ := h front rest hText hBehind
  exact Nat.le_trans (hTile.pairwise.1 t ht) hStart

theorem isBetween_of_tile (hTile : Segment.Tile text offset segments stop)
    (hPairs : PairsInTokens text offset segments) (hText : text = front ++ rest)
    (hOffset : Text.byteLength front = offset) : IsBetween terminators text front.length := by
  intro j hj
  refine Bool.eq_false_iff.mpr fun hPair => ?_
  obtain ⟨-, before, behind, hSplit, rfl⟩ := Text.beginsPair_iff.mp hPair
  -- A pair that is cut here begins one byte in front, where the segments that are left are not.
  have hFront : front = before ++ ['\r'] := by
    have hSame : front ++ rest = (before ++ ['\r']) ++ '\n' :: behind := by
      rw [← hText, hSplit, List.append_assoc]
      rfl
    exact (List.append_inj hSame (by simp [← hj])).1
  have hReturn := byteLength_append_return before
  rw [← hFront] at hReturn
  have hLe := hPairs.le_byteLength hTile hSplit (by omega)
  omega

theorem beginsPair_of_tile
    (hTile : Segment.Tile text (Text.byteLength (front ++ stretch)) segments stop)
    (hPairs : PairsInTokens text (Text.byteLength front) segments)
    (hText : text = front ++ stretch ++ rest) {j : Nat} (hBegin : front.length ≤ j)
    (hEnd : j < front.length + stretch.length) : beginsPair terminators text j = false := by
  refine Bool.eq_false_iff.mpr fun hPair => ?_
  obtain ⟨-, before, behind, hSplit, rfl⟩ := Text.beginsPair_iff.mp hPair
  have hBefore : before <+: text := ⟨_, hSplit.symm⟩
  have hReturn : before ++ ['\r'] <+: text :=
    ⟨'\n' :: behind, by rw [hSplit, List.append_assoc]; rfl⟩
  have hFront : front <+: text := ⟨stretch ++ rest, by rw [hText, List.append_assoc]⟩
  have hStretch : front ++ stretch <+: text := ⟨rest, hText.symm⟩
  have hLow := byteLength_le_of_prefix (List.prefix_of_prefix_length_le hFront hBefore hBegin)
  have hHigh := byteLength_le_of_prefix (List.prefix_of_prefix_length_le hReturn hStretch
    (by rw [List.length_append, List.length_append]; exact hEnd))
  rw [byteLength_append_return] at hHigh
  have hLe := hPairs.le_byteLength hTile hSplit (by omega)
  omega

/-! ## Steps of the cursor -/

/-- A cursor stands behind a part of a text with the position of the next character, and no pair is
cut in two there or begins at one of the next `n` characters. -/
structure Passes (l : Lexer) (text front : List Char) (cur : Cursor) (n : Nat) : Prop where
  text_eq : text = front ++ cur.rest
  position : cur.position = atIndex l.config.lineTerminators text front.length
  between : IsBetween l.config.lineTerminators text front.length
  single : ∀ j, front.length ≤ j → j < front.length + n →
    beginsPair l.config.lineTerminators text j = false

section Steps

variable {n : Nat} (hTracking : l.config.positionTracking = .full)
include hTracking

theorem Passes.next (h : l.Passes text front cur (n + 1)) (hRest : cur.rest = c :: cs) :
    l.Passes text (front ++ [c]) (cur.advance l.config [c] cs true).1 n := by
  have hDrop : text.drop front.length = [c] ++ cs := by
    rw [h.text_eq, List.drop_left, hRest]
    rfl
  have hSingle := h.single front.length (Nat.le_refl _) (by omega)
  have hLength : (front ++ [c]).length = front.length + 1 := List.length_append
  constructor
  case text_eq =>
    rw [Cursor.rest_advance, List.append_assoc, h.text_eq, hRest]
    rfl
  case position =>
    rw [hLength]
    exact (Cursor.advance_atIndex hTracking hDrop (List.cons_ne_nil c []) h.between
      (Text.isBetween_succ.mpr hSingle) (fun hOff => by cases hOff) h.position).1
  case between =>
    rw [hLength]
    exact Text.isBetween_succ.mpr hSingle
  case single =>
    intro j hLe hLt
    exact h.single j (by omega) (by omega)

theorem Passes.skipUnmatched (hRest : cur.rest = cs)
    (h : l.Passes text front cur (l.skipUnmatched text mode cur cs).2.length) :
    (l.skipUnmatched text mode cur cs).1.position = atIndex l.config.lineTerminators text
      (front ++ (l.skipUnmatched text mode cur cs).2).length := by
  induction cs generalizing front cur with
  | nil =>
    rw [Lexer.skipUnmatched, List.append_nil]
    exact h.position
  | cons c cs ih =>
    rw [Lexer.skipUnmatched] at h ⊢
    split at h
    · next hFound =>
      rw [if_pos hFound, List.append_nil]
      exact h.position
    · next hMissing =>
      have hFurther := ih (Cursor.rest_advance _ _ _ _ _) (h.next hTracking hRest)
      rw [List.append_assoc] at hFurther
      rw [if_neg hMissing]
      exact hFurther

theorem Passes.skip (hRest : cur.rest = c :: cs)
    (h : l.Passes text front cur (l.skip text mode cur c cs).2.length) :
    (l.skip text mode cur c cs).1.position = atIndex l.config.lineTerminators text
      (front ++ (l.skip text mode cur c cs).2).length := by
  simp only [Lexer.skip] at h ⊢
  split at h
  · next hOn =>
    have hFurther :=
      (h.next hTracking hRest).skipUnmatched hTracking (Cursor.rest_advance _ _ _ _ _)
    rw [List.append_assoc] at hFurther
    rw [if_pos hOn]
    exact hFurther
  · next hOff =>
    rw [if_neg hOff]
    exact (h.next hTracking hRest).position

end Steps

/-! ## Runs -/

def Segment.HasPositions (terminators text : List Char) : Segment → Prop
  | .token t _ _ => t.HasPositions terminators text
  | .skipped e => e.HasPosition terminators text

theorem not_mem_of_tryMatch [RegexLibrary] (hLaws : RegexLibrary.Lawful)
    (h : build v d config = .ok l)
    (hTypes : ∀ id ∈ d.used, ∀ type, v.type? id = some type → type.LooksForBreaks) {id : TypeId}
    (hTried : l.tryMatch text cur id = some m) (hBreaks : l.hasLineBreaks m.kind = false) :
    ∀ c ∈ m.image, c ∉ config.lineTerminators := by
  obtain ⟨-, rfl⟩ := eq_of_build h
  obtain ⟨rfl, compiled, n, hLookup, hMatch, -, hSplit⟩ := tryMatch_eq_some hTried
  obtain ⟨hUsed, type, hType, hCompile⟩ := compile_of_lookup hLookup
  simp only [hasLineBreaks, Lexer.type?, hType, hLookup, Option.bind_some, Option.map_some]
    at hBreaks
  rcases hTypes m.kind hUsed type hType with hStated | ⟨hOpen, hCustom⟩
  · rw [hStated] at hBreaks
    cases hBreaks
  · rw [hOpen] at hBreaks
    exact Pattern.not_mem_of_lineBreaks hLaws hCompile hCustom hBreaks hMatch hSplit

theorem shown_of_full (hTracking : config.positionTracking = .full) (p : LineCol) :
    Cursor.shown config p = some p := by
  rw [Cursor.shown, hTracking]
  rfl

/-- A cursor stands behind a part of a text with the position of the next character, and the pairs
that are left of the text are in the tokens among the segments that are left. -/
structure StandsAt (l : Lexer) (text front : List Char) (cur : Cursor) (segments : List Segment) :
    Prop where
  text_eq : text = front ++ cur.rest
  offset_eq : Text.byteLength front = cur.offset
  position : cur.position = atIndex l.config.lineTerminators text front.length
  pairs : PairsInTokens text cur.offset segments

theorem StandsAt.isAt (h : l.StandsAt text front cur segments) : cur.IsAt text :=
  ⟨front, h.text_eq, h.offset_eq⟩

theorem StandsAt.between (h : l.StandsAt text front cur segments)
    (hTile : Segment.Tile text cur.offset segments stop) :
    IsBetween terminators text front.length :=
  isBetween_of_tile hTile h.pairs h.text_eq h.offset_eq

section Run

variable (hTracking : l.config.positionTracking = .full)
include hTracking

theorem StandsAt.token {stuck : Bool}
    (h : l.StandsAt text front cur (.token (l.finishToken cur m).2 modes stuck :: segments))
    (hMatch : l.matchIn text mode cur = some m)
    (hBreaks : l.hasLineBreaks m.kind = false → ∀ c ∈ m.image, c ∉ l.config.lineTerminators)
    (hTile : Segment.Tile text (l.finishToken cur m).1.offset segments stop) :
    (l.finishToken cur m).2.HasPositions l.config.lineTerminators text ∧
      l.StandsAt text (front ++ m.image) (l.finishToken cur m).1 segments := by
  have hImage := image_append_rest_of_matchIn hMatch
  have hSome := image_ne_nil_of_matchIn hMatch
  obtain ⟨hText, hOffset⟩ := append_finishToken (l := l) h.text_eq h.offset_eq hImage
  have hPairs : PairsInTokens text (l.finishToken cur m).1.offset segments := by
    have hLater := h.pairs.behind_token (Nat.le_add_right _ _)
    rwa [← hOffset, Text.byteLength_append, h.offset_eq]
  have hDrop : text.drop front.length = m.image ++ m.rest := by
    rw [h.text_eq, List.drop_left, hImage]
  have hEnd : IsBetween l.config.lineTerminators text (front.length + m.image.length) := by
    rw [← List.length_append]
    exact isBetween_of_tile hTile hPairs hText hOffset
  obtain ⟨hNext, hLast⟩ := Cursor.advance_atIndex hTracking hDrop hSome
    (h.between (tile_token h.isAt hMatch hTile)) hEnd hBreaks h.position
  constructor
  · refine ⟨front, m.image, m.rest, ?_, hSome, ?_, ?_, ?_⟩
    · rw [List.append_assoc, hImage, h.text_eq]
    · rw [Text.byteLength_append, h.offset_eq]
      rfl
    · rw [finishToken, h.position]
      exact shown_of_full hTracking _
    · exact (if_pos hTracking).trans hLast
  · refine ⟨hText, hOffset, ?_, hPairs⟩
    rw [List.length_append]
    exact hNext

theorem StandsAt.skipped {e : LexicalError} (h : l.StandsAt text front cur (.skipped e :: segments))
    (hRest : cur.rest = c :: cs)
    (hTile : Segment.Tile text (l.skip text mode cur c cs).1.offset segments stop)
    (hHere : Segment.Tile text cur.offset (.skipped e :: segments) stop) :
    l.StandsAt text (front ++ (l.skip text mode cur c cs).2) (l.skip text mode cur c cs).1
      segments := by
  have hText : text =
      (front ++ (l.skip text mode cur c cs).2) ++ (l.skip text mode cur c cs).1.rest := by
    rw [List.append_assoc, skipped_append_rest_skip, ← hRest, h.text_eq]
  have hOffset : Text.byteLength (front ++ (l.skip text mode cur c cs).2) =
      (l.skip text mode cur c cs).1.offset := by
    rw [Text.byteLength_append, h.offset_eq, offset_skip]
  have hPairs := h.pairs.behind_skipped (Nat.le_of_eq h.offset_eq.symm)
  have hPasses : l.Passes text front cur (l.skip text mode cur c cs).2.length := by
    refine ⟨h.text_eq, h.position, h.between hHere, fun j hBegin hEnd => ?_⟩
    exact beginsPair_of_tile (hOffset ▸ hTile) hPairs hText hBegin hEnd
  refine ⟨hText, hOffset, hPasses.skip hTracking hRest, h.pairs.behind_skipped ?_⟩
  rw [offset_skip]
  exact Nat.le_add_right _ _

theorem StandsAt.hasPosition (h : l.StandsAt text front cur segments) (hRest : cur.rest = c :: cs) :
    (LexicalError.unexpected stretch cur.offset
      (Cursor.shown l.config cur.position)).HasPosition l.config.lineTerminators text := by
  refine ⟨front, c, cs, ?_, h.offset_eq.symm, ?_⟩
  · rw [h.text_eq, hRest]
  · rw [LexicalError.start, h.position]
    exact shown_of_full hTracking _

/-- By induction on the run, which keeps the cursor at such places. -/
theorem Cuts.hasPositions (h : l.Cuts text modes cur segments)
    (hBreaks : ∀ cur id m, l.tryMatch text cur id = some m → l.hasLineBreaks m.kind = false →
      ∀ c ∈ m.image, c ∉ l.config.lineTerminators)
    (hStands : l.StandsAt text front cur segments) :
    ∀ s ∈ segments, s.HasPositions l.config.lineTerminators text := by
  induction h generalizing front with
  | done hRest => exact fun s hs => by cases hs
  | token hMatch hBehind ih =>
    obtain ⟨id, hTried⟩ := exists_tryMatch_of_matchIn hMatch
    obtain ⟨-, stop, hTile, -⟩ :=
      hBehind.segmentation (hStands.isAt.finishToken (image_append_rest_of_matchIn hMatch))
    obtain ⟨hToken, hNext⟩ := hStands.token hTracking hMatch (hBreaks _ _ _ hTried) hTile
    exact List.forall_mem_cons.mpr ⟨hToken, ih hNext⟩
  | skipped hRest hMatch hRecovery hBehind ih =>
    obtain ⟨-, stop, hTile, -⟩ := hBehind.segmentation (hStands.isAt.skip hRest)
    have hNext := hStands.skipped hTracking hRest hTile (tile_skipped hStands.isAt hRest hTile)
    exact List.forall_mem_cons.mpr ⟨hStands.hasPosition hTracking hRest, ih hNext⟩
  | stopped hRest hMatch hRecovery =>
    exact List.forall_mem_singleton.mpr (hStands.hasPosition hTracking hRest)

end Run

theorem Segment.HasPositions.error? {s : Segment} {e : LexicalError}
    (h : s.HasPositions terminators text) (hError : s.error? l = some e) :
    e.HasPosition terminators text := by
  cases s with
  | token t modes stuck =>
    -- The error of a token that could not leave its mode has the place of the token.
    obtain ⟨front, image, rest, hText, hSome, hSpan, hStart, -⟩ := h
    obtain ⟨c, cs, rfl⟩ := List.exists_cons_of_ne_nil hSome
    cases stuck with
    | false => cases hError
    | true =>
      cases hError
      refine ⟨front, c, cs ++ rest, ?_, ?_, hStart⟩
      · rw [hText, List.append_assoc]
        rfl
      · rw [LexicalError.span, hSpan]
  | skipped e' =>
    cases hError
    exact h

/-- Every token has the line and column of its first and its last character, and every error those
of its first one, as the text alone tells them. -/
theorem run_hasPositions [RegexLibrary] (hLaws : RegexLibrary.Lawful)
    (h : build v d config = .ok l)
    (hTracking : config.positionTracking = .full)
    (hTypes : ∀ id ∈ d.used, ∀ type, v.type? id = some type → type.LooksForBreaks) {start : Nat}
    (hPairs : ∀ front rest, text = front ++ '\r' :: '\n' :: rest →
      ∃ t ∈ (l.cut text start).filterMap Segment.token?,
        t.span.start ≤ Text.byteLength front ∧ Text.byteLength front + 2 ≤ t.span.stop) :
    (∀ t ∈ (l.cut text start).filterMap Segment.token?,
      t.HasPositions config.lineTerminators text) ∧
    ∀ e ∈ (l.run text start).errors, (∀ bytes, e ≠ .inputTooLarge bytes) →
      e.HasPosition config.lineTerminators text := by
  have hConfig : l.config = config := by rw [(eq_of_build h).2]
  have hStands : l.StandsAt text [] (.start text) (l.cut text start) :=
    ⟨rfl, rfl, LineCol.atIndex_zero.symm, fun front rest hText _ => hPairs front rest hText⟩
  have hSegments : ∀ s ∈ l.cut text start, s.HasPositions config.lineTerminators text := by
    subst hConfig
    exact (cuts_segments l text [start] (.start text)).hasPositions hTracking
      (fun _ _ _ hTried hOff => not_mem_of_tryMatch hLaws h hTypes hTried hOff) hStands
  constructor
  · intro t ht
    obtain ⟨s, hs, hToken⟩ := List.mem_filterMap.mp ht
    cases s with
    | token t' modes stuck =>
      cases hToken
      exact hSegments _ hs
    | skipped e => cases hToken
  · intro e he hSmall
    by_cases hLarge : LexicalError.maxBytes < Text.byteLength text
    · rw [run, if_pos hLarge] at he
      exact absurd (List.mem_singleton.mp he) (hSmall _)
    · rw [(run_tiles l (Nat.le_of_not_lt hLarge) start).result] at he
      obtain ⟨s, hs, hError⟩ := List.mem_filterMap.mp he
      exact (hSegments s hs).error? hError

namespace Lines

/-- Words, line breaks of two characters, and comments, which are looked through. -/
def types : List TokenType :=
  [.literal "Word" "ab", .literal "Break" "\r\n",
    { TokenType.new "Comment" (.custom Quotations.comment) with lineBreaks := some true }]

def definition : LexerDefinition := .single [1, 2, 3]

def lines : List Char := "ab\r\n?#c\nab".toList

theorem used_eq : definition.used = [1, 2, 3] := by decide

theorem custom_startsAsStated : ∀ id ∈ definition.used, ∀ type,
    (Vocabulary.ofTypes types).type? id = some type →
      ∀ p, type.pattern = .custom p → p.StartsAsStated := by
  rw [used_eq]
  simp only [List.forall_mem_cons]
  refine ⟨?_, ?_, ?_, fun id hNone => absurd hNone List.not_mem_nil⟩
  · rintro type ⟨⟩ p ⟨⟩
  · rintro type ⟨⟩ p ⟨⟩
  · rintro type ⟨⟩ p ⟨⟩
    exact Quotations.comment_startsAsStated

theorem looksForBreaks : ∀ id ∈ definition.used, ∀ type,
    (Vocabulary.ofTypes types).type? id = some type → type.LooksForBreaks := by
  rw [used_eq]
  simp only [List.forall_mem_cons]
  refine ⟨?_, ?_, ?_, fun id hNone => absurd hNone List.not_mem_nil⟩
  · rintro type ⟨⟩
    exact .inr ⟨rfl, fun p hCustom => by cases hCustom⟩
  · rintro type ⟨⟩
    exact .inr ⟨rfl, fun p hCustom => by cases hCustom⟩
  · rintro type ⟨⟩
    exact .inl rfl

theorem eq_of_pair {front rest : List Char} (h : lines = front ++ '\r' :: '\n' :: rest) :
    front = ['a', 'b'] := by
  have hSplit : lines = ['a', 'b'] ++ '\r' :: "\n?#c\nab".toList := by decide
  rw [hSplit, List.append_cons_inj_of_notMem (by decide) (by decide)] at h
  exact h.1.symm

end Lines

/-- A pair that is a token, and a line feed that is skipped behind a comment. -/
theorem run_hasPositions_lines : ∃ l,
    build (.ofTypes Lines.types) Lines.definition {} = .ok l ∧
      ((l.cut Lines.lines 0).filterMap Segment.token?).map (fun t => (t.span, t.start)) =
        [(⟨0, 2⟩, some ⟨1, 1⟩), (⟨2, 4⟩, some ⟨1, 3⟩), (⟨5, 7⟩, some ⟨2, 2⟩),
          (⟨8, 10⟩, some ⟨3, 1⟩)] ∧
      (∀ t ∈ (l.cut Lines.lines 0).filterMap Segment.token?,
        t.HasPositions ['\n', '\r'] Lines.lines) ∧
      ∀ e ∈ (l.run Lines.lines 0).errors, (∀ bytes, e ≠ .inputTooLarge bytes) →
        e.HasPosition ['\n', '\r'] Lines.lines := by
  obtain ⟨l, hBuild, hCut⟩ :
      ∃ l, build (.ofTypes Lines.types) Lines.definition {} = .ok l ∧
        (((l.undispatched.cut Lines.lines 0).filterMap Segment.token?).map
          (fun t => (t.span, t.start)) ==
            [(⟨0, 2⟩, some ⟨1, 1⟩), (⟨2, 4⟩, some ⟨1, 3⟩), (⟨5, 7⟩, some ⟨2, 2⟩),
              (⟨8, 10⟩, some ⟨3, 1⟩)]) = true :=
    exists_of_build _ (by decide +kernel)
  have hDispatch := dispatchesByStart_of_lawful Regex.library_lawful hBuild
    Lines.custom_startsAsStated
  have hSame : l.undispatched.cut Lines.lines 0 = l.cut Lines.lines 0 :=
    segments_undispatched hDispatch _ (Cursor.isAt_start _)
  rw [hSame, beq_iff_eq] at hCut
  refine ⟨l, hBuild, hCut, run_hasPositions Regex.library_lawful hBuild rfl Lines.looksForBreaks
    fun front rest h => ?_⟩
  obtain rfl := Lines.eq_of_pair h
  have hMem : (⟨2, 4⟩, some ⟨1, 3⟩) ∈
      ((l.cut Lines.lines 0).filterMap Segment.token?).map fun t => (t.span, t.start) := by
    rw [hCut]
    decide
  obtain ⟨t, ht, hSpan⟩ := List.mem_map.mp hMem
  refine ⟨t, ht, ?_⟩
  rw [(Prod.mk.inj hSpan).1]
  decide

end Lexer

end PredictiveParsing
