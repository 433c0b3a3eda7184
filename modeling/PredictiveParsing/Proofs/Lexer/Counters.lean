import Mathlib.Algebra.Group.Nat.Defs
import PredictiveParsing.Proofs.Lexer.LineBreaks
import PredictiveParsing.Proofs.Lexer.Literals

/-!
# Lines and columns in counters of 32 bits

Line and column together grow by at most one with each character. So counters of 32 bits do for
every text that a run takes, but for some that have as many characters as bytes are admitted: behind
the last one of them, the line or the column can be one too large. No token and no error shows the
position there.
-/

namespace PredictiveParsing

namespace LineCol

structure Fits (p : LineCol) : Prop where
  line_lt : p.line < 2 ^ 32
  column_lt : p.column < 2 ^ 32

instance (p : LineCol) : Decidable p.Fits :=
  decidable_of_iff (p.line < 2 ^ 32 ∧ p.column < 2 ^ 32) ⟨fun h => ⟨h.1, h.2⟩, fun h => ⟨h.1, h.2⟩⟩

def kept? (p : LineCol) : Option LineCol := if p.Fits then some p else none

structure Within (p : LineCol) (n : Nat) : Prop where
  line_pos : 0 < p.line
  column_pos : 0 < p.column
  sum_le : p.line + p.column ≤ n + 2

variable {p : LineCol} {n k : Nat}

theorem within_first : first.Within 0 := ⟨by decide, by decide, by decide⟩

theorem Within.nextLine (h : p.Within n) : Within ⟨p.line + 1, 1⟩ (n + 1) := by
  have := h.column_pos
  have := h.sum_le
  exact ⟨Nat.succ_pos _, Nat.one_pos, by dsimp only; omega⟩

theorem Within.columns (h : p.Within n) (k : Nat) : Within ⟨p.line, p.column + k⟩ (n + k) := by
  have := h.sum_le
  exact ⟨h.line_pos, Nat.add_pos_left h.column_pos k, by dsimp only; omega⟩

theorem Within.mono (h : p.Within n) (hLe : n ≤ k) : p.Within k :=
  ⟨h.line_pos, h.column_pos, Nat.le_trans h.sum_le (Nat.add_le_add_right hLe 2)⟩

theorem Within.fits (h : p.Within n) (hSmall : n + 1 < 2 ^ 32) : p.Fits := by
  obtain ⟨hLine, hColumn, hSum⟩ := h
  constructor <;> omega

/-- Of the positions behind fewer than `2 ^ 32` characters, two do not fit. -/
theorem Within.eq_of_not_fits (h : p.Within n) (hSmall : n < 2 ^ 32) (hLarge : ¬ p.Fits) :
    p = ⟨1, 2 ^ 32⟩ ∨ p = ⟨2 ^ 32, 1⟩ := by
  obtain ⟨line, column⟩ := p
  obtain ⟨hLine, hColumn, hSum⟩ := h
  dsimp only at hLine hColumn hSum
  by_cases hLt : line < 2 ^ 32
  · have hColumnLarge : ¬ column < 2 ^ 32 := fun hLt' => hLarge ⟨hLt, hLt'⟩
    exact .inl (by rw [LineCol.mk.injEq]; omega)
  · exact .inr (by rw [LineCol.mk.injEq]; omega)

end LineCol

namespace Lexer

open LineCol (kept?)

namespace Cursor

variable {cfg : LexerConfig} {terminators image rest cs : List Char} {p q last : LineCol} {n : Nat}
  {k : Nat} {cur : Cursor} {lineBreaks : Bool}

/-- Walking over characters with counters of 32 bits. There is no result if a line or a column on
the way does not fit, be it only that of the line feed of a pair. -/
def walk? (terminators : List Char) (p last : LineCol) : List Char → Option (LineCol × LineCol)
  | [] => some (p, last)
  | '\r' :: '\n' :: cs =>
    if terminators.contains '\r' then
      (kept? ⟨p.line + 1, p.column + 1⟩).bind fun q =>
        walk? terminators ⟨q.line, 1⟩ ⟨p.line, q.column⟩ cs
    else (kept? ⟨p.line, p.column + 1⟩).bind fun q => walk? terminators q p ('\n' :: cs)
  | c :: cs =>
    if terminators.contains c then
      (kept? ⟨p.line + 1, 1⟩).bind fun q => walk? terminators q p cs
    else (kept? ⟨p.line, p.column + 1⟩).bind fun q => walk? terminators q p cs

/-- Moving over an image with counters of 32 bits. Without line breaks, the column of the last
character is the one in front of the column behind it, which must not be zero. -/
def advance? (cfg : LexerConfig) (cur : Cursor) (image rest : List Char) (lineBreaks : Bool) :
    Option (Cursor × Option LineCol) :=
  let offset := cur.offset + Text.byteLength image
  if cfg.positionTracking = .offsetOnly then some (⟨offset, cur.position, rest⟩, none)
  else if lineBreaks then
    (walk? cfg.lineTerminators cur.position cur.position image).map fun (p, last) =>
      (⟨offset, p, rest⟩, some last)
  else
    (kept? ⟨cur.position.line, cur.position.column + image.length⟩).bind fun p =>
      if 0 < p.column then some (⟨offset, p, rest⟩, some ⟨p.line, p.column - 1⟩) else none

/-! ## One move -/

theorem within_walk (h : p.Within n) :
    (walk terminators p last cs).1.Within (n + cs.length) := by
  fun_induction walk terminators p last cs generalizing n with
  | case1 p last => exact h
  | case2 p last cs hReturn ih =>
    exact (ih h.nextLine).mono (by simp only [List.length_cons]; omega)
  | case3 p last cs hReturn ih =>
    exact (ih (h.columns 1)).mono (by simp only [List.length_cons]; omega)
  | case4 p last c cs hOther hTerminator ih =>
    exact (ih h.nextLine).mono (by simp only [List.length_cons]; omega)
  | case5 p last c cs hOther hTerminator ih =>
    exact (ih (h.columns 1)).mono (by simp only [List.length_cons]; omega)

theorem within_last_walk (h : p.Within n) (hLast : cs = [] → last.Within k)
    (hEnd : n + cs.length ≤ k + 1) : (walk terminators p last cs).2.Within k := by
  fun_induction walk terminators p last cs generalizing n with
  | case1 p last => exact hLast rfl
  | case2 p last cs hReturn ih =>
    simp only [List.length_cons] at hEnd
    exact ih h.nextLine (fun _ => (h.columns 1).mono (by omega)) (by omega)
  | case3 p last cs hReturn ih =>
    rw [List.length_cons] at hEnd
    exact ih (h.columns 1) (fun _ => h.mono (by omega)) (by omega)
  | case4 p last c cs hOther hTerminator ih =>
    rw [List.length_cons] at hEnd
    exact ih h.nextLine (fun _ => h.mono (by omega)) (by omega)
  | case5 p last c cs hOther hTerminator ih =>
    rw [List.length_cons] at hEnd
    exact ih (h.columns 1) (fun _ => h.mono (by omega)) (by omega)

theorem bind_kept? (hPosition : q.Within (n + 1)) (hEnd : n + 1 + cs.length < 2 ^ 32)
    (hFurther : q.Fits → walk? terminators q last cs =
      if (walk terminators q last cs).1.Fits then some (walk terminators q last cs) else none) :
    ((kept? q).bind fun q => walk? terminators q last cs) =
      if (walk terminators q last cs).1.Fits then some (walk terminators q last cs) else none := by
  by_cases hFits : q.Fits
  · rw [kept?, if_pos hFits, Option.bind_some]
    exact hFurther hFits
  · -- Any further character would leave room for this position.
    obtain rfl : cs = [] := by
      refine List.eq_nil_of_length_eq_zero (Nat.eq_zero_of_not_pos fun hMore => hFits ?_)
      exact hPosition.fits (by omega)
    have hStays : walk terminators q last [] = (q, last) := by rw [walk]
    rw [kept?, if_neg hFits, hStays, if_neg hFits]
    rfl

/-- The counters do for a walk over the last characters of a text just if they do for the position
behind it. -/
theorem walk?_eq (h : p.Within n) (hFits : p.Fits) (hEnd : n + cs.length < 2 ^ 32) :
    walk? terminators p last cs =
      if (walk terminators p last cs).1.Fits then some (walk terminators p last cs) else none := by
  fun_induction walk terminators p last cs generalizing n with
  | case1 p last => rw [walk?, if_pos hFits]
  | case2 p last cs hReturn ih =>
    simp only [List.length_cons] at hEnd
    have hPair : LineCol.Fits ⟨p.line + 1, p.column + 1⟩ := by
      obtain ⟨hLine, hColumn, hSum⟩ := h
      constructor <;> dsimp only <;> omega
    have hNext : LineCol.Within ⟨p.line + 1, 1⟩ (n + 1) := h.nextLine
    rw [walk?, if_pos hReturn, kept?, if_pos hPair, Option.bind_some]
    exact ih hNext (hNext.fits (by omega)) (by omega)
  | case3 p last cs hReturn ih =>
    rw [List.length_cons] at hEnd
    rw [walk?, if_neg hReturn]
    exact bind_kept? (h.columns 1) (by omega) fun hNext => ih (h.columns 1) hNext (by omega)
  | case4 p last c cs hOther hTerminator ih =>
    rw [List.length_cons] at hEnd
    rw [walk?.eq_3 _ _ _ _ _ hOther, if_pos hTerminator]
    exact bind_kept? h.nextLine (by omega) fun hNext => ih h.nextLine hNext (by omega)
  | case5 p last c cs hOther hTerminator ih =>
    rw [List.length_cons] at hEnd
    rw [walk?.eq_3 _ _ _ _ _ hOther, if_neg hTerminator]
    exact bind_kept? (h.columns 1) (by omega) fun hNext => ih (h.columns 1) hNext (by omega)

theorem within_advance (h : cur.position.Within n) :
    (cur.advance cfg image rest lineBreaks).1.position.Within (n + image.length) := by
  rw [advance]
  split
  · exact h.mono (Nat.le_add_right _ _)
  · split
    · exact within_walk h
    · exact h.columns _

theorem within_last_advance (h : cur.position.Within n) (hImage : 0 < image.length)
    (hEnd : n + image.length ≤ k + 1)
    (hLast : (cur.advance cfg image rest lineBreaks).2 = some last) : last.Within k := by
  rw [advance] at hLast
  split at hLast
  · cases hLast
  · split at hLast
    · cases hLast
      exact within_last_walk h (fun hNone => absurd hNone (List.length_pos_iff.mp hImage)) hEnd
    · cases hLast
      obtain ⟨hLine, hColumn, hSum⟩ := h
      exact ⟨hLine, by dsimp only; omega, by dsimp only; omega⟩

theorem advance?_eq (h : cur.position.Within n) (hFits : cur.position.Fits)
    (hEnd : n + image.length < 2 ^ 32) : cur.advance? cfg image rest lineBreaks =
      if (cur.advance cfg image rest lineBreaks).1.position.Fits then
        some (cur.advance cfg image rest lineBreaks)
      else none := by
  rw [advance?, advance]
  by_cases hTracked : cfg.positionTracking = .offsetOnly
  · rw [if_pos hTracked, if_pos hTracked, if_pos hFits]
  · rw [if_neg hTracked, if_neg hTracked]
    cases lineBreaks with
    | true =>
      rw [if_pos rfl, if_pos rfl, walk?_eq h hFits hEnd, apply_ite (Option.map _)]
      rfl
    | false =>
      have hPos : 0 < cur.position.column + image.length := (h.columns image.length).column_pos
      rw [if_neg Bool.false_ne_true, if_neg Bool.false_ne_true, kept?, apply_ite (Option.bind · _),
        Option.bind_some, if_pos hPos]
      rfl

end Cursor

/-! ## The moves of a run -/

/-- A move of the cursor: where it begins, what it is moved over, and whether line breaks are looked
for there. -/
structure Move where
  cur : Cursor
  image : List Char
  lineBreaks : Bool

namespace Move

def rest (m : Move) : List Char := m.cur.rest.drop m.image.length

def result (cfg : LexerConfig) (m : Move) : Cursor × Option LineCol :=
  m.cur.advance cfg m.image m.rest m.lineBreaks

def result? (cfg : LexerConfig) (m : Move) : Option (Cursor × Option LineCol) :=
  m.cur.advance? cfg m.image m.rest m.lineBreaks

end Move

namespace Cursor

def moves (cfg : LexerConfig) : Cursor → List (List Char × Bool) → List Move
  | _, [] => []
  | cur, (image, lineBreaks) :: stretches =>
    ⟨cur, image, lineBreaks⟩ ::
      moves cfg (Move.result cfg ⟨cur, image, lineBreaks⟩).1 stretches

def behind (cfg : LexerConfig) : Cursor → List (List Char × Bool) → Cursor
  | cur, [] => cur
  | cur, (image, lineBreaks) :: stretches =>
    behind cfg (Move.result cfg ⟨cur, image, lineBreaks⟩).1 stretches

variable {cfg : LexerConfig} {cur : Cursor} {stretches more : List (List Char × Bool)} {m : Move}
  {n : Nat}

theorem moves_append : cur.moves cfg (stretches ++ more) =
    cur.moves cfg stretches ++ (cur.behind cfg stretches).moves cfg more := by
  induction stretches generalizing cur with
  | nil => rfl
  | cons stretch stretches ih => exact congrArg (List.cons _) ih

/-- By induction on the stretches: each move takes a part of what is left, and the position in front
of it is within the number of characters in front of it. -/
theorem within_of_mem_moves (hMove : m ∈ cur.moves cfg stretches) (h : cur.position.Within n)
    (hPrefix : stretches.flatMap Prod.fst <+: cur.rest) :
    ∃ k, m.cur.position.Within k ∧
      k + m.image.length + m.rest.length = n + cur.rest.length ∧
      (m.image, m.lineBreaks) ∈ stretches := by
  induction stretches generalizing cur n with
  | nil => cases hMove
  | cons stretch stretches ih =>
    obtain ⟨image, lineBreaks⟩ := stretch
    obtain ⟨behind, hRest⟩ := hPrefix
    -- The image is cut off from what is left, and the other stretches begin the remainder.
    rw [List.flatMap_cons, List.append_assoc] at hRest
    have hDrop : cur.rest.drop image.length = stretches.flatMap Prod.fst ++ behind := by
      rw [← hRest, List.drop_left]
    have hLength : image.length + (cur.rest.drop image.length).length = cur.rest.length := by
      rw [hDrop, ← List.length_append, hRest]
    rcases List.mem_cons.mp hMove with rfl | hLater
    · refine ⟨n, h, ?_, List.mem_cons_self⟩
      rw [Nat.add_assoc]
      exact congrArg (n + ·) hLength
    · have hBehind : (Move.result cfg ⟨cur, image, lineBreaks⟩).1.rest =
          cur.rest.drop image.length := rest_advance _ _ _ _ _
      obtain ⟨k, hWithin, hSum, hMem⟩ :=
        ih hLater (within_advance h) ⟨behind, by rw [hBehind, hDrop]⟩
      refine ⟨k, hWithin, ?_, List.mem_cons_of_mem _ hMem⟩
      rw [hSum, hBehind, Nat.add_assoc, hLength]

end Cursor

namespace Segment

/-- What the cursor is moved over for a piece of a text: a token at once, skipped characters one by
one. -/
def stretches (l : Lexer) : Segment → List (List Char × Bool)
  | .token t _ _ => [(t.image.toList, l.hasLineBreaks t.kind)]
  | .skipped e => (image (.skipped e)).map fun c => ([c], true)

/-- The position that a piece shows as that of its first character. -/
def start : Segment → Option LineCol
  | .token t _ _ => t.start
  | .skipped e => e.start

/-- The position that a piece shows as that of its last character. -/
def stop : Segment → Option LineCol
  | .token t _ _ => t.stop
  | .skipped _ => none

theorem flatMap_fst_stretches (l : Lexer) (s : Segment) :
    (s.stretches l).flatMap Prod.fst = s.image := by
  cases s with
  | token t modes stuck => exact List.flatMap_singleton _ _
  | skipped e =>
    rw [stretches, List.flatMap_map]
    exact List.flatMap_singleton' _

theorem ne_nil_of_mem_stretches {l : Lexer} {s : Segment} {stretch : List Char × Bool}
    (h : stretch ∈ s.stretches l) (hSome : s.image ≠ []) : stretch.1 ≠ [] := by
  cases s with
  | token t modes stuck =>
    obtain rfl := List.mem_singleton.mp h
    exact hSome
  | skipped e =>
    obtain ⟨c, -, rfl⟩ := List.mem_map.mp h
    exact List.cons_ne_nil c []

end Segment

variable {l : Lexer} {text cs : List Char} {cur : Cursor} {c : Char} {m : Match} {mode : Mode}
  {modes : List Nat} {segments : List Segment} {s : Segment}

def moves (l : Lexer) (text : List Char) (mode : Nat) : List Move :=
  (Cursor.start text).moves l.config ((l.cut text mode).flatMap (Segment.stretches l))

/-! ## The moves lead through the run -/

theorem stretches_finishToken {stuck : Bool} :
    Segment.stretches l (.token (l.finishToken cur m).2 modes stuck) =
      [(m.image, l.hasLineBreaks m.kind)] := by
  rw [Segment.stretches, finishToken, String.toList_ofList]

theorem result_token (h : m.image ++ m.rest = cur.rest) (lineBreaks : Bool) :
    Move.result l.config ⟨cur, m.image, lineBreaks⟩ =
      cur.advance l.config m.image m.rest lineBreaks := by
  rw [Move.result, Move.rest, ← h, List.drop_left]

theorem stop_finishToken : (l.finishToken cur m).2.stop =
    if l.config.positionTracking = .full then
      (cur.advance l.config m.image m.rest (l.hasLineBreaks m.kind)).2
    else none := rfl

theorem behind_token (h : m.image ++ m.rest = cur.rest) :
    cur.behind l.config [(m.image, l.hasLineBreaks m.kind)] = (l.finishToken cur m).1 := by
  rw [Cursor.behind, Cursor.behind, result_token h, finishToken]

theorem behind_cons_char (hRest : cur.rest = c :: cs) (stretches : List (List Char × Bool)) :
    cur.behind l.config (([c], true) :: stretches) =
      (cur.advance l.config [c] cs true).1.behind l.config stretches := by
  rw [Cursor.behind, Move.result, Move.rest, hRest]
  rfl

theorem behind_skipUnmatched (hRest : cur.rest = cs) :
    cur.behind l.config ((l.skipUnmatched text mode cur cs).2.map fun c => ([c], true)) =
      (l.skipUnmatched text mode cur cs).1 := by
  induction cs generalizing cur with
  | nil => rfl
  | cons c cs ih =>
    rw [skipUnmatched]
    split
    · rfl
    · rw [List.map_cons, behind_cons_char hRest]
      exact ih (Cursor.rest_advance _ _ _ _ _)

theorem behind_skip (hRest : cur.rest = c :: cs) :
    cur.behind l.config ((l.skip text mode cur c cs).2.map fun c => ([c], true)) =
      (l.skip text mode cur c cs).1 := by
  simp only [skip]
  split
  · rw [List.map_cons, behind_cons_char hRest]
    exact behind_skipUnmatched (Cursor.rest_advance _ _ _ _ _)
  · exact behind_cons_char hRest []

/-- Each piece of a run begins where one of the moves does, and shows the position there. A token
shows the position of the last character of that move too, if it shows one. -/
theorem Cuts.exists_move (h : l.Cuts text modes cur segments) (hMem : s ∈ segments) :
    ∃ move ∈ cur.moves l.config (segments.flatMap (Segment.stretches l)),
      s.span.start = move.cur.offset ∧ s.start = Cursor.shown l.config move.cur.position ∧
        (s.stop = none ∨ s.stop = (move.result l.config).2) := by
  induction h with
  | done hRest => cases hMem
  | @token modes cur m segments hMatch hBehind ih =>
    rw [List.flatMap_cons, stretches_finishToken, Cursor.moves_append,
      behind_token (image_append_rest_of_matchIn hMatch)]
    rcases List.mem_cons.mp hMem with rfl | hLater
    · refine ⟨_, List.mem_append_left _ List.mem_cons_self, rfl, rfl, ?_⟩
      rw [result_token (image_append_rest_of_matchIn hMatch), Segment.stop, stop_finishToken]
      split
      · exact .inr rfl
      · exact .inl rfl
    · obtain ⟨move, hMove, hSame⟩ := ih hLater
      exact ⟨move, List.mem_append_right _ hMove, hSame⟩
  | @skipped modes cur c cs segments hRest hMatch hRecovery hBehind ih =>
    rw [List.flatMap_cons, Cursor.moves_append, Segment.stretches, Segment.image,
      behind_skip hRest]
    rcases List.mem_cons.mp hMem with rfl | hLater
    · obtain ⟨first, further, hSkipped⟩ : ∃ first further,
          (l.skip text (l.mode (modes.headD 0)) cur c cs).2 = first :: further :=
        List.exists_cons_of_ne_nil skipped_ne_nil
      rw [hSkipped]
      exact ⟨_, List.mem_append_left _ List.mem_cons_self, rfl, rfl, .inl rfl⟩
    · obtain ⟨move, hMove, hSame⟩ := ih hLater
      exact ⟨move, List.mem_append_right _ hMove, hSame⟩
  | @stopped modes cur c cs hRest hMatch hRecovery =>
    obtain rfl := List.mem_singleton.mp hMem
    rw [List.flatMap_singleton, Segment.stretches, Segment.image, skipped_of_recovery hRecovery]
    exact ⟨_, List.mem_cons_self, rfl, rfl, .inl rfl⟩

/-! ## Counters of a run -/

/-- What counters of 32 bits make of a run over a text. Each move begins at a position that they
hold. They make it as it is if it ends at such a position, and not at all otherwise; then it is the
last one over a text of the largest length. Each piece of the run begins where a move does and shows
the position there, and the positions that pieces show are such as the counters hold. -/
structure CountsIn32Bits (l : Lexer) (text : List Char) (mode : Nat) : Prop where
  position : ∀ move ∈ l.moves text mode, move.cur.position.Fits
  result : ∀ move ∈ l.moves text mode, move.result? l.config =
    if (move.result l.config).1.position.Fits then some (move.result l.config) else none
  last : ∀ move ∈ l.moves text mode, ¬ (move.result l.config).1.position.Fits →
    move.rest = [] ∧ text.length = LexicalError.maxBytes ∧
      ((move.result l.config).1.position = ⟨1, 2 ^ 32⟩ ∨
        (move.result l.config).1.position = ⟨2 ^ 32, 1⟩)
  begins : ∀ s ∈ l.cut text mode, ∃ move ∈ l.moves text mode,
    s.span.start = move.cur.offset ∧ s.start = Cursor.shown l.config move.cur.position
  shown : ∀ s ∈ l.cut text mode, ∀ p, s.start = some p ∨ s.stop = some p → p.Fits

theorem flatMap_image_cut (l : Lexer) (text : List Char) (mode : Nat) :
    (l.cut text mode).flatMap Segment.image <+: text ∧ ∀ s ∈ l.cut text mode, s.image ≠ [] := by
  obtain ⟨-, stop, hTile, -⟩ : _ ∧ ∃ stop, l.Segmentation text 0 (l.cut text mode) stop :=
    segmentation_segments (Cursor.isAt_start text)
  have hNone : Text.splitBytes? 0 text = some ([], text) := by cases text <;> rfl
  obtain ⟨behind, hText, -⟩ := hTile.flatMap_image hNone
  exact ⟨⟨behind, hText.symm⟩, hTile.image_ne_nil⟩

theorem within_of_mem_moves {move : Move} {start : Nat} (h : move ∈ l.moves text start) :
    ∃ k, move.cur.position.Within k ∧ 0 < move.image.length ∧
      k + move.image.length + move.rest.length = text.length := by
  obtain ⟨hPrefix, hSome⟩ := flatMap_image_cut l text start
  have hImages : ((l.cut text start).flatMap (Segment.stretches l)).flatMap Prod.fst =
      (l.cut text start).flatMap Segment.image := by
    rw [List.flatMap_assoc]
    exact List.flatMap_congr fun s _ => Segment.flatMap_fst_stretches l s
  obtain ⟨k, hWithin, hSum, hMem⟩ :=
    Cursor.within_of_mem_moves h LineCol.within_first (hImages ▸ hPrefix)
  obtain ⟨s, hs, hStretch⟩ := List.mem_flatMap.mp hMem
  refine ⟨k, hWithin, List.length_pos_iff.mpr ?_, hSum.trans (Nat.zero_add _)⟩
  exact Segment.ne_nil_of_mem_stretches hStretch (hSome s hs)

/-- Counters of 32 bits do for a run over every text that is not too large, but for the position
behind a largest one that is all in one line, or in which each character ends one. -/
theorem run_countsIn32Bits (l : Lexer) (hSize : Text.byteLength text ≤ LexicalError.maxBytes)
    (mode : Nat) : l.CountsIn32Bits text mode := by
  have hMax : LexicalError.maxBytes + 1 = 2 ^ 32 := rfl
  have hLength := Text.length_le_byteLength text
  have hBegins {move : Move} (hMove : move ∈ l.moves text mode) : move.cur.position.Fits := by
    obtain ⟨k, hWithin, hPos, hSum⟩ := within_of_mem_moves hMove
    exact hWithin.fits (by omega)
  have hPieces (s : Segment) (hs : s ∈ l.cut text mode) :=
    (cuts_segments l text [mode] (.start text)).exists_move hs
  constructor
  case position => exact fun move hMove => hBegins hMove
  case result =>
    intro move hMove
    obtain ⟨k, hWithin, -, hSum⟩ := within_of_mem_moves hMove
    exact Cursor.advance?_eq hWithin (hBegins hMove) (by omega)
  case last =>
    intro move hMove hLarge
    obtain ⟨k, hWithin, -, hSum⟩ := within_of_mem_moves hMove
    have hBehind : (move.result l.config).1.position.Within (k + move.image.length) :=
      Cursor.within_advance hWithin
    have hAll : ¬ k + move.image.length + 1 < 2 ^ 32 := fun hLt => hLarge (hBehind.fits hLt)
    -- Only behind as many characters as bytes are admitted a position can be too large.
    refine ⟨List.eq_nil_of_length_eq_zero (by omega), by omega, ?_⟩
    exact hBehind.eq_of_not_fits (by omega) hLarge
  case begins =>
    intro s hs
    obtain ⟨move, hMove, hOffset, hStart, -⟩ := hPieces s hs
    exact ⟨move, hMove, hOffset, hStart⟩
  case shown =>
    rintro s hs p hShown
    obtain ⟨move, hMove, -, hStart, hStop⟩ := hPieces s hs
    obtain ⟨k, hWithin, hPos, hSum⟩ := within_of_mem_moves hMove
    rcases hShown with hFirst | hLast
    · rw [hStart, Cursor.shown] at hFirst
      split at hFirst
      · cases hFirst
      · cases hFirst
        exact hBegins hMove
    · rcases hStop with hNone | hStop
      · rw [hNone] at hLast
        cases hLast
      · have hEnd : k + move.image.length ≤ LexicalError.maxBytes - 1 + 1 := by omega
        exact (Cursor.within_last_advance hWithin hPos hEnd (hStop ▸ hLast)).fits (by omega)

/-! ## One letter over and over -/

namespace Letters

def types : List TokenType := [(TokenType.literal "A" "a").skip]

def definition : LexerDefinition := .single [1]

variable {n k : Nat} (h : build (.ofTypes types) definition {} = .ok l)
include h

theorem matchIn_letter (hAt : cur.IsAt text) (hRest : cur.rest = 'a' :: cs) :
    l.matchIn text (l.mode 0) cur = some ⟨1, ['a'], cs⟩ := by
  have hStarts : l.DispatchesByStart :=
    dispatchesByStart_of_literals h fun id hUsed type hType => by
      obtain rfl : id = 1 := by
        rw [mem_used_iff rfl] at hUsed
        exact List.mem_singleton.mp hUsed
      cases hType
      exact ⟨"a", rfl⟩
  have hIds : (l.mode 0).types = [1] := by rw [mode_of_build h rfl]; rfl
  have hLonger : l.longer 1 = [] := by rw [(eq_of_build h).2]; rfl
  have hLookup : l.compiled.lookup 1 =
      some ⟨.literal ['a'], (Pattern.compileLiteral ['\n', '\r'] ['a']).2⟩ := by
    rw [(eq_of_build h).2]
    exact lookup_compileTypes (by decide) rfl rfl
  rw [hStarts.matchIn_eq hAt hRest, hIds]
  refine matchFirst_of_only (tryMatch_literal hLookup (List.cons_ne_nil _ _) hRest)
    (List.mem_singleton_self 1) (fun other hOther _ _ => List.mem_singleton.mp hOther) ?_
  rw [hLonger]
  exact fun longer hNone => absurd hNone List.not_mem_nil

theorem stretches_segments (hAt : cur.IsAt text) (hRest : cur.rest = List.replicate k 'a') :
    (l.segments text [0] cur).flatMap (Segment.stretches l) =
      List.replicate k (['a'], false) := by
  induction k generalizing cur with
  | zero =>
    rw [segments_end hRest]
    rfl
  | succ k ih =>
    rw [List.replicate_succ] at hRest
    have hMatch : l.matchIn text (l.mode ([0].headD 0)) cur =
        some ⟨1, ['a'], List.replicate k 'a'⟩ := matchIn_letter h hAt hRest
    have hModes : l.switchModes 1 [0] = [0] := by rw [(eq_of_build h).2]; rfl
    have hBreaks : l.hasLineBreaks 1 = false := by rw [(eq_of_build h).2]; decide
    rw [segments_token hRest hMatch, List.flatMap_cons, stretches_finishToken, hBreaks, hModes,
      ih (hAt.finishToken (image_append_rest_of_matchIn hMatch)) (rest_finishToken l cur _)]
    rfl

omit h in
theorem behind_replicate : Cursor.behind {} ⟨n, ⟨1, n + 1⟩, List.replicate (k + 1) 'a'⟩
    (List.replicate k (['a'], false)) = ⟨n + k, ⟨1, n + k + 1⟩, ['a']⟩ := by
  induction k generalizing n with
  | zero => rfl
  | succ k ih =>
    have hFirst : Cursor.behind {} ⟨n, ⟨1, n + 1⟩, List.replicate (k + 2) 'a'⟩
        (List.replicate (k + 1) (['a'], false)) =
      Cursor.behind {} ⟨n + 1, ⟨1, n + 1 + 1⟩, List.replicate (k + 1) 'a'⟩
        (List.replicate k (['a'], false)) := rfl
    rw [hFirst, ih, Nat.add_assoc n 1 k, Nat.add_comm 1 k]

theorem last_mem_moves (k : Nat) : ⟨⟨k, ⟨1, k + 1⟩, ['a']⟩, ['a'], false⟩ ∈
    l.moves (List.replicate (k + 1) 'a') 0 := by
  have hConfig : l.config = {} := by rw [(eq_of_build h).2]
  have hBehind : (Cursor.start (List.replicate (k + 1) 'a')).behind {}
      (List.replicate k (['a'], false)) = ⟨0 + k, ⟨1, 0 + k + 1⟩, ['a']⟩ := behind_replicate
  rw [Nat.zero_add] at hBehind
  rw [moves, hConfig, cut, stretches_segments h (Cursor.isAt_start _) rfl,
    List.replicate_succ' (a := (['a'], false)), Cursor.moves_append, hBehind]
  exact List.mem_append_right _ List.mem_cons_self

theorem position_last (k : Nat) : (Move.result l.config
    ⟨⟨k, ⟨1, k + 1⟩, ['a']⟩, ['a'], false⟩).1.position = ⟨1, k + 2⟩ := by
  rw [(eq_of_build h).2]
  rfl

omit h in
theorem byteLength_replicate : Text.byteLength (List.replicate n 'a') = n := by
  induction n with
  | zero => rfl
  | succ n ih =>
    rw [List.replicate_succ, Text.byteLength_cons, ih, Nat.add_comm]
    rfl

omit h in
theorem exists_lexer : ∃ l, build (.ofTypes types) definition {} = .ok l := by
  obtain ⟨l, hBuild, -⟩ : ∃ l, build (.ofTypes types) definition {} = .ok l ∧ _ :=
    exists_of_build (fun _ => true) (by decide +kernel)
  exact ⟨l, hBuild⟩

end Letters

/-- A text of one letter less than a largest one ends at the last column that the counters hold. -/
theorem run_countsIn32Bits_letters : ∃ l,
    build (.ofTypes Letters.types) Letters.definition {} = .ok l ∧
      Text.byteLength (List.replicate (LexicalError.maxBytes - 1) 'a') ≤ LexicalError.maxBytes ∧
      l.CountsIn32Bits (List.replicate (LexicalError.maxBytes - 1) 'a') 0 ∧
      ∃ move ∈ l.moves (List.replicate (LexicalError.maxBytes - 1) 'a') 0,
        (move.result l.config).1.position = ⟨1, 2 ^ 32 - 1⟩ ∧
          move.result? l.config = some (move.result l.config) := by
  obtain ⟨l, hBuild⟩ := Letters.exists_lexer
  have hSize : Text.byteLength (List.replicate (LexicalError.maxBytes - 1) 'a') ≤
      LexicalError.maxBytes := by
    rw [Letters.byteLength_replicate]
    exact Nat.sub_le _ _
  have hCounts := run_countsIn32Bits l hSize 0
  have hMove := Letters.last_mem_moves hBuild (LexicalError.maxBytes - 2)
  have hPosition := Letters.position_last hBuild (LexicalError.maxBytes - 2)
  refine ⟨l, hBuild, hSize, hCounts, _, hMove, hPosition, ?_⟩
  rw [hCounts.result _ hMove, hPosition]
  exact if_pos ⟨by decide, by decide⟩

/-- Behind the last letter of a largest text in one line, the column is too large by one. -/
theorem run_outgrows_counters : ∃ l,
    build (.ofTypes Letters.types) Letters.definition {} = .ok l ∧
      Text.byteLength (List.replicate LexicalError.maxBytes 'a') ≤ LexicalError.maxBytes ∧
      ∃ move ∈ l.moves (List.replicate LexicalError.maxBytes 'a') 0,
        (move.result l.config).1.position = ⟨1, 2 ^ 32⟩ ∧ move.result? l.config = none := by
  obtain ⟨l, hBuild⟩ := Letters.exists_lexer
  have hMove := Letters.last_mem_moves hBuild (LexicalError.maxBytes - 1)
  have hPosition := Letters.position_last hBuild (LexicalError.maxBytes - 1)
  refine ⟨l, hBuild, Nat.le_of_eq Letters.byteLength_replicate, _, hMove, hPosition, ?_⟩
  rw [(eq_of_build hBuild).2]
  rfl

end Lexer

end PredictiveParsing
