import PredictiveParsing.Lexer.Cursor

/-!
# Lines and columns of a text

The position of a character is told from the text alone: by the line breaks that are complete before
it and by the characters since the last one. The cursor keeps to these positions as long as it never
stops between a carriage return and a line feed that are one line break.
-/

namespace PredictiveParsing

namespace Text

/-- A carriage return that ends lines, with a line feed behind it. -/
def beginsPair (terminators text : List Char) (i : Nat) : Bool :=
  terminators.contains '\r' && text[i]? == some '\r' && text[i + 1]? == some '\n'

/-- Whether a line break is complete behind the character at an index. Each terminator is one break,
and a pair of a carriage return and a line feed is one. -/
def endsLine (terminators text : List Char) (i : Nat) : Bool :=
  (text[i]?.any terminators.contains && !beginsPair terminators text i) ||
    (0 < i && beginsPair terminators text (i - 1))

def IsBetween (terminators text : List Char) (i : Nat) : Prop :=
  ∀ j, j + 1 = i → beginsPair terminators text j = false

variable {terminators text : List Char} {c : Char} {i : Nat}

theorem beginsPair_iff : beginsPair terminators text i = true ↔ '\r' ∈ terminators ∧
    ∃ front rest, text = front ++ '\r' :: '\n' :: rest ∧ front.length = i := by
  rw [beginsPair, Bool.and_eq_true, Bool.and_eq_true, List.contains_iff_mem, beq_iff_eq, beq_iff_eq,
    and_assoc]
  refine and_congr_right fun _ => ?_
  constructor
  · rintro ⟨hReturn, hFeed⟩
    obtain ⟨hLt, hReturn⟩ := List.getElem?_eq_some_iff.mp hReturn
    obtain ⟨hLt', hFeed⟩ := List.getElem?_eq_some_iff.mp hFeed
    refine ⟨text.take i, text.drop (i + 2), ?_, List.length_take_of_le (Nat.le_of_lt hLt)⟩
    rw [← hReturn, ← hFeed, List.getElem_cons_drop, List.getElem_cons_drop, List.take_append_drop]
  · rintro ⟨front, rest, rfl, rfl⟩
    simp

theorem endsLine_of_isBetween (h : IsBetween terminators text i) (hChar : text[i]? = some c) :
    endsLine terminators text i = (terminators.contains c && !beginsPair terminators text i) := by
  cases i with
  | zero => simp [endsLine, hChar]
  | succ j => simp [endsLine, hChar, h j rfl]

theorem beginsPair_of_not_mem (hChar : text[i]? = some c) (hNone : c ∉ terminators) :
    beginsPair terminators text i = false := by
  refine Bool.eq_false_iff.mpr fun h => ?_
  obtain ⟨hReturn, front, rest, rfl, rfl⟩ := beginsPair_iff.mp h
  simp only [List.getElem?_append_right (Nat.le_refl _), Nat.sub_self, List.getElem?_cons_zero,
    Option.some.injEq] at hChar
  exact hNone (hChar ▸ hReturn)

theorem isBetween_succ :
    IsBetween terminators text (i + 1) ↔ beginsPair terminators text i = false :=
  ⟨fun h => h i rfl, fun h _ hj => Nat.succ_inj.mp hj ▸ h⟩

theorem IsBetween.cons {cs : List Char} (h : IsBetween terminators text (i + (c :: cs).length)) :
    IsBetween terminators text (i + 1 + cs.length) := by
  rwa [List.length_cons, Nat.add_comm cs.length, ← Nat.add_assoc] at h

theorem endsLine_of_beginsPair (h : beginsPair terminators text i = true) :
    endsLine terminators text (i + 1) = true := by
  simp [endsLine, h]

end Text

namespace LineCol

open Text (endsLine IsBetween)

def atIndex (terminators text : List Char) (i : Nat) : LineCol where
  line := 1 + (List.range i).countP (endsLine terminators text)
  column := 1 + ((List.range i).reverse.takeWhile fun j => !endsLine terminators text j).length

variable {terminators text : List Char} {i n : Nat}

theorem atIndex_zero : atIndex terminators text 0 = .first := rfl

theorem atIndex_succ : atIndex terminators text (i + 1) =
    if endsLine terminators text i then ⟨(atIndex terminators text i).line + 1, 1⟩
    else ⟨(atIndex terminators text i).line, (atIndex terminators text i).column + 1⟩ := by
  simp only [atIndex, List.range_succ, List.countP_append, List.reverse_append,
    List.reverse_singleton, List.singleton_append, List.takeWhile_cons]
  cases h : endsLine terminators text i with
  | true => simp [h, Nat.add_assoc]
  | false => simp [h, Nat.add_comm]

example : atIndex ['\n', '\r'] ['a', '\r', '\n', 'b'] 3 = ⟨2, 1⟩ := by decide

theorem atIndex_succ_inside {c : Char} (hBegin : IsBetween terminators text i)
    (hChar : text[i]? = some c)
    (h : c ∉ terminators ∨ Text.beginsPair terminators text i = true) :
    atIndex terminators text (i + 1) =
      ⟨(atIndex terminators text i).line, (atIndex terminators text i).column + 1⟩ := by
  have hEnds : endsLine terminators text i = false := by
    rw [Text.endsLine_of_isBetween hBegin hChar]
    rcases h with hOther | hPair
    · simp [hOther]
    · simp [hPair]
  rw [atIndex_succ, hEnds]
  rfl

theorem atIndex_succ_ends (h : endsLine terminators text i = true) :
    atIndex terminators text (i + 1) = ⟨(atIndex terminators text i).line + 1, 1⟩ := by
  rw [atIndex_succ, if_pos h]

theorem atIndex_add (hBegin : IsBetween terminators text i)
    (hNone : ∀ j, i ≤ j → j < i + n → ∃ c, text[j]? = some c ∧ c ∉ terminators) :
    atIndex terminators text (i + n) =
      ⟨(atIndex terminators text i).line, (atIndex terminators text i).column + n⟩ := by
  induction n with
  | zero => rfl
  | succ n ih =>
    have hBetween : IsBetween terminators text (i + n) := by
      intro j hj
      cases n with
      | zero => exact hBegin j hj
      | succ n =>
        obtain ⟨c, hChar, hOther⟩ := hNone j (by omega) (by omega)
        exact Text.beginsPair_of_not_mem hChar hOther
    obtain ⟨c, hChar, hOther⟩ := hNone (i + n) (by omega) (by omega)
    rw [← Nat.add_assoc, atIndex_succ_inside hBetween hChar (.inl hOther),
      ih fun j hLe hLt => hNone j hLe (by omega)]
    rfl

end LineCol

namespace Lexer.Cursor

open Text (beginsPair endsLine IsBetween)
open LineCol (atIndex)

variable {cfg : LexerConfig} {terminators text image rest cs : List Char} {c : Char} {i : Nat}
  {last : LineCol} {cur : Cursor} {lineBreaks : Bool}

theorem getElem?_of_drop {k : Nat} (hText : text.drop i = image ++ rest) (hk : k < image.length) :
    text[i + k]? = image[k]? := by
  rw [← List.getElem?_drop, hText, List.getElem?_append_left hk]

theorem drop_succ (hText : text.drop i = c :: cs) : text[i]? = some c ∧ text.drop (i + 1) = cs := by
  constructor
  · rw [← Nat.add_zero i, ← List.getElem?_drop, hText]
    rfl
  · rw [← List.drop_drop, hText]
    rfl

def walked (terminators text : List Char) (i : Nat) (image : List Char) (last : LineCol) :
    LineCol × LineCol :=
  (atIndex terminators text (i + image.length),
    if image = [] then last else atIndex terminators text (i + image.length - 1))

theorem walked_cons : walked terminators text (i + 1) cs (atIndex terminators text i) =
    walked terminators text i (c :: cs) last := by
  have hLength : i + 1 + cs.length = i + (c :: cs).length := by
    rw [List.length_cons]
    omega
  rw [walked, walked, hLength, if_neg (List.cons_ne_nil c cs)]
  cases cs with
  | nil => rfl
  | cons => rw [if_neg (List.cons_ne_nil _ _)]

theorem not_beginsPair (hText : text.drop i = c :: cs ++ rest)
    (hEnd : IsBetween terminators text (i + (c :: cs).length))
    (hOther : ∀ cs', c = '\r' → cs = '\n' :: cs' → False) :
    beginsPair terminators text i = false := by
  obtain ⟨hChar, hDrop⟩ := drop_succ hText
  cases cs with
  | nil => exact hEnd i rfl
  | cons x cs =>
    obtain ⟨hNext, -⟩ := drop_succ hDrop
    refine Bool.eq_false_iff.mpr fun hPair => ?_
    rw [beginsPair, Bool.and_eq_true, Bool.and_eq_true, beq_iff_eq, beq_iff_eq, hChar, hNext]
      at hPair
    exact hOther cs (Option.some.inj hPair.1.2) (congrArg (· :: cs) (Option.some.inj hPair.2))

/-- Walking over a part of a text keeps to the positions of its characters, if no pair is cut in two
where the part begins and where it ends. -/
theorem walk_atIndex (hText : text.drop i = image ++ rest) (hBegin : IsBetween terminators text i)
    (hEnd : IsBetween terminators text (i + image.length)) :
    walk terminators (atIndex terminators text i) last image =
      walked terminators text i image last := by
  generalize hPosition : atIndex terminators text i = p
  fun_induction walk terminators p last image generalizing i with
  | case1 p last => rw [walked, if_pos rfl, ← hPosition]; rfl
  | case2 p last cs hReturn ih =>
    subst hPosition
    obtain ⟨hChar, hFeed⟩ := drop_succ hText
    obtain ⟨hFeed, hDrop⟩ := drop_succ hFeed
    have hPair : beginsPair terminators text i = true := by
      rw [beginsPair, hReturn, hChar, hFeed]
      rfl
    -- The line feed is a column of the old line; the break is complete behind it.
    have hInside := LineCol.atIndex_succ_inside hBegin hChar (.inr hPair)
    have hBehind := LineCol.atIndex_succ_ends (Text.endsLine_of_beginsPair hPair)
    have hNext : IsBetween terminators text (i + 2) := by
      rw [Text.isBetween_succ, beginsPair, hFeed]
      simp
    rw [ih hDrop hNext hEnd.cons.cons (by rw [hBehind, hInside]), ← hInside, walked_cons,
      walked_cons]
  | case3 p last cs hReturn ih =>
    subst hPosition
    obtain ⟨hChar, hDrop⟩ := drop_succ hText
    have hOther : '\r' ∉ terminators := by simpa using hReturn
    have hNext := Text.isBetween_succ.mpr (Text.beginsPair_of_not_mem hChar hOther)
    rw [ih hDrop hNext hEnd.cons (LineCol.atIndex_succ_inside hBegin hChar (.inl hOther)),
      walked_cons]
  | case4 p last c cs hOther hTerminator ih =>
    subst hPosition
    obtain ⟨hChar, hDrop⟩ := drop_succ hText
    have hSingle := not_beginsPair hText hEnd hOther
    have hEnds : endsLine terminators text i = true := by
      rw [Text.endsLine_of_isBetween hBegin hChar, hTerminator, hSingle]
      rfl
    rw [ih hDrop (Text.isBetween_succ.mpr hSingle) hEnd.cons (LineCol.atIndex_succ_ends hEnds),
      walked_cons]
  | case5 p last c cs hOther hTerminator ih =>
    subst hPosition
    obtain ⟨hChar, hDrop⟩ := drop_succ hText
    have hSingle := not_beginsPair hText hEnd hOther
    rw [ih hDrop (Text.isBetween_succ.mpr hSingle) hEnd.cons
      (LineCol.atIndex_succ_inside hBegin hChar (.inl (by simpa using hTerminator))), walked_cons]

theorem advance_atIndex (hTracking : cfg.positionTracking = .full)
    (hText : text.drop i = image ++ rest) (hImage : image ≠ [])
    (hBegin : IsBetween cfg.lineTerminators text i)
    (hEnd : IsBetween cfg.lineTerminators text (i + image.length))
    (hBreaks : lineBreaks = false → ∀ c ∈ image, c ∉ cfg.lineTerminators)
    (hPosition : cur.position = atIndex cfg.lineTerminators text i) :
    (cur.advance cfg image rest lineBreaks).1.position =
        atIndex cfg.lineTerminators text (i + image.length) ∧
      (cur.advance cfg image rest lineBreaks).2 =
        some (atIndex cfg.lineTerminators text (i + image.length - 1)) := by
  rw [advance, hTracking, if_neg (by simp)]
  cases lineBreaks with
  | true =>
    rw [if_pos rfl, hPosition, walk_atIndex hText hBegin hEnd, walked, if_neg hImage]
    exact ⟨rfl, rfl⟩
  | false =>
    have hNone : ∀ j, i ≤ j → j < i + image.length →
        ∃ c, text[j]? = some c ∧ c ∉ cfg.lineTerminators := by
      intro j hLe hLt
      obtain ⟨k, rfl⟩ := Nat.exists_eq_add_of_le hLe
      have hk : k < image.length := Nat.lt_of_add_lt_add_left hLt
      refine ⟨image[k], ?_, hBreaks rfl _ (List.getElem_mem hk)⟩
      rw [getElem?_of_drop hText hk, List.getElem?_eq_getElem hk]
    have hLength := List.length_pos_iff.mpr hImage
    have hLast := LineCol.atIndex_add hBegin fun j hLe (hLt : j < i + (image.length - 1)) =>
      hNone j hLe (by omega)
    rw [if_neg (by simp), hPosition, LineCol.atIndex_add hBegin hNone, Nat.add_sub_assoc hLength,
      hLast]
    refine ⟨rfl, ?_⟩
    rw [← Nat.add_sub_assoc hLength]

end Lexer.Cursor

end PredictiveParsing
