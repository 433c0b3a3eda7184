import PredictiveParsing.CommandLine.Diagnostic
import PredictiveParsing.Proofs.Lexer.Positions

/-!
# Positions that are counted from the text

A problem without a position of its own is placed by counting the line feeds in front of it. Tokens
have the position that the cursor kept, to which a carriage return is a line break as well. Both are
the same as long as each carriage return has a line feed behind it in the same token; the first one
that has none puts the cursor a line ahead for good.
-/

namespace PredictiveParsing

namespace Text

variable {cs : List Char} {c : Char}

/-- Behind each carriage return there is a line feed. -/
def ReturnsPaired (cs : List Char) : Prop :=
  ∀ rest, '\r' :: rest <:+ cs → ∃ behind, rest = '\n' :: behind

theorem returnsPaired_nil : ReturnsPaired [] :=
  fun _ h => absurd (List.suffix_nil.mp h) (List.cons_ne_nil _ _)

theorem returnsPaired_cons : ReturnsPaired (c :: cs) ↔
    (c = '\r' → ∃ behind, cs = '\n' :: behind) ∧ ReturnsPaired cs := by
  constructor
  · intro h
    refine ⟨?_, fun rest hSuffix => h rest (hSuffix.trans (List.suffix_cons c cs))⟩
    rintro rfl
    exact h cs (List.suffix_refl _)
  · rintro ⟨hFirst, hBehind⟩ rest hSuffix
    rcases List.suffix_cons_iff.mp hSuffix with hAll | hLater
    · obtain ⟨rfl, rfl⟩ := List.cons.inj hAll
      exact hFirst rfl
    · exact hBehind rest hLater

theorem returnsPaired_of_not_mem (h : '\r' ∉ cs) : ReturnsPaired cs :=
  fun _ hSuffix => absurd (hSuffix.subset List.mem_cons_self) h

end Text

open Text (ReturnsPaired)

namespace LineCol

variable {p q : LineCol} {front rest cs : List Char} {a b : Prop}

theorem go_ofOffset_append :
    ofOffset.go p (Text.byteLength front) (front ++ rest) = front.foldl next p := by
  induction front generalizing p with
  | nil =>
    cases rest with
    | nil => rfl
    | cons c cs => exact if_pos c.utf8Size_pos
  | cons c cs ih =>
    have hNot : ¬ Text.byteLength (c :: cs) < c.utf8Size := Nat.not_lt.mpr (Nat.le_add_right _ _)
    rw [List.cons_append, ofOffset.go, if_neg hNot, Text.byteLength_cons, Nat.add_sub_cancel_left,
      ih, List.foldl_cons]

theorem ofOffset_append :
    ofOffset (front ++ rest) (Text.byteLength front) = front.foldl next .first :=
  go_ofOffset_append

theorem foldl_next_of_not_mem (h : '\n' ∉ cs) :
    cs.foldl next p = ⟨p.line, p.column + cs.length⟩ := by
  induction cs generalizing p with
  | nil => rfl
  | cons c cs ih =>
    rw [List.mem_cons, not_or] at h
    rw [List.foldl_cons, ih h.2, next, if_neg fun hFeed => h.1 hFeed.symm, List.length_cons,
      Nat.add_assoc, Nat.add_comm 1]

/-- One position is the other one under a condition, and is lines ahead of it otherwise. -/
structure AgreesIf (a : Prop) (p q : LineCol) : Prop where
  eq_of : a → p = q
  lt_of_not : ¬ a → q.line < p.line

namespace AgreesIf

theorem iff (h : AgreesIf a p q) : p = q ↔ a := by
  refine ⟨fun hSame => by_contra fun hNot => ?_, h.eq_of⟩
  exact Nat.ne_of_lt (h.lt_of_not hNot) (congrArg LineCol.line hSame.symm)

theorem congr (h : AgreesIf a p q) (hSame : a ↔ b) : AgreesIf b p q :=
  ⟨fun hb => h.eq_of (hSame.mpr hb), fun hb => h.lt_of_not (mt hSame.mp hb)⟩

theorem line_le (h : AgreesIf a p q) : q.line ≤ p.line := by
  by_cases ha : a
  · exact Nat.le_of_eq (congrArg LineCol.line (h.eq_of ha).symm)
  · exact Nat.le_of_lt (h.lt_of_not ha)

theorem nextLine (h : AgreesIf a p q) : AgreesIf a ⟨p.line + 1, 1⟩ ⟨q.line + 1, 1⟩ :=
  ⟨fun ha => by rw [h.eq_of ha], fun ha => Nat.succ_lt_succ (h.lt_of_not ha)⟩

theorem columns (h : AgreesIf a p q) (n : Nat) :
    AgreesIf a ⟨p.line, p.column + n⟩ ⟨q.line, q.column + n⟩ :=
  ⟨fun ha => by rw [h.eq_of ha], h.lt_of_not⟩

/-- A carriage return that is looked at alone is a line for the cursor only. -/
theorem ahead (h : AgreesIf a p q) : AgreesIf False ⟨p.line + 1, 1⟩ ⟨q.line, q.column + 1⟩ :=
  ⟨False.elim, fun _ => Nat.lt_succ_of_le h.line_le⟩

theorem walk (h : AgreesIf a p q) (last : LineCol) :
    AgreesIf (a ∧ ReturnsPaired cs) (Lexer.Cursor.walk ['\n', '\r'] p last cs).1
      (cs.foldl next q) := by
  fun_induction Lexer.Cursor.walk ['\n', '\r'] p last cs generalizing a q with
  | case1 p last => exact h.congr (and_iff_left Text.returnsPaired_nil).symm
  | case2 p last cs hReturn ih =>
    refine (ih h.nextLine).congr (and_congr_right fun _ => ?_)
    rw [Text.returnsPaired_cons, Text.returnsPaired_cons]
    simp
  | case3 p last cs hReturn ih => exact absurd (by decide) hReturn
  | case4 p last c cs hOther hTerminator ih =>
    rw [List.contains_iff_mem, List.mem_pair] at hTerminator
    rcases hTerminator with rfl | rfl
    · refine (ih h.nextLine).congr (and_congr_right fun _ => ?_)
      rw [Text.returnsPaired_cons, and_iff_right fun hReturn => by cases hReturn]
    · have hAlone : ¬ ReturnsPaired ('\r' :: cs) := fun hPaired => by
        obtain ⟨behind, rfl⟩ := (Text.returnsPaired_cons.mp hPaired).1 rfl
        exact hOther behind rfl rfl
      refine (ih h.ahead).congr (iff_of_false And.left fun hPaired => hAlone hPaired.2)
  | case5 p last c cs hOther hTerminator ih =>
    rw [List.contains_iff_mem, List.mem_pair, not_or] at hTerminator
    have hNext : next q c = ⟨q.line, q.column + 1⟩ := if_neg hTerminator.1
    rw [List.foldl_cons, hNext]
    refine (ih (h.columns 1)).congr (and_congr_right fun _ => ?_)
    rw [Text.returnsPaired_cons, and_iff_right fun hReturn => absurd hReturn hTerminator.2]

end AgreesIf

end LineCol

namespace Lexer

open LineCol (AgreesIf)

variable {l : Lexer} {v : Vocabulary} {d : LexerDefinition} {text front : List Char} {cur : Cursor}
  {modes : List Nat} {segments : List Segment} {m : Match} {a : Prop} {q : LineCol}

theorem agreesIf_finishToken (h : AgreesIf a cur.position q) (hConfig : l.config = {})
    (hBreaks : l.hasLineBreaks m.kind = false → ∀ c ∈ m.image, c ∉ ['\n', '\r']) :
    AgreesIf (a ∧ ReturnsPaired m.image) (l.finishToken cur m).1.position
      (m.image.foldl LineCol.next q) := by
  rw [finishToken, hConfig]
  cases hLooked : l.hasLineBreaks m.kind with
  | true => exact h.walk _
  | false =>
    have hNone := hBreaks hLooked
    have hReturn : '\r' ∉ m.image := fun hMem => hNone _ hMem (by decide)
    have hFeed : '\n' ∉ m.image := fun hMem => hNone _ hMem (by decide)
    rw [LineCol.foldl_next_of_not_mem hFeed]
    exact (h.columns _).congr (and_iff_left (Text.returnsPaired_of_not_mem hReturn)).symm

theorem Cuts.agreesIf (h : l.Cuts text modes cur segments) (hConfig : l.config = {})
    (hBreaks : ∀ cur id m, l.tryMatch text cur id = some m → l.hasLineBreaks m.kind = false →
      ∀ c ∈ m.image, c ∉ ['\n', '\r'])
    (hTokens : ∀ s ∈ segments, ∃ t, s.token? = some t)
    (hText : text = front ++ cur.rest) (hOffset : Text.byteLength front = cur.offset)
    (hHere : AgreesIf a cur.position (front.foldl LineCol.next .first)) {before after : List Token}
    {t : Token} (hSplit : segments.filterMap Segment.token? = before ++ t :: after) :
    ∃ p, t.start = some p ∧ AgreesIf (a ∧ ∀ u ∈ before, ReturnsPaired u.image.toList) p
      (.ofOffset text t.span.start) := by
  -- The condition grows by each token that is moved over, and nothing is skipped.
  induction h generalizing front before a with
  | done hRest => simp at hSplit
  | @token modes cur m segments hMatch hBehind ih =>
    obtain ⟨id, hTried⟩ := exists_tryMatch_of_matchIn hMatch
    rw [filterMap_token] at hSplit
    cases before with
    | nil =>
      obtain ⟨rfl, -⟩ := List.cons.inj hSplit
      refine ⟨cur.position, shown_of_full (by rw [hConfig]) _, ?_⟩
      have hPlace : LineCol.ofOffset text cur.offset = front.foldl LineCol.next .first := by
        rw [hText, ← hOffset, LineCol.ofOffset_append]
      exact hPlace ▸ hHere.congr (by simp)
    | cons u before =>
      obtain ⟨rfl, hLater⟩ := List.cons.inj hSplit
      obtain ⟨hText', hOffset'⟩ :=
        append_finishToken (l := l) hText hOffset (image_append_rest_of_matchIn hMatch)
      have hNext : AgreesIf (a ∧ ReturnsPaired m.image) (l.finishToken cur m).1.position
          ((front ++ m.image).foldl LineCol.next .first) := by
        rw [List.foldl_append]
        exact agreesIf_finishToken hHere hConfig (hBreaks _ _ _ hTried)
      obtain ⟨p, hStart, hAgrees⟩ :=
        ih (List.forall_mem_cons.mp hTokens).2 hText' hOffset' hNext hLater
      refine ⟨p, hStart, hAgrees.congr ?_⟩
      rw [List.forall_mem_cons, and_assoc, finishToken, String.toList_ofList]
  | skipped hRest hMatch hRecovery hBehind ih =>
    obtain ⟨t, hNone⟩ := hTokens _ List.mem_cons_self
    cases hNone
  | stopped hRest hMatch hRecovery =>
    obtain ⟨t, hNone⟩ := hTokens _ List.mem_cons_self
    cases hNone

open CommandLine (Diagnostic)

/-- In a text that is cut into tokens, a token has the position that is counted from the text just
if each carriage return in front of it has a line feed behind it in the same token. Just then a
problem with it is placed alike with and without its position. -/
theorem start_eq_counted [RegexLibrary] (hLaws : RegexLibrary.Lawful) (h : build v d {} = .ok l)
    (hTypes : ∀ id ∈ d.used, ∀ type, v.type? id = some type → type.LooksForBreaks) {mode : Nat}
    (hErrors : (l.run text mode).errors = []) {before after : List Token} {t : Token}
    (hTokens : (l.cut text mode).filterMap Segment.token? = before ++ t :: after) :
    (t.start = some (.ofOffset text t.span.start) ↔
      ∀ u ∈ before, ReturnsPaired u.image.toList) ∧
    ∀ message, (Diagnostic.mk t.span.start t.start message).place (.ofList text) =
        (Diagnostic.mk t.span.start none message).place (.ofList text) ↔
      ∀ u ∈ before, ReturnsPaired u.image.toList := by
  have hConfig : l.config = {} := by rw [(eq_of_build h).2]
  have hResult := (run_of_errors_eq_nil hErrors).1
  have hFirst : AgreesIf True (Cursor.start text).position
      (([] : List Char).foldl LineCol.next .first) :=
    ⟨fun _ => rfl, fun hNot => absurd trivial hNot⟩
  obtain ⟨p, hStart, hAgrees⟩ := (cuts_segments l text [mode] (.start text)).agreesIf hConfig
    (fun _ _ _ hTried hOff => not_mem_of_tryMatch hLaws h hTypes hTried hOff)
    (token?_of_errors (hResult ▸ hErrors)) rfl rfl hFirst hTokens
  rw [true_and] at hAgrees
  constructor
  · rw [hStart, Option.some_inj, hAgrees.iff]
  · intro message
    rw [Diagnostic.place, Diagnostic.place, hStart, String.toList_ofList]
    exact hAgrees.iff

namespace Returns

def types : List TokenType :=
  [.literal "Word" "a", .literal "Break" "\r\n", .literal "Return" "\r"]

def definition : LexerDefinition := .single [1, 2, 3]

def lines : List Char := ['\r', '\n', 'a', '\r', 'a']

def tokens : List Token :=
  [⟨2, "\r\n", ⟨0, 2⟩, some ⟨1, 1⟩, some ⟨1, 2⟩, false⟩,
    ⟨1, "a", ⟨2, 3⟩, some ⟨2, 1⟩, some ⟨2, 1⟩, false⟩,
    ⟨3, "\r", ⟨3, 4⟩, some ⟨2, 2⟩, some ⟨2, 2⟩, false⟩,
    ⟨1, "a", ⟨4, 5⟩, some ⟨3, 1⟩, some ⟨3, 1⟩, false⟩]

theorem not_custom : ∀ id ∈ definition.used, ∀ type,
    (Vocabulary.ofTypes types).type? id = some type →
      type.lineBreaks = none ∧ ∀ p, type.pattern ≠ .custom p := by
  have hUsed : definition.used = [1, 2, 3] := by decide
  rw [hUsed]
  simp only [List.forall_mem_cons]
  refine ⟨?_, ?_, ?_, fun id hNone => absurd hNone List.not_mem_nil⟩
  all_goals
    rintro type ⟨⟩
    exact ⟨rfl, fun p hCustom => by cases hCustom⟩

theorem exists_lexer : ∃ l, build (.ofTypes types) definition {} = .ok l ∧
    (l.run lines 0).errors = [] ∧ (l.cut lines 0).filterMap Segment.token? = tokens := by
  obtain ⟨l, hBuild, hBoth⟩ : ∃ l, build (.ofTypes types) definition {} = .ok l ∧
      decide ((l.undispatched.run lines 0).errors = [] ∧
        (l.undispatched.cut lines 0).filterMap Segment.token? = tokens) = true :=
    exists_of_build _ (by decide +kernel)
  have hDispatch := dispatchesByStart_of_lawful Regex.library_lawful hBuild
    fun id hId type hType p hCustom => absurd hCustom ((not_custom id hId type hType).2 p)
  have hSame : l.undispatched.cut lines 0 = l.cut lines 0 :=
    segments_undispatched hDispatch _ (Cursor.isAt_start _)
  rw [decide_eq_true_eq, run_undispatched hDispatch, hSame] at hBoth
  exact ⟨l, hBuild, hBoth⟩

end Returns

/-- Of two words the last one has a carriage return of its own in front of it. -/
theorem start_eq_counted_returns : ∃ l,
    build (.ofTypes Returns.types) Returns.definition {} = .ok l ∧
      (l.run Returns.lines 0).errors = [] ∧
      (l.cut Returns.lines 0).filterMap Segment.token? = Returns.tokens ∧
      (some ⟨2, 1⟩ = some (LineCol.ofOffset Returns.lines 2) ↔
        ∀ u ∈ Returns.tokens.take 1, ReturnsPaired u.image.toList) ∧
      (some ⟨3, 1⟩ = some (LineCol.ofOffset Returns.lines 4) ↔
        ∀ u ∈ Returns.tokens.take 3, ReturnsPaired u.image.toList) := by
  obtain ⟨l, hBuild, hErrors, hTokens⟩ := Returns.exists_lexer
  have hTypes : ∀ id ∈ Returns.definition.used, ∀ type,
      (Vocabulary.ofTypes Returns.types).type? id = some type → type.LooksForBreaks :=
    fun id hId type hType => .inr (Returns.not_custom id hId type hType)
  have hFirst : (l.cut Returns.lines 0).filterMap Segment.token? =
      Returns.tokens.take 1 ++ Returns.tokens[1] :: Returns.tokens.drop 2 := hTokens
  have hLast : (l.cut Returns.lines 0).filterMap Segment.token? =
      Returns.tokens.take 3 ++ Returns.tokens[3] :: [] := hTokens
  exact ⟨l, hBuild, hErrors, hTokens,
    (start_eq_counted Regex.library_lawful hBuild hTypes hErrors hFirst).1,
    (start_eq_counted Regex.library_lawful hBuild hTypes hErrors hLast).1⟩

/-- Behind a carriage return of its own, a word is in the third line for the lexer, and in the
second one for a count of line feeds. -/
theorem start_ne_counted : ∃ l, build (.ofTypes Returns.types) Returns.definition {} = .ok l ∧
    (l.run Returns.lines 0).errors = [] ∧ ∃ t ∈ (l.cut Returns.lines 0).filterMap Segment.token?,
      t.span.start = 4 ∧ t.start = some ⟨3, 1⟩ ∧ LineCol.ofOffset Returns.lines 4 = ⟨2, 3⟩ := by
  obtain ⟨l, hBuild, hErrors, hTokens⟩ := Returns.exists_lexer
  refine ⟨l, hBuild, hErrors, ?_⟩
  rw [hTokens]
  decide

end Lexer

end PredictiveParsing
