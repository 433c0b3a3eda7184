import Mathlib.Data.List.Nodup
import PredictiveParsing.Proofs.Grouping
import PredictiveParsing.Proofs.Lexer.Dispatch
import PredictiveParsing.Proofs.Lexer.Tiling
import PredictiveParsing.Proofs.Vocabulary.Matching

/-!
# The tokens of a run by their groups

A run without errors cuts the text into tokens. Those that it does not skip are the tokens and the
groups of its result, and put in the order of their places they are the text.
-/

namespace PredictiveParsing.Lexer

variable {l : Lexer} {v : Vocabulary} {d : LexerDefinition} {config : LexerConfig}
  {text : List Char} {segments : List Segment} {start stop : Nat}

/-! ## Every token is of a compiled type -/

def Makes (l : Lexer) (t : Token) : Prop :=
  t.inserted = false ∧ ∃ compiled, l.compiled.lookup t.kind = some compiled

theorem Cuts.makes {modes : List Nat} {cur : Cursor} (h : l.Cuts text modes cur segments) :
    ∀ s ∈ segments, ∀ t, s.token? = some t → l.Makes t := by
  induction h with
  | done hRest => exact fun s hs => by cases hs
  | token hMatch hBehind ih =>
    obtain ⟨id, hTried⟩ := exists_tryMatch_of_matchIn hMatch
    obtain ⟨rfl, compiled, -, hLookup, -⟩ := tryMatch_eq_some hTried
    refine List.forall_mem_cons.mpr ⟨?_, ih⟩
    rintro t ⟨⟩
    exact ⟨rfl, compiled, hLookup⟩
  | skipped hRest hMatch hRecovery hBehind ih =>
    exact List.forall_mem_cons.mpr ⟨by rintro t ⟨⟩, ih⟩
  | stopped hRest hMatch hRecovery =>
    refine List.forall_mem_singleton.mpr ?_
    rintro t ⟨⟩

theorem makes_of_mem_segments {modes : List Nat} {cur : Cursor} :
    ∀ s ∈ l.segments text modes cur, ∀ t, s.token? = some t → l.Makes t :=
  (cuts_segments l text modes cur).makes

theorem mem_used_of_makes [RegexLibrary] (hBuild : build v d config = .ok l) {t : Token}
    (h : l.Makes t) :
    l.vocabulary = v ∧ t.kind ∈ d.used ∧ ∃ type, v.type? t.kind = some type ∧
      type.isCategory = false := by
  obtain ⟨-, compiled, hLookup⟩ := h
  obtain ⟨-, rfl⟩ := eq_of_build hBuild
  obtain ⟨hUsed, type, hType, hCompile⟩ := compile_of_lookup hLookup
  refine ⟨rfl, hUsed, type, hType, ?_⟩
  unfold TokenType.isCategory
  split
  next hCategory =>
    rw [hCategory] at hCompile
    cases hCompile
  · rfl

/-- The end of the input has no pattern, so no text is read as such a token. -/
theorem kind_ne_eof_of_makes [RegexLibrary] {types : List TokenType}
    (hBuild : build (.ofTypes types) d config = .ok l) {t : Token} (h : l.Makes t) :
    t.kind ≠ Vocabulary.eof := by
  intro hEof
  obtain ⟨-, -, type, hType, hPattern⟩ := mem_used_of_makes hBuild h
  have hEntry : (Vocabulary.ofTypes types).entries[Vocabulary.eof]? =
      Vocabulary.empty.entries[Vocabulary.eof]? :=
    Vocabulary.entries_foldl_define types (by decide)
  rw [hEof, Vocabulary.type?, hEntry] at hType
  cases hType
  cases hPattern

/-! ## Tokens and groups -/

theorem mem_groupNames {name : String} {t : Token} (ht : t ∈ segments.filterMap Segment.token?)
    (hGroup : l.group t = .named name) : name ∈ l.groupNames segments :=
  List.mem_eraseDups.mpr (List.mem_filterMap.mpr ⟨t, ht, by rw [hGroup]⟩)

/-- If none is skipped, the tokens and the groups of a result are the tokens of its segments. -/
theorem perm_tokens_groups
    (h : ∀ t ∈ segments.filterMap Segment.token?, l.group t ≠ .skip) :
    ((l.resultOf segments).tokens ++ (l.resultOf segments).groups.flatMap (·.2)).Perm
      (segments.filterMap Segment.token?) := by
  let keys := Group.default :: (l.groupNames segments).map Group.named
  have hKeys : keys.Nodup := by
    refine List.nodup_cons.mpr ⟨by simp, ?_⟩
    refine (nodup_eraseDups _).map fun a b hSame => ?_
    cases hSame
    rfl
  have hAll : (segments.filterMap Segment.token?).filter (fun t => l.group t ∈ keys) =
      segments.filterMap Segment.token? := by
    refine List.filter_eq_self.mpr fun t ht => decide_eq_true ?_
    cases hGroup : l.group t with
    | default => exact List.mem_cons_self
    | skip => exact absurd hGroup (h t ht)
    | named name =>
      exact List.mem_cons_of_mem _ (List.mem_map_of_mem (mem_groupNames ht hGroup))
  have hPerm := perm_flatMap_filter l.group hKeys (segments.filterMap Segment.token?)
  rw [hAll, List.flatMap_cons, List.flatMap_map] at hPerm
  rwa [resultOf, List.flatMap_map]

/-! ## The order of the text -/

def textOf (tokens : List Token) : List Char := tokens.flatMap (·.image.toList)

@[simp] theorem filterMap_token (t : Token) (modes : List Nat) (stuck : Bool)
    (segments : List Segment) : (Segment.token t modes stuck :: segments).filterMap Segment.token? =
      t :: segments.filterMap Segment.token? := rfl

@[simp] theorem filterMap_skipped (e : LexicalError) (segments : List Segment) :
    (Segment.skipped e :: segments).filterMap Segment.token? =
      segments.filterMap Segment.token? := rfl

theorem token?_of_errors (h : (l.resultOf segments).errors = []) :
    ∀ s ∈ segments, ∃ t, s.token? = some t := by
  intro s hs
  have hNone : s.error? l = none := List.filterMap_eq_nil_iff.mp h s hs
  cases s with
  | token t modes stuck => exact ⟨t, rfl⟩
  | skipped e => cases hNone

theorem textOf_tokens (h : ∀ s ∈ segments, ∃ t, s.token? = some t) :
    textOf (segments.filterMap Segment.token?) = segments.flatMap Segment.image := by
  induction segments with
  | nil => rfl
  | cons s segments ih =>
    obtain ⟨⟨t, ht⟩, hRest⟩ := List.forall_mem_cons.mp h
    cases s with
    | token t modes stuck =>
      rw [filterMap_token, List.flatMap_cons, ← ih hRest]
      rfl
    | skipped e => cases ht

theorem Segment.Tile.pairwise (h : Segment.Tile text start segments stop) :
    (∀ t ∈ segments.filterMap Segment.token?, start ≤ t.span.start) ∧
      (segments.filterMap Segment.token?).Pairwise fun a b => a.span.start < b.span.start := by
  induction segments generalizing start with
  | nil => exact ⟨by simp, .nil⟩
  | cons s segments ih =>
    obtain ⟨rfl, hLt, -, hRest⟩ := h
    obtain ⟨hBehind, hSorted⟩ := ih hRest
    cases s with
    | token t modes stuck =>
      rw [filterMap_token]
      refine ⟨List.forall_mem_cons.mpr ⟨Nat.le_refl _, fun x hx => ?_⟩, hSorted.cons fun x hx => ?_⟩
      · exact Nat.le_of_lt (Nat.lt_of_lt_of_le hLt (hBehind x hx))
      · exact Nat.lt_of_lt_of_le hLt (hBehind x hx)
    | skipped e =>
      rw [filterMap_skipped]
      exact ⟨fun x hx => Nat.le_of_lt (Nat.lt_of_lt_of_le hLt (hBehind x hx)), hSorted⟩

theorem image_ne_of_mem {t : Token} (h : Segment.Tile text start segments stop)
    (ht : t ∈ segments.filterMap Segment.token?) : t.image ≠ "" := by
  obtain ⟨s, hs, hToken⟩ := List.mem_filterMap.mp ht
  have hImage := h.image_ne_nil s hs
  cases s with
  | token t' modes stuck =>
    cases hToken
    intro hNone
    exact hImage (by rw [Segment.image, hNone]; rfl)
  | skipped e => cases hToken

theorem textOf_filter (tokens : List Token) :
    textOf (tokens.filter fun t => t.image ≠ "") = textOf tokens := by
  induction tokens with
  | nil => rfl
  | cons t tokens ih =>
    by_cases h : t.image = ""
    · rw [List.filter_cons_of_neg (by simp [h]), ih]
      simp [textOf, h]
    · rw [List.filter_cons_of_pos (by simp [h]), textOf, List.flatMap_cons]
      exact congrArg (t.image.toList ++ ·) ih

/-- Tokens of no text can stand anywhere between those of a tiling. -/
theorem textOf_of_perm {made merged : List Token} (h : Segment.Tile text start segments stop)
    (hMade : ∀ x ∈ made, x.image = "")
    (hPerm : merged.Perm (segments.filterMap Segment.token? ++ made))
    (hSorted : merged.Pairwise fun a b => a.span.start ≤ b.span.start) :
    textOf merged = textOf (segments.filterMap Segment.token?) := by
  obtain ⟨-, hPlaced⟩ := h.pairwise
  have hPlaces : ((segments.filterMap Segment.token?).map fun t => t.span.start).Nodup :=
    List.pairwise_map.mpr (hPlaced.imp Nat.ne_of_lt)
  have hRead : (merged.filter fun t => t.image ≠ "").Perm (segments.filterMap Segment.token?) := by
    have hFiltered := hPerm.filter fun t => t.image ≠ ""
    have hTile : (segments.filterMap Segment.token?).filter (fun t => t.image ≠ "") =
        segments.filterMap Segment.token? :=
      List.filter_eq_self.mpr fun t ht => decide_eq_true (image_ne_of_mem h ht)
    have hNone : made.filter (fun t => t.image ≠ "") = [] :=
      List.filter_eq_nil_iff.mpr fun t ht => by simp [hMade t ht]
    rwa [List.filter_append, hTile, hNone, List.append_nil] at hFiltered
  have hSame : merged.filter (fun t => t.image ≠ "") = segments.filterMap Segment.token? := by
    have hPlace : ∀ a b : Token, a ∈ merged.filter (fun t => t.image ≠ "") →
        b ∈ segments.filterMap Segment.token? → a.span.start ≤ b.span.start →
          b.span.start ≤ a.span.start → a = b := by
      intro a b ha hb hab hba
      exact List.inj_on_of_nodup_map hPlaces (hRead.mem_iff.mp ha) hb (Nat.le_antisymm hab hba)
    exact hRead.eq_of_pairwise hPlace (hSorted.sublist List.filter_sublist)
      (hPlaced.imp Nat.le_of_lt)
  rw [← textOf_filter, hSame]

theorem run_of_errors_eq_nil {mode : Nat} (h : (l.run text mode).errors = []) :
    l.run text mode = l.resultOf (l.cut text mode) ∧
      Segment.Tile text 0 (l.cut text mode) (Text.byteLength text) ∧
      textOf ((l.cut text mode).filterMap Segment.token?) = text := by
  have hSize : Text.byteLength text ≤ LexicalError.maxBytes := by
    by_contra hLarge
    rw [run, if_pos (Nat.lt_of_not_le hLarge)] at h
    cases h
  obtain ⟨hResult, -, -, hRecovering, hStopping⟩ := run_tiles l hSize mode
  have hTile : Segment.Tile text 0 (l.cut text mode) (Text.byteLength text) := by
    cases hOn : l.config.recovery with
    | true => exact hRecovering hOn
    | false =>
      rcases hStopping hOn with ⟨-, hTile⟩ | ⟨tokens, c, offset, position, hError, -⟩
      · exact hTile
      · rw [h] at hError
        cases hError
  refine ⟨hResult, hTile, ?_⟩
  rw [textOf_tokens (token?_of_errors (hResult ▸ h)), hTile.flatMap_image_eq]

end PredictiveParsing.Lexer
