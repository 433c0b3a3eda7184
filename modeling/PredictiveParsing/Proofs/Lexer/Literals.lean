import Mathlib.Data.List.Infix
import PredictiveParsing.Proofs.Lexer.Groups
import PredictiveParsing.Proofs.Lexer.Modes

/-!
# Literals written one after the other are read back

Where none of the literals of a lexer begins another one, at most one of them stands at a place of a
text. So a text that is put together from literals is cut into just these, whatever order the types
are tried in and whichever of them are preferred for longer matches.
-/

namespace PredictiveParsing

def Vocabulary.spelling (v : Vocabulary) (id : TypeId) : String :=
  match (v.type? id).map TokenType.pattern with
  | some (Pattern.literal text) => text
  | _ => ""

/-- Types of literals none of which begins another one. Their tokens are all kept, and switch no
modes. -/
structure Vocabulary.SpellsApart (v : Vocabulary) (types : List TypeId) : Prop where
  literal : ∀ id ∈ types, ∃ type, v.type? id = some type ∧
    type.pattern = .literal (v.spelling id) ∧ type.group = .default ∧ type.pushMode = none ∧
      type.popMode = false
  ne_nil : ∀ id ∈ types, (v.spelling id).toList ≠ []
  apart : ∀ id ∈ types, ∀ other ∈ types, id ≠ other →
    ¬ (v.spelling id).toList <+: (v.spelling other).toList

/-- Tokens that stand next to each other from one offset up to another one, each with the span of
its image. -/
def Token.Adjoin : Nat → List Token → Nat → Prop
  | start, [], stop => start = stop
  | start, t :: tokens, stop =>
    t.span = ⟨start, start + Text.byteLength t.image.toList⟩ ∧ Adjoin t.span.stop tokens stop

variable {v : Vocabulary} {types : List TypeId} {id other : TypeId} {rest : List Char}

theorem Vocabulary.SpellsApart.eq_of_prefix (h : v.SpellsApart types) (hId : id ∈ types)
    (hOther : other ∈ types) (hPrefix : (v.spelling id).toList <+: rest)
    (hOtherPrefix : (v.spelling other).toList <+: rest) : other = id := by
  by_contra hDistinct
  rcases List.prefix_or_prefix_of_prefix hPrefix hOtherPrefix with hBegins | hBegins
  · exact h.apart id hId other hOther (Ne.symm hDistinct) hBegins
  · exact h.apart other hOther id hId hDistinct hBegins

namespace Lexer

variable {l : Lexer} {d : LexerDefinition} {config : LexerConfig} {text image : List Char}
  {cur : Cursor} {ids : List TypeId} {m : Match} {name : String} {type : TokenType}
  {facts : PatternFacts} {matcher : Matcher}

/-! ## Literals -/

theorem lookup_compileTypes [RegexLibrary] (hUsed : id ∈ d.used) (hType : v.type? id = some type)
    (hCompile : type.pattern.compile config.lineTerminators = .ok (matcher, facts)) :
    (compileTypes v d config).lookup id = some ⟨matcher, facts⟩ := by
  cases hLookup : (compileTypes v d config).lookup id with
  | none =>
    have hMem : (id, (⟨matcher, facts⟩ : Compiled)) ∈ compileTypes v d config := by
      refine List.mem_filterMap.mpr ⟨id, hUsed, ?_⟩
      rw [hType, Option.bind_eq_bind, Option.bind_some, hCompile]
    have hOther := List.lookup_eq_none_iff.mp hLookup _ hMem
    simp at hOther
  | some compiled =>
    obtain ⟨-, type', hType', hCompile'⟩ := compile_of_lookup hLookup
    obtain rfl := Option.some.inj (hType.symm.trans hType')
    rw [hCompile] at hCompile'
    cases hCompile'
    rfl

theorem tryMatch_literal (hLookup : l.compiled.lookup id = some ⟨.literal image, facts⟩)
    (hImage : image ≠ []) (hRest : cur.rest = image ++ rest) :
    l.tryMatch text cur id = some ⟨id, image, rest⟩ := by
  have hPrefix : image.isPrefixOf (image ++ rest) = true :=
    List.isPrefixOf_iff_prefix.mpr (List.prefix_append _ _)
  simp only [tryMatch, hLookup, hRest, Matcher.matchAt, if_pos hPrefix, Option.bind_eq_bind,
    Option.bind_some, if_pos (Text.byteLength_pos hImage), Text.splitBytes?_byteLength_append]
  rfl

theorem prefix_of_tryMatch (hLookup : l.compiled.lookup id = some ⟨.literal image, facts⟩)
    (hTried : l.tryMatch text cur id = some m) : image <+: cur.rest := by
  obtain ⟨-, compiled, n, hFound, hMatch, -⟩ := tryMatch_eq_some hTried
  obtain rfl := Option.some.inj (hLookup.symm.trans hFound)
  rw [Matcher.matchAt] at hMatch
  split at hMatch
  · next hPrefix => exact List.isPrefixOf_iff_prefix.mp hPrefix
  · cases hMatch

/-- If only one of some types matches, it is found among them, and nothing longer is preferred. -/
theorem matchFirst_of_only (hTried : l.tryMatch text cur id = some m) (hMem : id ∈ ids)
    (hOnly : ∀ other ∈ ids, ∀ found, l.tryMatch text cur other = some found → other = id)
    (hLonger : ∀ longer ∈ l.longer id, longer ∈ ids) : l.matchFirst text cur ids = some m := by
  have hSame {other : TypeId} {found : Match} (hOther : other ∈ ids)
      (hFound : l.tryMatch text cur other = some found) : found = m := by
    obtain rfl := hOnly other hOther found hFound
    exact Option.some.inj (hFound.symm.trans hTried)
  have hFirst : ids.findSome? (l.tryMatch text cur) = some m := by
    cases hFound : ids.findSome? (l.tryMatch text cur) with
    | none =>
      have hNone := List.findSome?_eq_none_iff.mp hFound id hMem
      rw [hTried] at hNone
      cases hNone
    | some found =>
      obtain ⟨other, hOther, hFound⟩ := List.exists_of_findSome?_eq_some hFound
      rw [hSame hOther hFound]
  obtain ⟨rfl, -⟩ := tryMatch_eq_some hTried
  rw [matchFirst, hFirst, Option.map_some, Option.some_inj]
  -- A type that is preferred would have to match here too.
  rcases l.preferLonger_cases text cur m with hKept | ⟨longer, hMore, hFound⟩
  · exact hKept
  · exact hSame (hLonger longer hMore) hFound

/-! ## Lexers of literals -/

theorem mem_used_iff (hModes : d.modes = [(name, types)]) : id ∈ d.used ↔ id ∈ types := by
  rw [LexerDefinition.used, hModes, List.mem_eraseDups, List.flatMap_singleton]

section Apart

variable [RegexLibrary] (h : build v d config = .ok l) (hTypes : v.SpellsApart types)
include h hTypes

theorem popsMode_spelling (hId : id ∈ types) : l.popsMode id = false := by
  obtain ⟨type, hType, -, -, -, hPop⟩ := hTypes.literal id hId
  obtain ⟨-, rfl⟩ := eq_of_build h
  rw [popsMode, Lexer.type?, hType]
  exact hPop

theorem switchModes_spelling (hId : id ∈ types) (modes : List Nat) :
    l.switchModes id modes = modes := by
  have hPushes : l.pushTarget? id = none := by
    obtain ⟨type, hType, -, -, hPush, -⟩ := hTypes.literal id hId
    obtain ⟨-, rfl⟩ := eq_of_build h
    simp only [pushTarget?, Lexer.type?, hType, hPush, Option.bind_eq_bind, Option.bind_some,
      Option.bind_none]
  rw [switchModes, popsMode_spelling h hTypes hId, hPushes]
  rfl

theorem group_spelling {t : Token} (hKind : t.kind ∈ types) : l.group t = .default := by
  obtain ⟨type, hType, -, hGroup, -⟩ := hTypes.literal t.kind hKind
  obtain ⟨-, rfl⟩ := eq_of_build h
  rw [group, Lexer.type?, hType]
  exact hGroup

variable (hModes : d.modes = [(name, types)])
include hModes

theorem exists_lookup_spelling (hId : id ∈ types) :
    ∃ facts, l.compiled.lookup id = some ⟨.literal (v.spelling id).toList, facts⟩ := by
  obtain ⟨type, hType, hPattern, -⟩ := hTypes.literal id hId
  obtain ⟨-, rfl⟩ := eq_of_build h
  refine ⟨(Pattern.compileLiteral config.lineTerminators (v.spelling id).toList).2,
    lookup_compileTypes ((mem_used_iff hModes).mpr hId) hType ?_⟩
  rw [hPattern]
  rfl

theorem dispatchesByStart_of_spellsApart : l.DispatchesByStart := by
  refine dispatchesByStart_of_literals h fun id hUsed type hType => ?_
  obtain ⟨type', hType', hPattern, -⟩ := hTypes.literal id ((mem_used_iff hModes).mp hUsed)
  obtain rfl := Option.some.inj (hType.symm.trans hType')
  exact ⟨_, hPattern⟩

theorem matchIn_spelling (hId : id ∈ types) (hAt : cur.IsAt text)
    (hRest : cur.rest = (v.spelling id).toList ++ rest) :
    ∃ m, l.matchIn text (l.mode 0) cur = some m ∧ m.kind = id ∧
      m.image = (v.spelling id).toList ∧ m.rest = rest := by
  have hImage := hTypes.ne_nil id hId
  have hMode : d.modes[0]? = some (name, types) := by rw [hModes]; rfl
  have hIds : (l.mode 0).types = types := by rw [mode_of_build h hMode]; rfl
  obtain ⟨facts, hLookup⟩ := exists_lookup_spelling h hTypes hModes hId
  obtain ⟨c, cs, hCons⟩ : ∃ c cs, cur.rest = c :: cs :=
    List.exists_cons_of_ne_nil (by simp [hRest, hImage])
  rw [(dispatchesByStart_of_spellsApart h hTypes hModes).matchIn_eq hAt hCons, hIds]
  refine ⟨_, matchFirst_of_only (tryMatch_literal hLookup hImage hRest) hId ?_ fun longer hLonger =>
    mem_types_of_longer h (List.mem_of_getElem? hMode) hId hLonger, rfl, rfl, rfl⟩
  -- Of two literals that both stand here, one would begin the other.
  intro other hOther found hFound
  obtain ⟨facts', hLookup'⟩ := exists_lookup_spelling h hTypes hModes hOther
  exact hTypes.eq_of_prefix hId hOther (hRest ▸ List.prefix_append _ _)
    (prefix_of_tryMatch hLookup' hFound)

theorem segments_spelled (hIds : ∀ id ∈ ids, id ∈ types) (hAt : cur.IsAt text)
    (hRest : cur.rest = ids.flatMap fun id => (v.spelling id).toList) :
    ∃ tokens : List Token, tokens.map (·.kind) = ids ∧
      tokens.map (·.image) = ids.map v.spelling ∧
      Token.Adjoin cur.offset tokens (cur.offset + Text.byteLength cur.rest) ∧
      l.segments text [0] cur = tokens.map fun t => .token t [0] false := by
  -- Each literal is the next token of the run, and leaves the mode as it is.
  induction ids generalizing cur with
  | nil =>
    have hNone : cur.rest = [] := hRest
    exact ⟨[], rfl, rfl, by rw [hNone]; rfl, segments_end hNone⟩
  | cons id ids ih =>
    obtain ⟨hId, hIds⟩ := List.forall_mem_cons.mp hIds
    rw [List.flatMap_cons] at hRest
    obtain ⟨c, cs, hCons⟩ : ∃ c cs, cur.rest = c :: cs :=
      List.exists_cons_of_ne_nil (by simp [hRest, hTypes.ne_nil id hId])
    obtain ⟨m, hMatch, hKind, hImage, hBehind⟩ :=
      matchIn_spelling h hTypes hModes hId hAt hRest
    have hInForce : l.matchIn text (l.mode ([0].headD 0)) cur = some m := hMatch
    obtain ⟨tokens, hKinds, hImages, hAdjoin, hSegments⟩ :=
      ih hIds (hAt.finishToken (image_append_rest_of_matchIn hMatch))
        ((rest_finishToken l cur m).trans hBehind)
    refine ⟨(l.finishToken cur m).2 :: tokens, ?_, ?_, ⟨?_, ?_⟩, ?_⟩
    · rw [List.map_cons, hKinds, finishToken, hKind]
    · rw [List.map_cons, hImages, List.map_cons, finishToken, hImage, String.ofList_toList]
    · rw [finishToken, String.toList_ofList]
    · rw [rest_finishToken, hBehind, finishToken, Cursor.offset_advance, hImage] at hAdjoin
      rw [hRest, Text.byteLength_append, ← Nat.add_assoc, finishToken, hImage]
      exact hAdjoin
    · rw [segments_token hCons hInForce, hKind, popsMode_spelling h hTypes hId,
        switchModes_spelling h hTypes hId, hSegments]
      rfl

end Apart

theorem defaultMode_of_modes [RegexLibrary] (h : build v d config = .ok l) (hModes : d.modes = [(name, types)]) :
    l.defaultMode = 0 := by
  obtain ⟨-, hValid⟩ := isStack_start h (.inl rfl)
  have hLt := hValid l.defaultMode List.mem_cons_self
  rw [hModes] at hLt
  exact Nat.lt_one_iff.mp hLt

/-- Pieces that are all tokens of the default group, none of which fails to leave its mode, give
these tokens and nothing else. -/
theorem resultOf_tokens {tokens : List Token} {modes : List Nat}
    (hGroup : ∀ t ∈ tokens, l.group t = .default) :
    l.resultOf (tokens.map fun t => .token t modes false) = ⟨tokens, [], []⟩ := by
  have hTokens : (tokens.map fun t => Segment.token t modes false).filterMap Segment.token? =
      tokens := by
    rw [List.filterMap_map]
    exact List.filterMap_some
  have hNames : l.groupNames (tokens.map fun t => .token t modes false) = [] := by
    rw [groupNames, hTokens, List.filterMap_eq_nil_iff.mpr fun t ht => by rw [hGroup t ht]]
    rfl
  have hErrors : (tokens.map fun t => Segment.token t modes false).filterMap (Segment.error? l) =
      [] := by
    rw [List.filterMap_map]
    exact List.filterMap_eq_nil_iff.mpr fun t _ => rfl
  have hDefault : l.tokensIn .default (tokens.map fun t => .token t modes false) = tokens := by
    rw [tokensIn, hTokens]
    exact List.filter_eq_self.mpr fun t ht => decide_eq_true (hGroup t ht)
  rw [resultOf, hNames, hErrors, hDefault]
  rfl

/-- A lexer of literals none of which begins another one reads back what is written with them: any
list of its types is the list of the tokens that its literals are cut into. -/
theorem tokenize_join [RegexLibrary] (h : build v d config = .ok l) (hModes : d.modes = [(name, types)])
    (hTypes : v.SpellsApart types) (hIds : ∀ id ∈ ids, id ∈ types) {text : String}
    (hText : text = String.join (ids.map v.spelling)) :
    ∃ tokens : List Token, tokens.map (·.kind) = ids ∧
      tokens.map (·.image) = ids.map v.spelling ∧
      Token.Adjoin 0 tokens (Text.byteLength text.toList) ∧
      l.cut text.toList l.defaultMode = tokens.map (fun t => .token t [l.defaultMode] false) ∧
      l.tokenize text =
        if Text.byteLength text.toList ≤ LexicalError.maxBytes then ⟨tokens, [], []⟩
        else ⟨[], [], [.inputTooLarge (Text.byteLength text.toList)]⟩ := by
  have hRest : (Cursor.start text.toList).rest = ids.flatMap fun id => (v.spelling id).toList := by
    rw [Cursor.start, hText, String.toList_join]
    exact List.flatMap_map _ _ ids
  obtain ⟨tokens, hKinds, hImages, hAdjoin, hSegments⟩ :=
    segments_spelled h hTypes hModes hIds (Cursor.isAt_start text.toList) hRest
  rw [← defaultMode_of_modes h hModes] at hSegments
  refine ⟨tokens, hKinds, hImages, ?_, hSegments, ?_⟩
  · rwa [Cursor.start, Nat.zero_add] at hAdjoin
  · have hGroup : ∀ t ∈ tokens, l.group t = .default := fun t ht =>
      group_spelling h hTypes (hIds _ (hKinds ▸ List.mem_map_of_mem ht))
    rw [tokenize, run, hSegments, resultOf_tokens hGroup]
    split
    · next hLarge => rw [if_neg (Nat.not_le.mpr hLarge)]
    · next hSize => rw [if_pos (Nat.not_lt.mp hSize)]

namespace Signs

/-- Arrows that begin with the same characters, of which one is preferred to the other, and signs in
one bucket of the table of first characters. -/
def vocabulary : Vocabulary :=
  .ofTypes [.literal "Both" "<->", { TokenType.literal "Left" "<--" with longer := [1] },
    .literal "Euro" "€", .literal "Lira" "₤"]

theorem spellsApart : vocabulary.SpellsApart [2, 1, 3, 4] where
  literal := by
    simp only [List.forall_mem_cons]
    exact ⟨⟨_, rfl, rfl, rfl, rfl, rfl⟩, ⟨_, rfl, rfl, rfl, rfl, rfl⟩, ⟨_, rfl, rfl, rfl, rfl, rfl⟩,
      ⟨_, rfl, rfl, rfl, rfl, rfl⟩, fun id hNone => absurd hNone List.not_mem_nil⟩
  ne_nil := by decide
  apart := by decide

end Signs

/-- The arrow to both sides is read back, though the one to the left is tried before it. -/
theorem tokenize_join_signs : ∃ l tokens,
    build Signs.vocabulary (.single [2, 1, 3, 4]) {} = .ok l ∧
      Signs.vocabulary.SpellsApart [2, 1, 3, 4] ∧
      tokens.map (·.kind) = [2, 1, 4, 3, 3] ∧
      tokens.map (·.image) = ["<--", "<->", "₤", "€", "€"] ∧ Token.Adjoin 0 tokens 15 ∧
      l.tokenize "<--<->₤€€" = ⟨tokens, [], []⟩ := by
  obtain ⟨l, hBuild, -⟩ : ∃ l, build Signs.vocabulary (.single [2, 1, 3, 4]) {} = .ok l ∧ _ :=
    exists_of_build (fun _ => true) (by decide +kernel)
  have hText : "<--<->₤€€" = String.join ([2, 1, 4, 3, 3].map Signs.vocabulary.spelling) := by
    decide
  obtain ⟨tokens, hKinds, hImages, hAdjoin, -, hResult⟩ :=
    tokenize_join hBuild rfl Signs.spellsApart (by decide) hText
  exact ⟨l, tokens, hBuild, Signs.spellsApart, hKinds, hImages, hAdjoin, hResult⟩

end Lexer

end PredictiveParsing
