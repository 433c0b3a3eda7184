import PredictiveParsing.Proofs.Lexer.Segments
import PredictiveParsing.Proofs.PatternFacts

/-!
# Dispatch on the first character is transparent

A lexer that tries all types of a mode at every place finds the same tokens and errors as one that
tries only those whose matches can begin with the next character: a type that a bucket does not list
has no match there.
-/

namespace PredictiveParsing

/-! ## Tables -/

namespace DispatchTable

variable {c d : Char} {b : Nat} {set : CharSet}

def full (ids : List TypeId) : DispatchTable := ⟨Array.replicate bucketCount ids⟩

theorem bucket_lt_bucketCount (c : Char) : bucket c < bucketCount := by
  have hChar : c.toNat < 0x110000 := by
    rcases c.valid with hLow | ⟨-, hHigh⟩
    · exact Nat.lt_trans hLow (by decide)
    · exact hHigh
  unfold bucket bucketCount asciiBuckets
  split <;> omega

theorem bucket_mono (h : c ≤ d) : bucket c ≤ bucket d := by
  have hChars : c.toNat ≤ d.toNat := h
  unfold bucket asciiBuckets
  split <;> split <;> omega

theorem candidates_full (ids : List TypeId) (c : Char) : (full ids).candidates c = ids := by
  rw [candidates, full, Array.getElem?_replicate, if_pos (bucket_lt_bucketCount c)]
  rfl

theorem candidates_build (types : List (TypeId × FirstChars)) (c : Char) :
    (build types).candidates c = candidatesIn types (bucket c) := by
  rw [candidates, build, Array.getElem?_map, Array.getElem?_range,
    if_pos (bucket_lt_bucketCount c)]
  rfl

theorem reaches_bucket (h : set.contains c = true) : reaches set (bucket c) = true := by
  obtain ⟨r, hr, hIn⟩ := List.any_eq_true.mp h
  obtain ⟨hFirst, hLast⟩ := CharRange.contains_iff.mp hIn
  refine List.any_eq_true.mpr ⟨r, hr, ?_⟩
  rw [Bool.and_eq_true, decide_eq_true_eq, decide_eq_true_eq]
  exact ⟨bucket_mono hFirst, bucket_mono hLast⟩

variable {α β : Type} {f : TypeId → Option β} {found : List TypeId}

theorem findSome?_foldl (key : α → TypeId) {step : List TypeId → α → List TypeId} {xs : List α}
    (h : ∀ found, ∀ x ∈ xs, (step found x).findSome? f = (found.findSome? f).or (f (key x))) :
    (xs.foldl step found).findSome? f = (found.findSome? f).or ((xs.map key).findSome? f) := by
  induction xs generalizing found with
  | nil => rw [List.foldl_nil, List.map_nil, List.findSome?_nil, Option.or_none]
  | cons x xs ih =>
    rw [List.foldl_cons, ih fun found y hy => h found y (List.mem_cons_of_mem x hy),
      h found x List.mem_cons_self, List.map_cons, List.findSome?_cons, Option.or_assoc]
    cases f (key x) <;> rfl

theorem findSome?_or_of_mem {id : TypeId} (h : id ∈ found) :
    (found.findSome? f).or (f id) = found.findSome? f := by
  cases hFound : found.findSome? f with
  | none => exact List.findSome?_eq_none_iff.mp hFound id h
  | some b => rfl

/-- A search misses neither the types that do not reach a bucket, if they have nothing to find, nor
the ones that are not repeated in it. -/
theorem findSome?_candidatesIn {types : List (TypeId × FirstChars)}
    (h : ∀ id set, (id, .among set) ∈ types → reaches set b = false → f id = none) :
    (candidatesIn types b).findSome? f = (types.map Prod.fst).findSome? f := by
  have hAppend (found : List TypeId) (id : TypeId) :
      (found ++ [id]).findSome? f = (found.findSome? f).or (f id) := by
    rw [List.findSome?_append, List.findSome?_singleton]
  rw [candidatesIn, findSome?_foldl Prod.fst, List.findSome?_nil, Option.none_or]
  rintro found ⟨id, first⟩ hMem
  cases first with
  | any => exact hAppend found id
  | among set =>
    dsimp only
    split
    · exact hAppend found id
    next hSkipped =>
      rcases Bool.eq_false_or_eq_true (reaches set b) with hReached | hReached
      · have hLast : found.getLast? = some id := by simpa [hReached] using hSkipped
        exact (findSome?_or_of_mem (List.mem_of_getLast? hLast)).symm
      · rw [h id set hMem hReached, Option.or_none]

end DispatchTable

/-! ## Patterns -/

/-- The hint of a custom pattern holds: a match that is not empty starts with one of its
characters. -/
def CustomPattern.StartsAsStated (p : CustomPattern) : Prop :=
  ∀ cs, p.startChars = some cs → ∀ front c rest n,
    p.matchAt (front ++ c :: rest) (Text.byteLength front) = some n → 0 < n → c ∈ cs

namespace Pattern

variable [RegexLibrary] {p : Pattern} {terminators front rest : List Char} {m : Matcher} {facts : PatternFacts}
  {set : CharSet} {c : Char} {n : Nat}

theorem contains_of_matchAt (h : p.compile terminators = .ok (m, facts))
    (hFirst : facts.first = .among set)
    (hRegex : ∀ source, p = .regex source → RegexLibrary.Lawful) (hCustom : ∀ q, p = .custom q → q.StartsAsStated)
    (hMatch : m.matchAt (front ++ c :: rest) (Text.byteLength front) (c :: rest) = some n)
    (hn : 0 < n) : set.contains c = true := by
  cases p with
  | literal text =>
    cases h
    dsimp only at hFirst
    split at hFirst
    · cases hFirst
    next d ds hText =>
      cases hFirst
      rw [Matcher.matchAt, hText] at hMatch
      split at hMatch
      next hPrefix =>
        have hStart : d = c := by
          rw [List.isPrefixOf, Bool.and_eq_true, beq_iff_eq] at hPrefix
          exact hPrefix.1
        have hMem : (CharSet.ofChars [d]).contains c = true :=
          CharSet.contains_ofChars.mpr (List.mem_singleton.mpr hStart.symm)
        exact hMem
      · cases hMatch
  | regex source =>
    obtain ⟨d, cs, hRest, hSet⟩ := exists_first_of_regex (hRegex source rfl) h hMatch hFirst hn
    cases hRest
    exact hSet
  | custom q =>
    cases h
    dsimp only at hFirst
    split at hFirst
    next cs hHint =>
      cases hFirst
      have hMatch := Option.eq_some_of_filter_eq_some hMatch
      exact CharSet.contains_ofChars.mpr (hCustom q rfl cs hHint front c rest n hMatch hn)
    · cases hFirst
  | category => cases h

end Pattern

/-! ## Lexers -/

namespace Lexer

variable {l : Lexer} {v : Vocabulary} {d : LexerDefinition} {config : LexerConfig}
  {text rest : List Char} {c : Char} {cur : Cursor} {id : TypeId}

/-- The same lexer, which tries all types of a mode at every place. -/
def undispatched (l : Lexer) : Lexer :=
  { l with modes := l.modes.map fun m => { m with dispatch := .full m.types } }

/-- The tables are those of the compiled types, which match whole characters, and only where one of
their first characters is. -/
structure DispatchesByStart (l : Lexer) : Prop where
  build_modes : ∀ m ∈ l.modes, m = buildMode l.compiled m.name m.types
  contains_of_matchAt : ∀ id compiled set, l.compiled.lookup id = some compiled →
    compiled.facts.first = .among set → ∀ front c rest n,
      compiled.matcher.matchAt (front ++ c :: rest) (Text.byteLength front) (c :: rest) = some n →
        0 < n → set.contains c = true
  exists_splitBytes? : ∀ id compiled, l.compiled.lookup id = some compiled →
    ∀ text offset rest n, compiled.matcher.matchAt text offset rest = some n →
      ∃ image behind, Text.splitBytes? n rest = some (image, behind)

section Building

variable [RegexLibrary]

theorem compile_of_lookup {compiled : Compiled}
    (h : (compileTypes v d config).lookup id = some compiled) :
    id ∈ d.used ∧ ∃ type, v.type? id = some type ∧
      type.pattern.compile config.lineTerminators = .ok (compiled.matcher, compiled.facts) := by
  obtain ⟨before, behind, hTypes, -⟩ := List.lookup_eq_some_iff.mp h
  have hMem : (id, compiled) ∈ compileTypes v d config := by simp [hTypes]
  obtain ⟨id', hUsed, hEntry⟩ := List.mem_filterMap.mp hMem
  obtain ⟨type, hType, hCompiled⟩ := Option.bind_eq_some_iff.mp hEntry
  split at hCompiled
  next hCompile =>
    cases hCompiled
    exact ⟨hUsed, type, hType, hCompile⟩
  · cases hCompiled

theorem eq_of_build (h : build v d config = .ok l) : definitionErrors v d config = [] ∧
    l = { vocabulary := v
          config
          compiled := compileTypes v d config
          modes := d.modes.map fun (name, types) => buildMode (compileTypes v d config) name types
          defaultMode := (d.modeIndex? d.defaultMode).getD 0 } := by
  unfold build at h
  split at h
  next hErrors =>
    cases h
    exact ⟨hErrors, rfl⟩
  · cases h

theorem exists_of_build (p : Lexer → Bool) (h : (build v d config).toOption.any p = true) :
    ∃ l, build v d config = .ok l ∧ p l = true := by
  cases hBuild : build v d config with
  | error e =>
    rw [hBuild] at h
    cases h
  | ok l =>
    rw [hBuild] at h
    exact ⟨l, rfl, h⟩

theorem dispatchesByStart_of_build (h : build v d config = .ok l)
    (hRegex : ∀ id ∈ d.used, ∀ type, v.type? id = some type →
      ∀ source, type.pattern = .regex source → RegexLibrary.Lawful)
    (hCustom : ∀ id ∈ d.used, ∀ type, v.type? id = some type →
      ∀ p, type.pattern = .custom p → p.StartsAsStated) : l.DispatchesByStart := by
  obtain ⟨-, rfl⟩ := eq_of_build h
  refine ⟨?_, ?_, ?_⟩
  · intro m hm
    obtain ⟨⟨name, types⟩, -, rfl⟩ := List.mem_map.mp hm
    rfl
  · intro id compiled set hLookup hFirst front c rest n
    obtain ⟨hUsed, type, hType, hCompile⟩ := compile_of_lookup hLookup
    exact Pattern.contains_of_matchAt hCompile hFirst (hRegex id hUsed type hType)
      (hCustom id hUsed type hType)
  · intro id compiled hLookup text offset rest n
    obtain ⟨hUsed, type, hType, hCompile⟩ := compile_of_lookup hLookup
    exact Pattern.exists_splitBytes? hCompile (hRegex id hUsed type hType)

theorem dispatchesByStart_of_lawful (hLaws : RegexLibrary.Lawful) (h : build v d config = .ok l)
    (hCustom : ∀ id ∈ d.used, ∀ type, v.type? id = some type →
      ∀ p, type.pattern = .custom p → p.StartsAsStated) : l.DispatchesByStart :=
  dispatchesByStart_of_build h (fun _ _ _ _ _ _ => hLaws) hCustom

/-- Nothing is asked of the library where all patterns are literals. -/
theorem dispatchesByStart_of_literals (h : build v d config = .ok l)
    (hLiteral : ∀ id ∈ d.used, ∀ type, v.type? id = some type →
      ∃ image, type.pattern = .literal image) : l.DispatchesByStart := by
  refine dispatchesByStart_of_build h ?_ ?_
  · intro id hUsed type hType source hRegex
    obtain ⟨image, hImage⟩ := hLiteral id hUsed type hType
    rw [hImage] at hRegex
    cases hRegex
  · intro id hUsed type hType p hCustom
    obtain ⟨image, hImage⟩ := hLiteral id hUsed type hType
    rw [hImage] at hCustom
    cases hCustom

end Building

theorem DispatchesByStart.tryMatch_eq_none (h : l.DispatchesByStart) {compiled : Compiled}
    {set : CharSet} (hLookup : l.compiled.lookup id = some compiled)
    (hFirst : compiled.facts.first = .among set) (hAt : cur.IsAt text) (hRest : cur.rest = c :: rest)
    (hSet : set.contains c = false) : l.tryMatch text cur id = none := by
  obtain ⟨front, hText, hOffset⟩ := hAt
  rw [hRest] at hText
  rw [tryMatch, hLookup, Option.bind_eq_bind, Option.bind_some]
  refine Option.bind_eq_none_iff.mpr fun n hMatch => ?_
  rw [hText, ← hOffset, hRest] at hMatch
  refine if_neg fun hn => ?_
  rw [h.contains_of_matchAt id compiled set hLookup hFirst front c rest n hMatch hn] at hSet
  cases hSet

theorem findSome?_compiled (ids : List TypeId) :
    ((ids.filterMap fun id => (l.compiled.lookup id).map fun c => (id, c.facts.first)).map
      Prod.fst).findSome? (l.tryMatch text cur) = ids.findSome? (l.tryMatch text cur) := by
  induction ids with
  | nil => rfl
  | cons id ids ih =>
    cases hLookup : l.compiled.lookup id with
    | none =>
      have hNone : l.tryMatch text cur id = none := by rw [tryMatch, hLookup]; rfl
      rw [List.filterMap_cons_none (by rw [hLookup]; rfl), ih, List.findSome?_cons, hNone]
    | some compiled =>
      rw [List.filterMap_cons_some (by rw [hLookup]; rfl), List.map_cons, List.findSome?_cons, ih,
        List.findSome?_cons]

theorem DispatchesByStart.matchFirst_candidates (h : l.DispatchesByStart) {m : Mode}
    (hMode : m ∈ l.modes) (hAt : cur.IsAt text) (hRest : cur.rest = c :: rest) :
    l.matchFirst text cur (m.dispatch.candidates c) = l.matchFirst text cur m.types := by
  unfold matchFirst
  rw [h.build_modes m hMode, buildMode, DispatchTable.candidates_build,
    DispatchTable.findSome?_candidatesIn, findSome?_compiled]
  intro id set hType hReached
  obtain ⟨id', -, hCompiled⟩ := List.mem_filterMap.mp hType
  obtain ⟨compiled, hLookup, hEntry⟩ := Option.map_eq_some_iff.mp hCompiled
  obtain ⟨rfl, hFirst⟩ := Prod.mk.inj hEntry
  refine h.tryMatch_eq_none hLookup hFirst hAt hRest (Bool.eq_false_iff.mpr fun hSet => ?_)
  rw [DispatchTable.reaches_bucket hSet] at hReached
  cases hReached

theorem DispatchesByStart.matchIn_eq (h : l.DispatchesByStart) (hAt : cur.IsAt text)
    (hRest : cur.rest = c :: rest) (index : Nat) :
    l.matchIn text (l.mode index) cur = l.matchFirst text cur (l.mode index).types := by
  have hCandidates : l.matchIn text (l.mode index) cur =
      l.matchFirst text cur ((l.mode index).dispatch.candidates c) := by
    simp only [matchIn, hRest]
  rw [hCandidates, mode, List.getD_eq_getElem?_getD]
  cases hMode : l.modes[index]? with
  | none => rfl
  | some m => exact h.matchFirst_candidates (List.mem_of_getElem? hMode) hAt hRest

/-! ## Runs without dispatch -/

theorem types_mode_undispatched (index : Nat) :
    (l.undispatched.mode index).types = (l.mode index).types := by
  unfold mode undispatched
  rw [List.getD_eq_getElem?_getD, List.getD_eq_getElem?_getD, List.getElem?_map]
  cases l.modes[index]? <;> rfl

theorem matchIn_undispatched (h : l.DispatchesByStart) (hAt : cur.IsAt text) (index : Nat) :
    l.undispatched.matchIn text (l.undispatched.mode index) cur =
      l.matchIn text (l.mode index) cur := by
  unfold matchIn
  split
  · rfl
  next c rest hRest =>
    have hSame (ids : List TypeId) :
        l.undispatched.matchFirst text cur ids = l.matchFirst text cur ids := rfl
    rw [hSame]
    unfold mode undispatched
    rw [List.getD_eq_getElem?_getD, List.getD_eq_getElem?_getD, List.getElem?_map]
    cases hMode : l.modes[index]? with
    | none => rfl
    | some m =>
      have hFull : (DispatchTable.full m.types).candidates c = m.types :=
        DispatchTable.candidates_full m.types c
      rw [Option.map_some, Option.getD_some, Option.getD_some, hFull,
        h.matchFirst_candidates (List.mem_of_getElem? hMode) hAt hRest]

theorem skipUnmatched_undispatched {m m' : Mode} (h : m'.types = m.types) (cs : List Char) :
    l.undispatched.skipUnmatched text m' cur cs = l.skipUnmatched text m cur cs := by
  induction cs generalizing cur with
  | nil => rfl
  | cons c cs ih =>
    rw [skipUnmatched, skipUnmatched, h, ih]
    rfl

theorem skip_undispatched (index : Nat) (cs : List Char) :
    l.undispatched.skip text (l.undispatched.mode index) cur c cs =
      l.skip text (l.mode index) cur c cs := by
  simp only [skip, skipUnmatched_undispatched (types_mode_undispatched index)]
  rfl

theorem modeIndex?_undispatched (name : String) :
    l.undispatched.modeIndex? name = l.modeIndex? name := by
  unfold modeIndex? undispatched
  rw [List.findIdx?_map]
  rfl

theorem switchModes_undispatched (kind : TypeId) (modes : List Nat) :
    l.undispatched.switchModes kind modes = l.switchModes kind modes := by
  have hTarget : l.undispatched.pushTarget? kind = l.pushTarget? kind := by
    unfold pushTarget?
    simp only [modeIndex?_undispatched]
    rfl
  unfold switchModes
  rw [hTarget]
  rfl

/-- By induction on the length of what is left: both lexers find the same next segment, and are in
the same modes at the same place behind it. -/
theorem segments_undispatched (h : l.DispatchesByStart) (modes : List Nat) (hAt : cur.IsAt text) :
    l.undispatched.segments text modes cur = l.segments text modes cur := by
  induction hLength : cur.rest.length using Nat.strong_induction_on generalizing modes cur with
  | _ n ih =>
    subst hLength
    cases hRest : cur.rest with
    | nil => rw [segments_end hRest, segments_end hRest]
    | cons c cs =>
      have hSame := matchIn_undispatched h hAt (modes.headD 0)
      cases hMatch : l.matchIn text (l.mode (modes.headD 0)) cur with
      | some m =>
        have hShorter : (l.finishToken cur m).1.rest.length < cur.rest.length := by
          rw [rest_finishToken]
          exact length_rest_of_matchIn hMatch
        have hNext : (l.finishToken cur m).1.IsAt text :=
          hAt.finishToken (image_append_rest_of_matchIn hMatch)
        rw [segments_token hRest (hSame.trans hMatch), segments_token hRest hMatch,
          switchModes_undispatched, ← ih _ hShorter _ hNext rfl]
        rfl
      | none =>
        have hShorter : (l.skip text (l.mode (modes.headD 0)) cur c cs).1.rest.length <
            cur.rest.length := by
          rw [hRest]
          exact Nat.lt_succ_of_le (length_rest_skip l text (l.mode (modes.headD 0)) cur c cs)
        rw [segments_skipped hRest (hSame.trans hMatch), segments_skipped hRest hMatch,
          skip_undispatched, ih _ hShorter modes (hAt.skip hRest) rfl]
        rfl

theorem run_undispatched (h : l.DispatchesByStart) (text : List Char) (index : Nat) :
    l.undispatched.run text index = l.run text index := by
  unfold run
  rw [segments_undispatched h _ (Cursor.isAt_start text)]
  rfl

/-- A lexer that is built and one that tries all types of a mode at every place give the same tokens,
groups and errors, from every mode on. -/
theorem dispatch_transparent [RegexLibrary] (hLaws : RegexLibrary.Lawful)
    (h : build v d config = .ok l)
    (hCustom : ∀ id ∈ d.used, ∀ type, v.type? id = some type →
      ∀ p, type.pattern = .custom p → p.StartsAsStated) :
    (∀ text, l.undispatched.tokenize text = l.tokenize text) ∧
      ∀ text mode, l.undispatched.tokenizeIn? text mode = l.tokenizeIn? text mode := by
  have hStarts := dispatchesByStart_of_lawful hLaws h hCustom
  constructor
  · intro text
    exact run_undispatched hStarts _ _
  · intro text mode
    unfold tokenizeIn?
    rw [modeIndex?_undispatched]
    exact congrArg (Option.map · _) (funext fun index => run_undispatched hStarts _ index)

/-! ## A lexer with quotations -/

namespace Quotations

def comment : CustomPattern where
  matchAt text offset := (Text.splitBytes? offset text).bind fun (_, rest) =>
    match rest with
    | '#' :: cs => some (1 + Text.byteLength (cs.takeWhile (· != '\n')))
    | _ => none
  startChars := some ['#']

/-- Words, quotations with a mode of their own, and comments. -/
def types : List TokenType :=
  [.regex "Word" "[a-z]+", { TokenType.literal "Open" "\"" with pushMode := some "quotation" },
    { TokenType.literal "Close" "\"" with popMode := true }, .regex "Text" "[#-~]+",
    .new "Comment" (.custom comment)]

def definition : LexerDefinition := ⟨[("text", [1, 2, 5]), ("quotation", [3, 4])], "text"⟩

theorem comment_startsAsStated : comment.StartsAsStated := by
  rintro cs ⟨⟩ front c rest n hMatch -
  simp only [comment, Text.splitBytes?_byteLength_append, Option.bind_some] at hMatch
  split at hMatch
  next hComment =>
    cases hComment
    exact List.mem_singleton_self '#'
  · cases hMatch

theorem custom_startsAsStated : ∀ id ∈ definition.used, ∀ type,
    (Vocabulary.ofTypes types).type? id = some type →
      ∀ p, type.pattern = .custom p → p.StartsAsStated := by
  have hUsed : definition.used = [1, 2, 5, 3, 4] := by decide
  rw [hUsed]
  simp only [List.forall_mem_cons]
  refine ⟨?_, ?_, ?_, ?_, ?_, fun id hNone => absurd hNone List.not_mem_nil⟩
  · rintro type ⟨⟩ p ⟨⟩
  · rintro type ⟨⟩ p ⟨⟩
  · rintro type ⟨⟩ p ⟨⟩
    exact comment_startsAsStated
  · rintro type ⟨⟩ p ⟨⟩
  · rintro type ⟨⟩ p ⟨⟩

end Quotations

/-- A hash sign begins a comment in a text and belongs to the text of a quotation. -/
theorem dispatch_transparent_quotation : ∃ l,
    build (.ofTypes Quotations.types) Quotations.definition {} = .ok l ∧
      l.undispatched.tokenize "ab \"#c\" #d" = l.tokenize "ab \"#c\" #d" ∧
      l.undispatched.tokenizeIn? "#c\"" "quotation" = l.tokenizeIn? "#c\"" "quotation" := by
  have hAccepted : definitionErrors (.ofTypes Quotations.types) Quotations.definition {} = [] := by
    decide +kernel
  cases hBuild : build (.ofTypes Quotations.types) Quotations.definition {} with
  | error e =>
    rw [build, hAccepted] at hBuild
    cases hBuild
  | ok l =>
    obtain ⟨hDefault, hNamed⟩ := dispatch_transparent Regex.library_lawful hBuild
      Quotations.custom_startsAsStated
    exact ⟨l, rfl, hDefault _, hNamed _ _⟩

end Lexer

end PredictiveParsing
