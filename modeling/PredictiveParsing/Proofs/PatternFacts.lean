import PredictiveParsing.Pattern
import PredictiveParsing.Proofs.Pattern.Analysis
import PredictiveParsing.Proofs.Regex.Library

/-!
# The facts of a pattern hold of its matches

A match ends where a character does, begins with a first character of the pattern, and has a line
terminator only if the pattern can contain one. A regular expression that is not nullable matches
nothing empty, unless its least length is not known: then it counts as not nullable even where it can
be skipped.
-/

namespace PredictiveParsing.Pattern

variable {source : String} {terminators text rest : List Char} {m : Matcher} {facts : PatternFacts}
  {offset n : Nat}

open RegexLibrary (parse? minLength?)

section

variable [RegexLibrary]

theorem exists_matches_of_regex (hLaws : RegexLibrary.Lawful)
    (h : (regex source).compile terminators = .ok (m, facts))
    (hMatch : m.matchAt text offset rest = some n) :
    ∃ tree find image behind, parse? source = some tree ∧ rest = image ++ behind ∧
      n = Text.byteLength image ∧ tree.Matches (Text.utf8 image) ∧
      (m, facts) = compileRegex terminators tree find := by
  simp only [compile] at h
  split at h
  next tree find hTree hFind =>
    cases h
    obtain ⟨⟨start, stop⟩, hFound, rfl⟩ := Option.map_eq_some_iff.mp hMatch
    obtain ⟨image, behind, hRest, hStop, hImage⟩ := hLaws.exists_matches hTree hFind hFound
    exact ⟨tree, find, image, behind, hTree, hRest, hStop, hImage, rfl⟩
  · cases h

theorem exists_first_of_regex (hLaws : RegexLibrary.Lawful)
    (h : (regex source).compile terminators = .ok (m, facts))
    (hMatch : m.matchAt text offset rest = some n) {set : CharSet}
    (hFirst : facts.first = .among set) (hPos : 0 < n) :
    ∃ c cs, rest = c :: cs ∧ set.contains c = true := by
  obtain ⟨tree, find, image, behind, -, rfl, rfl, hImage, hCompiled⟩ :=
    exists_matches_of_regex hLaws h hMatch
  cases hCompiled
  dsimp only at hFirst
  split at hFirst
  next skips chars hChars =>
    cases hFirst
    refine hImage.contains_first (fun hNil => ?_) ?_ hChars
    · rw [← Text.length_utf8, hNil] at hPos
      exact Nat.lt_irrefl 0 hPos
    · rw [Text.utf8_append]
      exact List.prefix_append _ _
  · cases hFirst

theorem exists_splitBytes? {p : Pattern} (h : p.compile terminators = .ok (m, facts))
    (hRegex : ∀ source, p = .regex source → RegexLibrary.Lawful)
    (hMatch : m.matchAt text offset rest = some n) :
    ∃ image behind, Text.splitBytes? n rest = some (image, behind) := by
  cases p with
  | literal source =>
    cases h
    rw [Matcher.matchAt] at hMatch
    split at hMatch
    next hStarts =>
      cases hMatch
      obtain ⟨behind, rfl⟩ := List.isPrefixOf_iff_prefix.mp hStarts
      exact ⟨_, behind, Text.splitBytes?_byteLength_append _ behind⟩
    · cases hMatch
  | regex source =>
    obtain ⟨tree, find, image, behind, -, rfl, rfl, -⟩ :=
      exists_matches_of_regex (hRegex source rfl) h hMatch
    exact ⟨image, behind, Text.splitBytes?_byteLength_append image behind⟩
  | custom q =>
    cases h
    obtain ⟨⟨image, behind⟩, hSplit⟩ :=
      Option.isSome_iff_exists.mp (Option.filter_eq_some_iff.mp hMatch).2
    exact ⟨image, behind, hSplit⟩
  | category => cases h

/-- A pattern that cannot contain line breaks matches no terminator. Nothing is known of a custom
pattern. -/
theorem not_mem_of_lineBreaks (hLaws : RegexLibrary.Lawful) {p : Pattern} {image behind : List Char}
    (h : p.compile terminators = .ok (m, facts)) (hCustom : ∀ q, p ≠ .custom q)
    (hBreaks : facts.lineBreaks = false) (hMatch : m.matchAt text offset rest = some n)
    (hSplit : Text.splitBytes? n rest = some (image, behind)) : ∀ c ∈ image, c ∉ terminators := by
  intro c hc hTerminator
  cases p with
  | literal source =>
    cases h
    rw [Matcher.matchAt] at hMatch
    split at hMatch
    next hStarts =>
      cases hMatch
      obtain ⟨rest, rfl⟩ := List.isPrefixOf_iff_prefix.mp hStarts
      rw [Text.splitBytes?_byteLength_append] at hSplit
      cases hSplit
      dsimp only at hBreaks
      rw [List.any_eq_true.mpr ⟨c, hc, List.contains_iff_mem.mpr hTerminator⟩] at hBreaks
      cases hBreaks
    · cases hMatch
  | regex source =>
    obtain ⟨tree, find, image, behind, hTree, rfl, rfl, hImage, hCompiled⟩ :=
      exists_matches_of_regex hLaws h hMatch
    cases hCompiled
    rw [Text.splitBytes?_byteLength_append] at hSplit
    cases hSplit
    obtain ⟨image', hSame, hContains⟩ := hImage.exists_text (hLaws.whole hTree)
    obtain rfl := Text.utf8_inj hSame
    dsimp only at hBreaks
    rw [hContains c hc hTerminator] at hBreaks
    cases hBreaks
  | custom q => exact hCustom q rfl
  | category => cases h

/-- What is known of a regular expression holds of all that it matches at a place of a text. -/
theorem regex_facts_hold (hLaws : RegexLibrary.Lawful) {front : List Char}
    (h : (regex source).compile terminators = .ok (m, facts))
    (hMatch : m.matchAt (front ++ rest) (Text.byteLength front) rest = some n) :
    ∃ image behind, Text.splitBytes? n rest = some (image, behind) ∧
      ((∀ tree, parse? source = some tree →
          (minLength? tree).isSome ∨ ∃ set, tree.firstChars? = some (false, set)) →
        facts.nullable = false → 0 < n) ∧
      (∀ set, facts.first = .among set → 0 < n →
        ∃ c cs, rest = c :: cs ∧ set.contains c = true) ∧
      (facts.lineBreaks = false → ∀ c ∈ image, c ∉ terminators) := by
  obtain ⟨tree, find, image, behind, hTree, rfl, rfl, hImage, hCompiled⟩ :=
    exists_matches_of_regex hLaws h hMatch
  have hSplit := Text.splitBytes?_byteLength_append image behind
  refine ⟨image, behind, hSplit, ?_, ?_, ?_⟩
  · intro hKnown hNullable
    cases hCompiled
    rw [← Text.length_utf8]
    rcases hKnown tree hTree with hLength | ⟨set, hFirst⟩
    · obtain ⟨least, hLeast⟩ := Option.isSome_iff_exists.mp hLength
      have hPos : least ≠ 0 := fun hZero => by simp [hLeast, hZero] at hNullable
      exact Nat.lt_of_lt_of_le (Nat.pos_of_ne_zero hPos) (hLaws.bounds hLeast hImage)
    · refine List.length_pos_iff.mpr fun hNil => ?_
      exact absurd (hImage.skips_eq_true hNil hFirst) Bool.false_ne_true
  · exact fun set hFirst hPos => exists_first_of_regex hLaws h hMatch hFirst hPos
  · exact fun hBreaks => not_mem_of_lineBreaks hLaws h (by simp) hBreaks hMatch hSplit

end

/-! ## With the library to run with -/

theorem compile_of_read? (terminators : List Char) {r grouped : Regex}
    (hRead : Regex.read? source = some r)
    (hGrouped : Regex.read? (RegexLibrary.atStart source) = some grouped)
    (hFits : (grouped.isAnchored && grouped.fitsMemory) = true) :
    (regex source).compile terminators =
      .ok (compileRegex terminators r.toTree grouped.findAtStart) := by
  have hTree : parse? source = some r.toTree := congrArg (Option.map Regex.toTree) hRead
  have hFind : RegexLibrary.compile? (RegexLibrary.atStart source) = some grouped.findAtStart :=
    (Option.bind_eq_some_iff.mpr ⟨grouped, hGrouped, if_pos hFits⟩)
  rw [compile, hTree, hFind]

/-- A word with a line break behind it, in the middle of a text. -/
theorem regex_facts_hold_word : ∃ m facts image behind,
    (regex "[a-z]+\\n?").compile ['\n', '\r'] = .ok (m, facts) ∧
      m.matchAt (['1'] ++ ['b', '\n', 'c']) (Text.byteLength ['1']) ['b', '\n', 'c'] = some 2 ∧
      Text.splitBytes? 2 ['b', '\n', 'c'] = some (image, behind) ∧
      (facts.nullable = false → 0 < 2) ∧
      (∀ set, facts.first = .among set → 0 < 2 →
        ∃ c cs, ['b', '\n', 'c'] = c :: cs ∧ set.contains c = true) ∧
      (facts.lineBreaks = false → ∀ c ∈ image, c ∉ ['\n', '\r']) := by
  let r : Regex := .seq (.copies (.chars false [⟨'a', 'z'⟩]) 1 none true)
    (.copies (.literal ['\n']) 0 (some 1) true)
  have hRead : Regex.read? "[a-z]+\\n?" = some r := by decide +kernel
  have hCompile := compile_of_read? ['\n', '\r'] hRead
    (show _ = some (.seq (.look .textStart) r) by decide +kernel) (by decide +kernel)
  have hMatch : (Matcher.regex (Regex.seq (.look .textStart) r).findAtStart).matchAt
      (['1'] ++ ['b', '\n', 'c']) (Text.byteLength ['1']) ['b', '\n', 'c'] = some 2 := by
    simp only [Matcher.matchAt, Regex.findAtStart, Regex.match?, Regex.follow, Regex.threadsAt,
      Regex.explore_eq]
    decide +kernel
  obtain ⟨image, behind, hSplit, hNullable, hFirst, hBreaks⟩ :=
    regex_facts_hold Regex.library_lawful hCompile hMatch
  refine ⟨_, _, image, behind, hCompile, hMatch, hSplit, hNullable ?_, hFirst, hBreaks⟩
  intro tree hTree
  have hSame : some r.toTree = some tree := (congrArg (Option.map Regex.toTree) hRead).symm.trans hTree
  cases hSame
  exact .inl rfl

/-- One empty set in a choice hides that the choice can be left out. -/
theorem nullable_emptySet : RegexLibrary.Lawful ∧ ∃ m facts,
    (regex "(?:a|[b&&c])?").compile ['\n', '\r'] = .ok (m, facts) ∧ facts.nullable = false ∧
      m.matchAt ['b'] 0 ['b'] = some 0 := by
  let r : Regex := .copies (.alt (.literal ['a']) (.chars false [])) 0 (some 1) true
  have hCompile := compile_of_read? ['\n', '\r']
    (show Regex.read? "(?:a|[b&&c])?" = some r by decide +kernel)
    (show _ = some (.seq (.look .textStart) r) by decide +kernel) (by decide +kernel)
  refine ⟨Regex.library_lawful, _, _, hCompile, rfl, ?_⟩
  simp only [Matcher.matchAt, Regex.findAtStart, Regex.match?, Regex.follow, Regex.threadsAt,
    Regex.explore_eq]
  decide +kernel

end PredictiveParsing.Pattern
