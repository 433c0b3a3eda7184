import PredictiveParsing.Proofs.Lexer.Groups
import PredictiveParsing.Proofs.Parse.Origin
import PredictiveParsing.Proofs.Tree.SourceTokens

/-!
# A text put together again

Where neither a lexer nor a parser finds an error, the tokens of the tree and those of the named
groups are the text.
-/

namespace PredictiveParsing

variable {α : Type} [Inhabited α]

/-- The tokens of a tree that were read are those of the parse, in some order. Others have no
text. -/
theorem Parse.Input.perm_sourceTokens {i : Parse.Input α} (hTree : i.grammar.config.outputTree = true)
    (hTokens : ∀ x ∈ i.tokens, x.inserted = false ∧ x.kind ≠ Vocabulary.eof) {fuel : Nat}
    {rule : RuleId} {output : Parse.ParseOutput α} (hParse : i.parseFrom fuel rule = .parsed output)
    (hErrors : output.errors = []) :
    ∃ root made, output.tree = some root ∧ root.sourceTokens.Perm (i.tokens.toList ++ made) ∧
      ∀ x ∈ made, x.image = "" := by
  obtain ⟨root, made, hRoot, hLeaves, hMade⟩ :=
    i.leaves_of_parsed hTree (fun x hx => (hTokens x hx).2) hParse hErrors
  refine ⟨root, made.filter fun x => !x.inserted, hRoot, ?_, fun x hx => ?_⟩
  · have hRead : i.tokens.toList.filter (fun x => !x.inserted) = i.tokens.toList := by
      refine List.filter_eq_self.mpr fun x hx => ?_
      simp [(hTokens x (Array.mem_toList_iff.mp hx)).1]
    have hPerm := root.perm_sourceTokens.trans (hLeaves.filter fun x => !x.inserted)
    rwa [List.filter_append, hRead] at hPerm
  · obtain ⟨hMem, hKept⟩ := List.mem_filter.mp hx
    rcases hMade x hMem with hInserted | rfl
    · simp [hInserted] at hKept
    · rfl

/-- If a lexer that skips nothing and a parser both find no error in a text, then the tokens of the
tree and those of the named groups, in the order of their places, are the text. -/
theorem parse_restores_text [RegexLibrary] {types : List TokenType} {d : LexerDefinition}
    {lexing : LexerConfig} {l : Lexer} (hBuild : Lexer.build (.ofTypes types) d lexing = .ok l)
    (hSkip : ∀ id ∈ d.used, ∀ type, (Vocabulary.ofTypes types).type? id = some type →
      type.group ≠ .skip)
    {text : List Char} {mode : Nat} (hLexed : (l.run text mode).errors = [])
    {bodies : List (RuleBody α)} {config : ParserConfig} {g : Grammar α}
    (hCompile : Grammar.compile (.ofTypes types) bodies config = .ok g)
    (hTree : config.outputTree = true) {fuel : Nat} {start : String} {output : Parse.ParseOutput α}
    (hParse : g.parseWithin fuel start (l.run text mode).tokens = .parsed output)
    (hErrors : output.errors = []) :
    ∃ root, output.tree = some root ∧ ∀ merged : List Token,
      merged.Perm (root.sourceTokens ++ (l.run text mode).groups.flatMap (·.2)) →
      merged.Pairwise (fun a b => a.span.start ≤ b.span.start) → Lexer.textOf merged = text := by
  obtain ⟨-, -, hConfig⟩ := Grammar.compile_ok hCompile
  obtain ⟨hResult, hTile, hText⟩ := Lexer.run_of_errors_eq_nil hLexed
  have hMakes : ∀ t ∈ (l.cut text mode).filterMap Lexer.Segment.token?, l.Makes t := by
    intro t ht
    obtain ⟨s, hs, hToken⟩ := List.mem_filterMap.mp ht
    exact Lexer.makes_of_mem_segments s hs t hToken
  have hGroups : ((l.run text mode).tokens ++ (l.run text mode).groups.flatMap (·.2)).Perm
      ((l.cut text mode).filterMap Lexer.Segment.token?) := by
    rw [hResult]
    refine Lexer.perm_tokens_groups fun t ht => ?_
    obtain ⟨hVocabulary, hUsed, type, hType, -⟩ := Lexer.mem_used_of_makes hBuild (hMakes t ht)
    rw [Lexer.group, Lexer.type?, hVocabulary, hType]
    exact hSkip t.kind hUsed type hType
  have hTokens : ∀ x ∈ (l.run text mode).tokens.toArray,
      x.inserted = false ∧ x.kind ≠ Vocabulary.eof := by
    intro x hx
    have hMade := hMakes x (hGroups.subset (List.mem_append_left _ (List.mem_toArray.mp hx)))
    exact ⟨hMade.1, Lexer.kind_ne_eof_of_makes hBuild hMade⟩
  unfold Grammar.parseWithin at hParse
  cases hId : g.ruleNamed? start with
  | none => simp [hId] at hParse
  | some id =>
    simp only [hId] at hParse
    obtain ⟨root, made, hRoot, hSource, hMade⟩ := Parse.Input.perm_sourceTokens
      (i := ⟨g, (l.run text mode).tokens.toArray⟩) (hConfig ▸ hTree) hTokens hParse hErrors
    have hAll : (root.sourceTokens ++ (l.run text mode).groups.flatMap (·.2)).Perm
        ((l.cut text mode).filterMap Lexer.Segment.token? ++ made) := by
      refine (hSource.append_right _).trans (.trans ?_ (hGroups.append_right made))
      rw [List.append_assoc, List.append_assoc]
      exact List.perm_append_comm.append_left _
    exact ⟨root, hRoot, fun merged hPerm hSorted =>
      (Lexer.textOf_of_perm hTile hMade (hPerm.trans hAll) hSorted).trans hText⟩

/-! ## Words between commas -/

namespace Words

def types : List TokenType :=
  [.literal "Word" "ab", .literal "Comma" ",",
    { TokenType.literal "Blank" " " with group := .named "blanks" }]

def definition : LexerDefinition := .single [1, 2, 3]

def rules : List (RuleBody Unit) :=
  [⟨"words", [.manySeparated 2 [.token 1], .token Vocabulary.eof]⟩]

def text : List Char := "ab, ab ".toList

theorem custom_startsAsStated : ∀ id ∈ definition.used, ∀ type,
    (Vocabulary.ofTypes types).type? id = some type →
      ∀ p, type.pattern = .custom p → p.StartsAsStated := by
  have hUsed : definition.used = [1, 2, 3] := by decide
  rw [hUsed]
  simp only [List.forall_mem_cons]
  refine ⟨?_, ?_, ?_, fun id hNone => absurd hNone List.not_mem_nil⟩
  · rintro type ⟨⟩ p ⟨⟩
  · rintro type ⟨⟩ p ⟨⟩
  · rintro type ⟨⟩ p ⟨⟩

theorem group_ne_skip : ∀ id ∈ definition.used, ∀ type,
    (Vocabulary.ofTypes types).type? id = some type → type.group ≠ .skip := by
  have hUsed : definition.used = [1, 2, 3] := by decide
  rw [hUsed]
  simp only [List.forall_mem_cons]
  refine ⟨?_, ?_, ?_, fun id hNone => absurd hNone List.not_mem_nil⟩
  · rintro type ⟨⟩ ⟨⟩
  · rintro type ⟨⟩ ⟨⟩
  · rintro type ⟨⟩ ⟨⟩

def parsed? (l : Lexer) : Option (Grammar Unit × Parse.ParseOutput Unit) :=
  match (l.run text 0).errors, Grammar.compile (.ofTypes types) rules {} with
  | [], .ok g =>
    match g.parseWithin 100 "words" (l.run text 0).tokens with
    | .parsed output => some (g, output)
    | _ => none
  | _, _ => none

/-- The lexer without its table, which is not needed to tell what it finds. -/
def plain : Lexer where
  vocabulary := .ofTypes types
  config := {}
  modes := [⟨LexerDefinition.singleModeName, [1, 2, 3], .full [1, 2, 3]⟩]
  defaultMode := 0
  compiled := Lexer.compileTypes (.ofTypes types) definition {}

theorem exists_parsed : ∃ l g output, Lexer.build (.ofTypes types) definition {} = .ok l ∧
    (l.run text 0).errors = [] ∧ Grammar.compile (.ofTypes types) rules {} = .ok g ∧
    g.parseWithin 100 "words" (l.run text 0).tokens = .parsed output ∧ output.errors = [] := by
  have hAccepted : Lexer.definitionErrors (.ofTypes types) definition {} = [] := by decide +kernel
  have hPlain : (parsed? plain).any (fun found => found.2.errors.isEmpty) = true := by
    decide +kernel
  cases hBuild : Lexer.build (.ofTypes types) definition {} with
  | error e =>
    rw [Lexer.build, hAccepted] at hBuild
    cases hBuild
  | ok l =>
    have hRun : plain.run text 0 = l.run text 0 := by
      have hDispatch := Lexer.dispatchesByStart_of_lawful Regex.library_lawful hBuild
        custom_startsAsStated
      rw [← Lexer.run_undispatched hDispatch]
      rw [Lexer.build, hAccepted] at hBuild
      cases hBuild
      rfl
    rw [parsed?, hRun] at hPlain
    split at hPlain
    next g hErrors hCompile =>
      split at hPlain
      next output hParse =>
        exact ⟨l, g, output, rfl, hErrors, hCompile, hParse, List.isEmpty_iff.mp hPlain⟩
      · cases hPlain
    · cases hPlain

end Words

theorem parse_restores_text_words : ∃ (l : Lexer) (output : Parse.ParseOutput Unit) (root : Node),
    Lexer.build (.ofTypes Words.types) Words.definition {} = .ok l ∧ output.tree = some root ∧
      ∀ merged : List Token,
        merged.Perm (root.sourceTokens ++ (l.run Words.text 0).groups.flatMap (·.2)) →
        merged.Pairwise (fun a b => a.span.start ≤ b.span.start) →
          Lexer.textOf merged = Words.text := by
  obtain ⟨l, g, output, hBuild, hLexed, hCompile, hParse, hErrors⟩ := Words.exists_parsed
  obtain ⟨root, hRoot, hText⟩ :=
    parse_restores_text hBuild Words.group_ne_skip hLexed hCompile rfl hParse hErrors
  exact ⟨l, output, root, hBuild, hRoot, hText⟩

end PredictiveParsing
