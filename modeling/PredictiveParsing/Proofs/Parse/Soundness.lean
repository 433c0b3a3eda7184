import PredictiveParsing.Proofs.Builtin.JsonText
import PredictiveParsing.Proofs.Parse.ReadingOfRun

/-!
# Soundness of parsing

If a parse finds no error then its start rule derives the tokens.
-/

namespace PredictiveParsing

open Relation

variable {α : Type}

namespace Parse

variable {i : Input α}

theorem Input.eq_eof_of_isMatch {types : List TokenType} {token : TypeId}
    (hVocabulary : i.grammar.vocabulary = .ofTypes types)
    (hMatch : i.isMatch Vocabulary.eof token = true) : token = Vocabulary.eof := by
  rw [Input.isMatch, hVocabulary] at hMatch
  exact (Vocabulary.eof_isMatch_iff types).mp hMatch

theorem Input.IsRegular.of_compile {types : List TokenType} {bodies : List (RuleBody α)}
    {config : ParserConfig} {g : Grammar α} {tokens : List Token}
    (hCompile : Grammar.compile (.ofTypes types) bodies config = .ok g)
    (hBodies : ∀ r ∈ bodies, r.IsFaithful) (hTokens : ∀ t ∈ tokens, t.kind ≠ Vocabulary.eof) :
    (⟨g, tokens.toArray⟩ : Input α).IsRegular := by
  obtain ⟨hCompiled, hVocabulary, -⟩ := Grammar.compile_ok hCompile
  exact ⟨hCompiled.isFaithful hBodies, Input.eq_eof_of_isMatch hVocabulary, by simpa using hTokens⟩

variable [Inhabited α]

theorem Input.IsRegular.reads_start (h : i.IsRegular) (fuel : Nat) (rule : RuleId) :
    (i.invoke fuel rule 0 none .initial).Ends
      (fun t => t.errors = [] → t.terminated = false ∧
        i.Steps ([.sequence (definitionOf i.grammar.rules rule)], i.tokens.toList) ([], i.rest t))
      (fun _ t => t.errors ≠ []) := by
  cases fuel with
  | zero => rw [Input.invoke]; trivial
  | succ fuel =>
    have hInside := (tidy_initial (i := i)).inside_enter rule 0
    apply Input.ends_invoke
    refine (((frame_runs i fuel).body (i.grammar.body rule) default _).and
      ((h.readWithin fuel).body _ default _ hInside (h.faithful.propagates rule))).mono ?_ ?_
    · rintro t ⟨hFrame, hRead⟩ hErrors
      rw [errors_leave] at hErrors
      rw [terminated_leave, hFrame.terminated (.inr hInside.calls), rest_congr (position_leave _ _)]
      refine ⟨rfl, ?_⟩
      have hReads := hRead.reads (by rw [hErrors]; rfl) ([], [])
      rw [inSequence, List.append_nil, ← h.faithful.definition] at hReads
      exact hReads.trans (steps_expand .nil)
    · rintro e t ⟨hStopped, -⟩
      have hNonempty : (i.leave (i.recoverRule t e).1 rule none).errors ≠ [] := by
        refine List.ne_nil_of_length_pos ?_
        rw [errors_leave, errors_length_recoverRule]
        exact Nat.zero_lt_of_lt hStopped.2.2
      split
      · exact fun hErrors => absurd hErrors hNonempty
      · exact hNonempty

omit [Inhabited α] in
theorem Input.errors_finish (value : α) (s : State) :
    (i.finish value s).errors = [] ↔
      s.errors = [] ∧ (s.terminated = true ∨ i.tokens.size ≤ s.position) := by
  unfold Input.finish
  by_cases hLeft : (!s.terminated && decide (s.position < i.tokens.size)) = true
  · simp only [hLeft, if_true, Input.recordError]
    simp only [Bool.and_eq_true, Bool.not_eq_true', decide_eq_true_eq] at hLeft
    simp [hLeft.1, Nat.not_le.mpr hLeft.2]
  · simp only [hLeft]
    simp only [Bool.and_eq_true, Bool.not_eq_true', decide_eq_true_eq, not_and] at hLeft
    cases hEnd : s.terminated with
    | true => simp
    | false => simp [Nat.not_lt.mp (hLeft hEnd)]

theorem Input.IsRegular.derives_of_parsed (h : i.IsRegular) {fuel : Nat} {rule : RuleId}
    {output : ParseOutput α} (hParse : i.parseFrom fuel rule = .parsed output)
    (hErrors : output.errors = []) : Derives i.grammar.rules i.grammar.vocabulary
      [.sequence (definitionOf i.grammar.rules rule)] i.tokens.toList := by
  have hReads := h.reads_start fuel rule
  rw [Input.parseFrom] at hParse
  cases hRun : i.invoke fuel rule 0 none .initial with
  | done a s =>
    rw [hRun] at hReads hParse
    cases hParse
    obtain ⟨hNone, hEnd⟩ := (Input.errors_finish a s).mp hErrors
    obtain ⟨hRunning, hSteps⟩ := hReads hNone
    have hRest : i.rest s = [] := by
      simp only [hRunning, Bool.false_eq_true, false_or] at hEnd
      exact List.drop_of_length_le hEnd
    rw [hRest] at hSteps
    exact hSteps
  | interrupted e a s =>
    rw [hRun] at hReads hParse
    cases hParse
    exact absurd ((Input.errors_finish _ s).mp hErrors).1 hReads
  | panicked why => rw [hRun] at hParse; cases hParse
  | outOfFuel => rw [hRun] at hParse; cases hParse

end Parse

variable [Inhabited α]

/-- What is parsed without an error is derived by the start rule, whatever the settings. -/
theorem parse_sound {types : List TokenType} {bodies : List (RuleBody α)} {config : ParserConfig}
    {g : Grammar α} (hCompile : Grammar.compile (.ofTypes types) bodies config = .ok g)
    (hBodies : ∀ r ∈ bodies, r.IsFaithful) {tokens : List Token}
    (hTokens : ∀ t ∈ tokens, t.kind ≠ Vocabulary.eof) {fuel : Nat} {start : String}
    {output : Parse.ParseOutput α} (hParse : g.parseWithin fuel start tokens = .parsed output)
    (hErrors : output.errors = []) :
    ∃ id, g.ruleNamed? start = some id ∧
      Derives g.rules g.vocabulary [.sequence (definitionOf g.rules id)] tokens := by
  have hRegular := Parse.Input.IsRegular.of_compile hCompile hBodies hTokens
  unfold Grammar.parseWithin at hParse
  cases hId : g.ruleNamed? start with
  | none => simp [hId] at hParse
  | some id =>
    simp only [hId] at hParse
    exact ⟨id, rfl, hRegular.derives_of_parsed hParse hErrors⟩

theorem parse_sound_pair : ∃ g id,
    Grammar.compile (.ofTypes JsonText.types) JsonText.rules { recovery := true } = .ok g ∧
      g.ruleNamed? "json" = some id ∧
      Derives g.rules g.vocabulary [.sequence (definitionOf g.rules id)] JsonText.pair := by
  obtain ⟨g, output, hCompile, hParse, hErrors⟩ :=
    JsonText.exists_parsed { recovery := true } JsonText.pair
      (p := fun result => result.2.errors.isEmpty) (by decide +kernel)
  obtain ⟨id, hId, hDerives⟩ :=
    parse_sound hCompile JsonText.isFaithful (by decide) hParse (List.isEmpty_iff.mp hErrors)
  exact ⟨g, id, hCompile, hId, hDerives⟩

end PredictiveParsing
