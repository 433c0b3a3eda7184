import PredictiveParsing.Proofs.Parse.AgreementOfRun
import PredictiveParsing.Proofs.Parse.Soundness

/-!
# Recovery is transparent

Parses with and without recovery accept the same texts with the same results, and find their first
errors at the same token.
-/

namespace PredictiveParsing

variable {α : Type}

theorem Grammar.compile_withRecovery {v : Vocabulary} {bodies : List (RuleBody α)}
    {config : ParserConfig} {g : Grammar α} (h : compile v bodies config = .ok g) (b : Bool) :
    compile v bodies { config with recovery := b } = .ok (g.withRecovery b) := by
  rw [compile_withConfig h { config with recovery := b } rfl rfl, Grammar.withRecovery,
    (compile_ok h).2.2]

namespace Parse

variable [Inhabited α] {i : Input α} {b : Bool} {s : State} {x : Token}
  {sources : List (RuleBody α)} {fuel : Nat} {rule : RuleId} {o o' : ParseOutput α}

omit [Inhabited α] in
theorem finish_reports (h : FirstAt x s) (value : α) :
    (i.finish value s).errors.head?.map (·.token) = some x := by
  have hRecord := h.of_found (frame_recordError (i := i) .notAllInputParsed).found
  unfold Input.finish
  simp only
  split
  · exact hRecord
  · exact h

omit [Inhabited α] in
theorem finish_left (hNone : s.errors = []) (hRunning : s.terminated = false)
    (hLeft : i.kindAt s.position ≠ Vocabulary.eof) (value : α) :
    (i.finish value s).errors.head?.map (·.token) = some (i.next s) := by
  have hIn : s.position < i.tokens.size := Input.lt_of_kindAt hLeft
  unfold Input.finish
  simp only [hRunning, hIn, Bool.not_false, decide_true, Bool.and_true, if_true]
  exact firstAt_recordError hNone _

theorem parseFrom_reports (h : (i.invoke fuel rule 0 none .initial).Reports x)
    (hParse : i.parseFrom fuel rule = .parsed o) : o.errors.head?.map (·.token) = some x := by
  unfold Input.parseFrom at hParse
  cases hr : i.invoke fuel rule 0 none .initial with
  | done a s =>
    rw [hr] at h hParse
    cases hParse
    exact finish_reports h a
  | interrupted e a s =>
    rw [hr] at h hParse
    cases hParse
    exact finish_reports h _
  | panicked why => rw [hr] at hParse; cases hParse
  | outOfFuel => rw [hr] at hParse; cases hParse

theorem Input.IsUnaided.parseFrom_agrees (h : i.IsUnaided sources)
    (hRule : rule < i.grammar.rules.length) (hOff : i.parseFrom fuel rule = .parsed o)
    (hOn : (i.withRecovery b).parseFrom fuel rule = .parsed o') :
    o' = o ∨ ∃ x, o.errors.head?.map (·.token) = some x ∧
      o'.errors.head?.map (·.token) = some x := by
  cases fuel with
  | zero => rw [Input.parseFrom, Input.invoke] at hOff; cases hOff
  | succ fuel =>
    have hEnter : Untroubled i rule (i.enter .initial rule 0) :=
      ⟨tidy_initial.inside_enter rule 0, rfl, rfl⟩
    have hPlaced : Placed i.grammar rule (i.grammar.shape (i.grammar.body rule)) ([], []) := by
      rw [← h.regular.faithful.definition]
      exact .definition hRule
    have hPropagates := h.regular.faithful.propagates rule
    have hBody := (h.agreesWithin b fuel).body (i.grammar.body rule) default _ hEnter hPropagates
      hPlaced
    have hFrame := (frame_runs i fuel).body (i.grammar.body rule) default (i.enter .initial rule 0)
    have hRead := (h.regular.readWithin fuel).body (i.grammar.body rule) default _ hEnter.inside
      hPropagates
    cases hr : i.runBody fuel (i.grammar.body rule) default (i.enter .initial rule 0) with
    | done a t =>
      rw [hr] at hBody hFrame hRead
      have hErrors : t.errors = [] := hRead.silent (h.recoveryEnabled _)
      have hRunning : t.terminated = false := hFrame.terminated (.inr hEnter.inside.calls)
      have hInvoke : i.invoke (fuel + 1) rule 0 none .initial = .done a (i.leave t rule none) := by
        rw [Input.invoke, hr]
      rw [Input.parseFrom, hInvoke] at hOff
      cases hOff
      rcases hBody with hSame | ⟨hStuck, hReports⟩
      · left
        rw [Input.parseFrom, Input.invoke, body_withRecovery, enter_withRecovery, hSame] at hOn
        cases hOn
        rfl
      · refine .inr ⟨i.next t, ?_, parseFrom_reports (i := i.withRecovery b)
          (reports_invoke hReports) hOn⟩
        have hNext : i.next (i.leave t rule none) = i.next t := next_congr (position_leave _ _)
        rw [← hNext]
        refine finish_left ?_ ?_ ?_ a
        · rwa [errors_leave]
        · rwa [terminated_leave]
        · rw [position_leave]
          exact hStuck.notEnd
    | interrupted e a t =>
      rw [hr] at hBody hRead
      obtain ⟨-, ⟨error, hFound, hToken⟩, -⟩ := hRead (h.recoveryEnabled _)
      have hReports : (i.runBody fuel (i.grammar.body rule) default
          (i.enter .initial rule 0)).Reports (i.next t) := by
        have hFirst : FirstAt (i.next t) t := by
          rw [FirstAt, hFound, ← hToken]
          rfl
        rw [hr]
        exact hFirst
      exact .inr ⟨i.next t, parseFrom_reports (reports_invoke hReports) hOff,
        parseFrom_reports (reports_invoke (i := i.withRecovery b) hBody) hOn⟩
    | panicked why =>
      rw [Input.parseFrom, Input.invoke, hr] at hOff
      cases hOff
    | outOfFuel =>
      rw [Input.parseFrom, Input.invoke, hr] at hOff
      cases hOff

end Parse

variable [Inhabited α]

/-- Recovery finds an error if and only if there is one, makes no difference if there is none, and
finds the first one where it is. -/
theorem parse_transparent {types : List TokenType} {bodies : List (RuleBody α)}
    (config : ParserConfig) {on off : Grammar α}
    (hOn : Grammar.compile (.ofTypes types) bodies { config with recovery := true } = .ok on)
    (hOff : Grammar.compile (.ofTypes types) bodies { config with recovery := false } = .ok off)
    (hBodies : ∀ r ∈ bodies, r.IsFaithful) {tokens : List Token}
    (hTokens : ∀ t ∈ tokens, t.kind ≠ Vocabulary.eof) {fuel fuel' : Nat} {start : String}
    {output output' : Parse.ParseOutput α}
    (hParse : on.parseWithin fuel start tokens = .parsed output)
    (hParse' : off.parseWithin fuel' start tokens = .parsed output') :
    (output.errors = [] ↔ output'.errors = []) ∧
      (output.errors = [] → output.tree = output'.tree ∧ output.value = output'.value) ∧
      output.errors.head?.map (·.token) = output'.errors.head?.map (·.token) := by
  obtain ⟨hCompiled, -, hConfig⟩ := Grammar.compile_ok hOff
  have hUnaided : (⟨off, tokens.toArray⟩ : Parse.Input α).IsUnaided bodies :=
    ⟨.of_compile hOff hBodies hTokens, hCompiled, by rw [hConfig]⟩
  obtain rfl : off.withRecovery true = on :=
    Except.ok.inj ((Grammar.compile_withRecovery hOff true).symm.trans hOn)
  unfold Grammar.parseWithin at hParse hParse'
  rw [show (off.withRecovery true).ruleNamed? start = off.ruleNamed? start from rfl] at hParse
  cases hId : off.ruleNamed? start with
  | none => simp [hId] at hParse'
  | some id =>
    simp only [hId] at hParse hParse'
    have hLarge := Parse.parseFrom_of_le (Nat.le_max_left fuel fuel') hParse
    have hLarge' := Parse.parseFrom_of_le (Nat.le_max_right fuel fuel') hParse'
    rcases hUnaided.parseFrom_agrees (Grammar.lt_of_ruleNamed? hId) hLarge' hLarge with
      rfl | ⟨x, hFirst', hFirst⟩
    · exact ⟨Iff.rfl, fun _ => ⟨rfl, rfl⟩, rfl⟩
    · have hSome : ∀ {errors : List RecognitionError},
          errors.head?.map (·.token) = some x → errors ≠ [] := by
        rintro errors hHead rfl
        cases hHead
      exact ⟨⟨fun hNone => absurd hNone (hSome hFirst), fun hNone => absurd hNone (hSome hFirst')⟩,
        fun hNone => absurd hNone (hSome hFirst), hFirst.trans hFirst'.symm⟩

theorem parse_transparent_broken : ∃ on off output output',
    Grammar.compile (.ofTypes JsonText.types) JsonText.rules { recovery := true } = .ok on ∧
      Grammar.compile (.ofTypes JsonText.types) JsonText.rules { recovery := false } = .ok off ∧
      on.parseWithin 100 "json" JsonText.broken = .parsed output ∧
      off.parseWithin 100 "json" JsonText.broken = .parsed output' ∧
      output.errors.length = 2 ∧ output'.errors.length = 1 ∧
      output.errors.head?.map (·.token) = output'.errors.head?.map (·.token) := by
  obtain ⟨on, output, hOn, hParse, hTwo⟩ :=
    JsonText.exists_parsed { recovery := true } JsonText.broken
      (p := fun result => result.2.errors.length == 2) (by decide +kernel)
  obtain ⟨off, output', hOff, hParse', hOne⟩ :=
    JsonText.exists_parsed { recovery := false } JsonText.broken
      (p := fun result => result.2.errors.length == 1) (by decide +kernel)
  exact ⟨on, off, output, output', hOn, hOff, hParse, hParse', beq_iff_eq.mp hTwo,
    beq_iff_eq.mp hOne,
    (parse_transparent {} hOn hOff JsonText.isFaithful (by decide) hParse hParse').2.2⟩

end PredictiveParsing
