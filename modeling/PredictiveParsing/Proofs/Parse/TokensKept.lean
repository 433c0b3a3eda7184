import PredictiveParsing.Proofs.Parse.Account
import PredictiveParsing.Proofs.Parse.Soundness

/-!
# No token is lost

The tree and the errors of a parse hold the tokens in front of the place reached, each once. Tokens
behind it are reported.
-/

namespace PredictiveParsing

variable {α : Type}

def Grammar.finalState? [Inhabited α] (g : Grammar α) (fuel : Nat) (start : String)
    (tokens : List Token) : Option Parse.State :=
  (g.ruleNamed? start).bind fun id =>
    match (⟨g, tokens.toArray⟩ : Parse.Input α).invoke fuel id 0 none .initial with
    | .done _ s => some s
    | .interrupted _ _ s => some s
    | _ => none

namespace Parse

variable {i : Input α} {s t : State}

structure Closed (i : Input α) (s : State) : Prop where
  tokens : ∃ root, s.root = some root ∧ ∃ made : Multiset Token, (∀ x ∈ made, IsMadeUp x) ∧
    ((root.leaves ++ s.errors.flatMap (·.resynced) : List Token) : Multiset Token) =
      i.slice 0 s.position + made
  slices : ∀ e ∈ s.errors, IsSlice i e
  terminated : s.terminated = true → i.grammar.config.recovery = false ∧ s.errors.length = 1

theorem Accounts.leave_start {rule : RuleId} (hTree : i.grammar.config.outputTree = true)
    (hFrame : Frame i (i.enter .initial rule 0) t) (h : Accounts i (i.enter .initial rule 0) t)
    (hEnd : t.terminated = true → i.grammar.config.recovery = false ∧ t.errors.length = 1) :
    Closed i (i.leave t rule none) := by
  obtain ⟨n, hOpen⟩ := exists_root hTree hFrame
  obtain ⟨-, ⟨made, hMade, hTokens⟩, hSlices⟩ := h
  rw [leave_root hTree hOpen]
  refine ⟨⟨n, rfl, made, hMade, ?_⟩, hSlices (by simp [Input.enter, State.initial]), hEnd⟩
  simpa [State.held, hOpen, held_enter, State.initial, Input.enter, hTree] using hTokens

variable [Inhabited α]

theorem Input.IsRegular.closed_start (h : i.IsRegular)
    (hTree : i.grammar.config.outputTree = true) (fuel : Nat) (rule : RuleId) :
    (i.invoke fuel rule 0 none .initial).Ends (Closed i) fun _ => Closed i := by
  cases fuel with
  | zero => rw [Input.invoke]; trivial
  | succ fuel =>
    have hGrowing := growing_start hTree rule
    have hInside := hGrowing.inside
    have hRunning : ∀ {t}, Frame i (i.enter .initial rule 0) t → t.terminated = false :=
      fun hFrame => hFrame.terminated (.inr hInside.calls)
    apply Input.ends_invoke
    refine ((((accounts_kept.preserved (i := i)).within fuel).body (i.grammar.body rule) default
      _).and ((h.readWithin fuel).body _ default _ hInside (h.faithful.propagates rule))).mono ?_ ?_
    · rintro t ⟨hAccount, -⟩
      obtain ⟨hFrame, hDone⟩ := hAccount hGrowing
      exact hDone.leave_start hTree hFrame fun hEnd => by simp [hRunning hFrame] at hEnd
    · rintro e t ⟨hAccount, hRead⟩
      obtain ⟨hStopped, hDone⟩ := hAccount hGrowing
      have hMark := hStopped.markRecovered
      rcases i.recoverRule_cases t e with ⟨index, hOn, hPlace, hRec⟩ | ⟨hOff, -, hTrials, hRec⟩ |
        ⟨-, hRec⟩
      · rw [← Input.recoveryEnabled_markRecovered] at hOn
        have hFrame := hMark.1.trans (frame_resyncTo hOn e index)
        rw [hRec, if_pos rfl]
        exact (hDone.markRecovered.resync (Input.le_of_resyncPlace? hPlace)).leave_start hTree
          hFrame fun hEnd => by simp [hRunning hFrame] at hEnd
      · rw [hRec, if_pos rfl, leave_terminated]
        have hClosed := hDone.markRecovered.account.leave_start hTree hMark.1
          fun hEnd => by simp [hRunning hMark.1] at hEnd
        obtain ⟨-, ⟨error, hFound, -⟩, -⟩ := hRead (hStopped.1.recoveryEnabled.symm.trans hOff)
        have hOne : t.errors.length = 1 := by
          rw [hFound]
          rfl
        have hNoRecovery : i.grammar.config.recovery = false := by
          rw [← Input.recoveryEnabled_markRecovered, Input.recoveryEnabled, hTrials] at hOff
          simpa using hOff
        refine ⟨hClosed.tokens, hClosed.slices, fun _ => ⟨hNoRecovery, ?_⟩⟩
        rw [errors_leave, State.markRecovered, errors_updateNode]
        exact hOne
      · have hClosed := hDone.markRecovered.account.leave_start hTree hMark.1
          fun hEnd => by simp [hRunning hMark.1] at hEnd
        rw [hRec, if_neg (by simp)]
        exact hClosed

omit [Inhabited α]

theorem IsSlice.begins {e : RecognitionError} (h : IsSlice i e) :
    ∃ start stop, e.resynced = (i.tokens.toList.take stop).drop start ∧
      (e.resynced ≠ [] → i.tokens.toList[start]? = some e.token) := by
  obtain ⟨start, stop, hToken, hSlice⟩ := h
  refine ⟨start, stop, hSlice.trans slice_eq, fun hSome => ?_⟩
  have hIn : start < i.tokens.size := by
    by_contra hOut
    exact hSome (hSlice.trans (slice_outside (Nat.le_of_not_lt hOut)))
  rw [hToken, Input.tokenAt, Array.getElem?_toList, Array.getElem?_eq_getElem hIn]
  rfl

/-- What a parse that ends in a state keeps of its tokens. -/
structure TokensKept (i : Input α) (s : State) (root : Node) (errors : List RecognitionError) :
    Prop where
  held : ∃ made : List Token, (∀ x ∈ made, IsMadeUp x) ∧
    (root.leaves ++ errors.flatMap (·.resynced)).Perm (i.tokens.toList.take s.position ++ made)
  /-- The same without the made-up tokens, if none of them came in with the text. -/
  read : (∀ x ∈ i.tokens.toList, x.inserted = false) →
    (root.leaves.filter (fun x => !x.inserted && !x.isEof) ++ errors.flatMap (·.resynced)).Perm
      (i.tokens.toList.take s.position)
  slices : ∀ e ∈ errors, ∃ start stop,
    e.resynced = (i.tokens.toList.take stop).drop start ∧
      (e.resynced ≠ [] → i.tokens.toList[start]? = some e.token)
  rest : s.position < i.tokens.size →
    (∃ e ∈ errors, e.cause = .notAllInputParsed ∧
      i.tokens.toList[s.position]? = some e.token) ∨
    s.terminated = true ∧ i.grammar.config.recovery = false ∧ errors.length = 1

theorem filter_madeUp {xs : List Token} (h : ∀ x ∈ xs, IsMadeUp x) :
    xs.filter (fun x => !x.inserted && !x.isEof) = [] := by
  rw [List.filter_eq_nil_iff]
  intro x hx
  rcases h x hx with h | h
  · simp [h]
  · simp [h]

/-- Made-up tokens can be told apart if those of the text are not made up. -/
theorem perm_read {leaves skipped front made : List Token} (hMade : ∀ x ∈ made, IsMadeUp x)
    (hFront : ∀ x ∈ front, ¬ IsMadeUp x) (hSkipped : ∀ x ∈ skipped, ¬ IsMadeUp x)
    (h : (leaves ++ skipped).Perm (front ++ made)) :
    (leaves.filter (fun x => !x.inserted && !x.isEof) ++ skipped).Perm front := by
  have hKeep : ∀ {xs : List Token}, (∀ x ∈ xs, ¬ IsMadeUp x) →
      xs.filter (fun x => !x.inserted && !x.isEof) = xs := by
    intro xs hxs
    refine List.filter_eq_self.mpr fun x hx => ?_
    simpa [IsMadeUp] using hxs x hx
  have hFiltered := h.filter fun x => !x.inserted && !x.isEof
  rwa [List.filter_append, List.filter_append, filter_madeUp hMade, hKeep hFront, hKeep hSkipped,
    List.append_nil] at hFiltered

theorem Input.finish_cases (value : α) (s : State) :
    ((s.terminated = true ∨ i.tokens.size ≤ s.position) ∧
      i.finish value s = ⟨s.root, value, s.errors⟩) ∨
    (s.terminated = false ∧ s.position < i.tokens.size ∧
      i.finish value s = ⟨s.root, value, (i.recordError s .notAllInputParsed).1.errors⟩) := by
  unfold Input.finish
  cases hEnd : s.terminated with
  | true => exact .inl ⟨.inl rfl, rfl⟩
  | false =>
    by_cases hLeft : s.position < i.tokens.size
    · exact .inr ⟨rfl, hLeft, by simp [hLeft, Input.recordError]⟩
    · exact .inl ⟨.inr (Nat.le_of_not_lt hLeft), by simp [hLeft]⟩

theorem Closed.keeps (h : Closed i s) (hEof : ∀ t ∈ i.tokens, t.kind ≠ Vocabulary.eof) {root : Node}
    {errors : List RecognitionError} (hRoot : s.root = some root)
    (hErrors : errors.flatMap (·.resynced) = s.errors.flatMap (·.resynced))
    (hSlices : ∀ e ∈ errors, IsSlice i e)
    (hRest : s.position < i.tokens.size →
      (∃ e ∈ errors, e.cause = .notAllInputParsed ∧
        i.tokens.toList[s.position]? = some e.token) ∨
      s.terminated = true ∧ i.grammar.config.recovery = false ∧ errors.length = 1) :
    TokensKept i s root errors := by
  obtain ⟨⟨root', hRoot', made, hMade, hTokens⟩, -, -⟩ := h
  obtain rfl := Option.some.inj (hRoot.symm.trans hRoot')
  obtain ⟨made, rfl⟩ := Quot.exists_rep made
  have hPerm : (root.leaves ++ errors.flatMap (·.resynced)).Perm
      (i.tokens.toList.take s.position ++ made) := by
    rw [hErrors]
    rw [slice_eq, List.drop_zero] at hTokens
    exact Multiset.coe_eq_coe.mp hTokens
  have hMade : ∀ x ∈ made, IsMadeUp x := hMade
  refine ⟨⟨made, hMade, hPerm⟩, fun hRead => ?_, fun e he => (hSlices e he).begins, hRest⟩
  have hText : ∀ x ∈ i.tokens.toList, ¬ IsMadeUp x := by
    intro x hx hMadeUp
    rcases hMadeUp with hInserted | hEnd
    · exact absurd ((hRead x hx).symm.trans hInserted) Bool.false_ne_true
    · exact hEof x (Array.mem_toList_iff.mp hx) (beq_iff_eq.mp hEnd)
  refine perm_read hMade (fun x hx => hText x (List.mem_of_mem_take hx)) (fun x hx => ?_) hPerm
  obtain ⟨e, he, hx⟩ := List.mem_flatMap.mp hx
  obtain ⟨start, stop, hSlice, -⟩ := (hSlices e he).begins
  rw [hSlice] at hx
  exact hText x (List.mem_of_mem_take (List.mem_of_mem_drop hx))

theorem Closed.finish (h : Closed i s) (hEof : ∀ t ∈ i.tokens, t.kind ≠ Vocabulary.eof)
    (value : α) : ∃ root, (i.finish value s).tree = some root ∧
      TokensKept i s root (i.finish value s).errors := by
  obtain ⟨root, hRoot, -⟩ := h.tokens
  refine ⟨root, ?_⟩
  rcases i.finish_cases value s with ⟨hEnd, hFinish⟩ | ⟨-, hLeft, hFinish⟩
  · rw [hFinish]
    refine ⟨hRoot, h.keeps hEof hRoot rfl h.slices fun hLeft => .inr ?_⟩
    have hTerminated := hEnd.resolve_right (Nat.not_le.mpr hLeft)
    exact ⟨hTerminated, h.terminated hTerminated⟩
  · rw [hFinish]
    refine ⟨hRoot, h.keeps hEof hRoot ?_ ?_ fun _ => .inl ?_⟩
    · simp [Input.recordError]
    · intro e he
      rcases List.mem_append.mp he with he | he
      · exact h.slices e he
      · obtain rfl := List.mem_singleton.mp he
        exact ⟨s.position, s.position, rfl, slice_self.symm⟩
    · refine ⟨_, List.mem_concat_self, rfl, ?_⟩
      rw [Input.next_eq, Input.tokenAt, Array.getElem?_toList, Array.getElem?_eq_getElem hLeft]
      rfl

end Parse

variable [Inhabited α]

/-- With or without recovery, a parse keeps each token in front of the place where it ends exactly
once, in its tree or with one of its errors. -/
theorem parse_keeps_tokens {types : List TokenType} {bodies : List (RuleBody α)}
    {config : ParserConfig} {g : Grammar α}
    (hCompile : Grammar.compile (.ofTypes types) bodies config = .ok g)
    (hBodies : ∀ r ∈ bodies, r.IsFaithful) (hTree : config.outputTree = true)
    {tokens : List Token} (hTokens : ∀ t ∈ tokens, t.kind ≠ Vocabulary.eof) {fuel : Nat}
    {start : String} {output : Parse.ParseOutput α}
    (hParse : g.parseWithin fuel start tokens = .parsed output) :
    ∃ s root, g.finalState? fuel start tokens = some s ∧ output.tree = some root ∧
      Parse.TokensKept (⟨g, tokens.toArray⟩ : Parse.Input α) s root output.errors := by
  have hRegular := Parse.Input.IsRegular.of_compile hCompile hBodies hTokens
  obtain ⟨-, -, hConfig⟩ := Grammar.compile_ok hCompile
  unfold Grammar.parseWithin at hParse
  unfold Grammar.finalState?
  cases hId : g.ruleNamed? start with
  | none => simp [hId] at hParse
  | some id =>
    simp only [hId, Parse.Input.parseFrom] at hParse
    have hClosed := hRegular.closed_start (hConfig ▸ hTree) fuel id
    rw [Option.bind_some]
    cases hRun : (⟨g, tokens.toArray⟩ : Parse.Input α).invoke fuel id 0 none .initial with
    | done a s =>
      rw [hRun] at hClosed hParse
      cases hParse
      obtain ⟨root, hRoot, hKept⟩ := Parse.Closed.finish hClosed hRegular.tokens a
      exact ⟨s, root, rfl, hRoot, hKept⟩
    | interrupted e a s =>
      rw [hRun] at hClosed hParse
      cases hParse
      obtain ⟨root, hRoot, hKept⟩ := Parse.Closed.finish hClosed hRegular.tokens default
      exact ⟨s, root, rfl, hRoot, hKept⟩
    | panicked why => rw [hRun] at hParse; cases hParse
    | outOfFuel => rw [hRun] at hParse; cases hParse

theorem parse_keeps_tokens_broken : ∃ (g : Grammar Unit) (output : Parse.ParseOutput Unit)
    (s : Parse.State) (root : Node),
    Grammar.compile (.ofTypes JsonText.types) JsonText.rules { recovery := true } = .ok g ∧
      g.parseWithin 100 "json" JsonText.broken = .parsed output ∧ output.errors.length = 2 ∧
      g.finalState? 100 "json" JsonText.broken = some s ∧ output.tree = some root ∧
      Parse.TokensKept (⟨g, JsonText.broken.toArray⟩ : Parse.Input Unit) s root output.errors := by
  obtain ⟨g, output, hCompile, hParse, hErrors⟩ :=
    JsonText.exists_parsed { recovery := true } JsonText.broken
      (p := fun result => result.2.errors.length == 2) (by decide +kernel)
  obtain ⟨s, root, hState, hRoot, hKept⟩ :=
    parse_keeps_tokens hCompile JsonText.isFaithful rfl (by decide) hParse
  exact ⟨g, output, s, root, hCompile, hParse, beq_iff_eq.mp hErrors, hState, hRoot, hKept⟩

end PredictiveParsing
