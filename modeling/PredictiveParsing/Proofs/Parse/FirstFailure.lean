import PredictiveParsing.Proofs.Builtin.JsonText
import PredictiveParsing.Proofs.Grammar.EndOfInput
import PredictiveParsing.Proofs.Parse.TextRead
import PredictiveParsing.Proofs.Parse.TokensKept
import PredictiveParsing.Proofs.Tree.SourceTokens

/-!
# A parse without recovery stops at its first error

The first error interrupts every body around it, up to the start rule, and nothing is read or
recorded on the way. So the tree holds the tokens in front of the error, and there is one error at
most: the one that ended the parse, or one for tokens that the start rule has left over.
-/

namespace PredictiveParsing

variable {α : Type}

namespace Op

/-- An operation that holds up no interruption and iterates nothing between ends of the input. -/
structure IsSteady (op : Op α) : Prop where
  propagates : op.propagates = true
  separators : ∀ p ∈ Production.nodesOf op.performed, p.separator ≠ some Vocabulary.eof

structure AreSteady (ops : List (Op α)) : Prop where
  propagates : propagatesAll ops = true
  separators : ∀ p ∈ Production.nodesOf (performedBy ops), p.separator ≠ some Vocabulary.eof

variable {op : Op α} {ops body : List (Op α)} {occurrence : Nat}

theorem areSteady_nil : AreSteady ([] : List (Op α)) :=
  ⟨by rw [propagatesAll], by rw [performedBy]; exact List.forall_mem_nil _⟩

theorem areSteady_cons (h : AreSteady (op :: ops)) : op.IsSteady ∧ AreSteady ops := by
  obtain ⟨hPropagates, hSeparators⟩ := h
  rw [propagatesAll, Bool.and_eq_true] at hPropagates
  rw [performedBy, Production.nodesOf_append, List.forall_mem_append] at hSeparators
  exact ⟨⟨hPropagates.1, hSeparators.1⟩, hPropagates.2, hSeparators.2⟩

theorem mem_performedByBranches {branch : Branch (Op α)} {branches : List (Branch (Op α))}
    (h : branch ∈ branches) : ⟨performedBy branch.body, branch.ignoreAmbiguities,
      branch.gate.isSome⟩ ∈ performedByBranches branches := by
  induction branches with
  | nil => cases h
  | cons other rest ih =>
    rw [performedByBranches]
    rcases List.mem_cons.mp h with rfl | h
    · exact List.mem_cons_self
    · exact List.mem_cons_of_mem _ (ih h)

namespace IsSteady

theorem part (h : op.IsSteady) (hPropagates : propagatesAll body = true)
    (hNodes : ∀ p ∈ Production.nodesOf (performedBy body), p ∈ Production.nodesOf op.performed) :
    AreSteady body :=
  ⟨hPropagates, fun p hp => h.separators p (hNodes p hp)⟩

theorem option {act : Bool → α → α} (h : (Op.option occurrence body act).IsSteady) :
    AreSteady body := by
  refine h.part (by simpa [Op.propagates] using h.propagates) fun p hp => ?_
  rw [performed, Production.nodesOf_singleton, Production.nodes]
  exact List.mem_cons_of_mem _ hp

theorem repetition {mandatory : Bool} {separator : Option TypeId} {act : α → α}
    (h : (Op.repetition mandatory separator occurrence body act).IsSteady) :
    separator ≠ some Vocabulary.eof ∧ AreSteady body := by
  constructor
  · refine h.separators (.repetition mandatory separator (performedBy body) occurrence) ?_
    rw [performed, Production.nodesOf_singleton]
    exact Production.mem_nodes_self _
  · refine h.part (by simpa [Op.propagates] using h.propagates) fun p hp => ?_
    rw [performed, Production.nodesOf_singleton, Production.nodes]
    exact List.mem_cons_of_mem _ hp

theorem choice {branches : List (Branch (Op α))} {act : α → α → α}
    (h : (Op.choice occurrence branches act).IsSteady) {branch : Branch (Op α)}
    (hBranch : branch ∈ branches) : AreSteady branch.body := by
  have hPropagates := h.propagates
  rw [Op.propagates, propagatesBranches_iff] at hPropagates
  refine h.part (hPropagates branch hBranch) fun p hp => ?_
  rw [performed, Production.nodesOf_singleton, Production.nodes]
  exact List.mem_cons_of_mem _
    (Production.mem_nodesOfBranches (mem_performedByBranches hBranch) hp)

theorem whenParsing (h : (Op.whenParsing body).IsSteady) : AreSteady body := by
  obtain ⟨hPropagates, hSeparators⟩ := h
  rw [Op.propagates] at hPropagates
  rw [performed] at hSeparators
  exact ⟨hPropagates, hSeparators⟩

end IsSteady

end Op

namespace Parse

/-- Steady bodies that are parsed without recovery. The end of the input matches nothing else. -/
structure Input.IsSteady (i : Input α) : Prop where
  bodies : ∀ id, Op.AreSteady (i.grammar.body id)
  atEnd : ∀ {token}, i.isMatch Vocabulary.eof token = true → token = Vocabulary.eof
  unaided : i.grammar.config.recovery = false

variable [Inhabited α] {i : Input α} {s t : State}

structure BreaksWithin (i : Input α) (fuel : Nat) : Prop where
  body : ∀ ops a s, Growing i s → Op.AreSteady ops →
    (i.runBody fuel ops a s).Ends (Passes i s) fun _ => Breaks i s
  op : ∀ op a s, Growing i s → op.IsSteady →
    (i.runOp fuel op a s).Ends (Passes i s) fun _ => Breaks i s
  invoke : ∀ rule occurrence label s, Growing i s →
    (i.invoke fuel rule occurrence label s).Ends (Passes i s) fun _ => Breaks i s
  loop : ∀ (loop : Input.Loop α) isFirst a s, Growing i s →
    loop.separator ≠ some Vocabulary.eof → Op.AreSteady loop.body →
      (i.runLoop fuel loop isFirst a s).Ends (Passes i s) fun _ => Breaks i s
  iteration : ∀ (loop : Input.Loop α) a s, Growing i s →
    loop.separator ≠ some Vocabulary.eof → Op.AreSteady loop.body →
      (i.runIteration fuel loop a s).Ends (Passes i s) fun _ => Breaks i s

omit [Inhabited α] in
theorem Input.IsSteady.recoveryEnabled (h : i.IsSteady) (s : State) :
    i.recoveryEnabled s = false := by
  rw [Input.recoveryEnabled, h.unaided, Bool.false_and]

omit [Inhabited α] in
theorem Passes.ends {β : Type} {o : Outcome β} (h : Passes i s t) (hFrame : Frame i s t)
    (hRest : o.Ends (Passes i t) fun _ => Breaks i t) : o.Ends (Passes i s) fun _ => Breaks i s :=
  hRest.mono (fun _ => h.trans) fun _ _ => .trans hFrame h

namespace BreaksWithin

variable {fuel : Nat} (h : i.IsSteady) (ih : BreaksWithin i fuel)

include ih in
theorem body_succ (ops : List (Op α)) (a : α) (s : State) (hs : Growing i s)
    (hOps : Op.AreSteady ops) :
    (i.runBody (fuel + 1) ops a s).Ends (Passes i s) fun _ => Breaks i s := by
  cases ops with
  | nil => exact Input.ends_runBody_nil (.refl s)
  | cons op ops =>
    obtain ⟨hOp, hRest⟩ := Op.areSteady_cons hOps
    apply Input.ends_runBody_cons
    refine (((frame_runs i fuel).op op a s).and (ih.op op a s hs hOp)).mono ?_ fun _ _ => And.right
    rintro t ⟨hFrame, ht⟩ b
    exact ht.ends hFrame (ih.body ops b t (hs.of_frame hFrame) hRest)

include h ih in
theorem op_succ (op : Op α) (a : α) (s : State) (hs : Growing i s) (hOp : op.IsSteady) :
    (i.runOp (fuel + 1) op a s).Ends (Passes i s) fun _ => Breaks i s := by
  cases op with
  | consume occurrence token label act =>
    exact Input.ends_consume (breaks_consume hs (h.recoveryEnabled s) occurrence token label)
  | subrule occurrence rule label act =>
    exact Input.ends_subrule fun id _ => ih.invoke id occurrence label s hs
  | option occurrence body act =>
    exact Input.ends_option (fun _ => ih.body body a s hs hOp.option) fun _ => .refl s
  | repetition mandatory separator occurrence body act =>
    obtain ⟨hSeparator, hBody⟩ := hOp.repetition
    exact Input.ends_repetition (ih.loop _ true a s hs hSeparator hBody)
  | choice occurrence branches act =>
    apply Input.ends_choice_inside
    refine (askGates_state hs.inside.tidy fuel _).mono ?_ fun _ _ => False.elim
    rintro t rfl
    exact ⟨fun branch hBranch b => ih.body branch.body b t hs (hOp.choice hBranch), breaks_fails t⟩
  | peek distance act => exact Input.ends_peek (.refl s)
  | trial rule act =>
    apply Input.ends_trial
    refine (runTrial_state hs.inside.tidy fuel rule).mono ?_ fun _ _ => False.elim
    rintro t rfl
    exact .refl t
  | whenParsing body => exact Input.ends_whenParsing (ih.body body a s hs hOp.whenParsing)
  | whenRecording body => exact Input.ends_whenRecording (.refl s)
  | attempt body act => cases hOp.propagates

include h ih in
theorem invoke_succ (rule : RuleId) (occurrence : Nat) (label : Option String) (s : State)
    (hs : Growing i s) :
    (i.invoke (fuel + 1) rule occurrence label s).Ends (Passes i s) fun _ => Breaks i s := by
  have hEnter := hs.enter rule occurrence
  apply Input.ends_invoke
  refine (((frame_runs i fuel).body _ _ _).and
    (ih.body (i.grammar.body rule) default _ hEnter (h.bodies rule))).mono ?_ ?_
  · rintro t ⟨hFrame, ht⟩
    exact ht.leave hs hFrame label
  · rintro e t ⟨hStopped, ht⟩
    rw [hs.inside.recoverRule_unaided hStopped.1 (h.recoveryEnabled t), if_neg Bool.false_ne_true]
    exact ht.markRecovered.leave hs hStopped.markRecovered.1 label

include h ih in
theorem loop_succ (loop : Input.Loop α) (isFirst : Bool) (a : α) (s : State) (hs : Growing i s)
    (hSeparator : loop.separator ≠ some Vocabulary.eof) (hBody : Op.AreSteady loop.body) :
    (i.runLoop (fuel + 1) loop isFirst a s).Ends (Passes i s) fun _ => Breaks i s := by
  cases isFirst with
  | true =>
    exact Input.ends_runLoop_first_inside (fun _ => ih.iteration loop a s hs hSeparator hBody)
      (fun _ _ => .refl s) fun _ => breaks_fails s
  | false =>
    apply Input.ends_runLoop_later
    · intro hContinues
      have hFrame := frame_consumeSeparator (i := i) (s := s) loop.separator
      exact (passes_consumeSeparator hs h.atEnd hSeparator hContinues).ends hFrame
        (ih.iteration loop a _ (hs.of_frame hFrame) hSeparator hBody)
    · intro _
      rw [Input.skipToNextIteration_unaided (h.recoveryEnabled s), if_neg Bool.false_ne_true]
      exact .refl s

include h ih in
theorem iteration_succ (loop : Input.Loop α) (a : α) (s : State) (hs : Growing i s)
    (hSeparator : loop.separator ≠ some Vocabulary.eof) (hBody : Op.AreSteady loop.body) :
    (i.runIteration (fuel + 1) loop a s).Ends (Passes i s) fun _ => Breaks i s := by
  apply Input.ends_runIteration
  refine (((frame_runs i fuel).body loop.body a s).and (ih.body loop.body a s hs hBody)).mono ?_ ?_
  · rintro t ⟨hFrame, ht⟩
    unfold Input.GoesOn
    split
    · exact ht
    · exact fun b => ht.ends hFrame (ih.loop loop false b t (hs.of_frame hFrame) hSeparator hBody)
  · rintro e t ⟨-, ht⟩
    rw [Input.resumeRepetition_unaided (h.recoveryEnabled t)]
    exact ht

end BreaksWithin

theorem Input.IsSteady.breaksWithin (h : i.IsSteady) (fuel : Nat) : BreaksWithin i fuel := by
  induction fuel with
  | zero =>
    refine ⟨?_, ?_, ?_, ?_, ?_⟩ <;> intros
    · rw [Input.runBody]; trivial
    · rw [Input.runOp]; trivial
    · rw [Input.invoke]; trivial
    · rw [Input.runLoop]; trivial
    · rw [Input.runIteration]; trivial
  | succ fuel ih =>
    exact ⟨ih.body_succ, ih.op_succ h, ih.invoke_succ h, ih.loop_succ h, ih.iteration_succ h⟩

/-! ## The start rule -/

structure Ended (i : Input α) (rule : RuleId) (s : State) : Prop where
  tree : ∃ root, s.root = some root ∧
    root.leaves.filter (fun x => !x.isEof) = i.slice 0 s.position
  inRange : s.position ≤ i.tokens.size
  calls : s.calls = []
  errors : s.terminated = false ∧ s.errors = [] ∨
    s.terminated = true ∧ ∃ e, s.errors = [e] ∧ FoundIn i [⟨rule, 0⟩] s.position e

omit [Inhabited α]

theorem TextRead.ended {rule : RuleId} {root : Node}
    (hTree : i.grammar.config.outputTree = true) (h : TextRead i (i.enter .initial rule 0) t)
    (hOpen : t.openNodes = [root]) (hCalls : t.calls = [⟨rule, 0⟩])
    (hErrors : t.terminated = false ∧ t.errors = [] ∨
      t.terminated = true ∧ ∃ e, t.errors = [e] ∧ FoundIn i [⟨rule, 0⟩] t.position e) :
    Ended i rule (i.leave t rule none) := by
  have hRead := h.read
  rw [read_enter] at hRead
  rw [leave_root hTree hOpen]
  refine ⟨⟨root, rfl, ?_⟩, h.inRange (Nat.zero_le _), congrArg List.tail hCalls, hErrors⟩
  simpa [State.read, hOpen, State.initial, Input.enter] using hRead

variable [Inhabited α]

theorem Input.IsSteady.ended_start (h : i.IsSteady) (hTree : i.grammar.config.outputTree = true)
    (fuel : Nat) (rule : RuleId) :
    (i.invoke fuel rule 0 none .initial).Ends (Ended i rule) fun _ _ => False := by
  cases fuel with
  | zero => rw [Input.invoke]; trivial
  | succ fuel =>
    have hGrowing := growing_start hTree rule
    apply Input.ends_invoke
    refine (((frame_runs i fuel).body _ _ _).and
      ((h.breaksWithin fuel).body (i.grammar.body rule) default _ hGrowing (h.bodies rule))).mono
        ?_ ?_
    · rintro t ⟨hFrame, ht⟩
      have hRunning : t.terminated = false := hFrame.terminated (.inr hGrowing.inside.calls)
      obtain ⟨root, hOpen⟩ := exists_root hTree hFrame
      exact ht.text.ended hTree hOpen hFrame.calls (.inl ⟨hRunning, ht.errors⟩)
    · rintro e t ⟨hStopped, ht⟩
      rw [recoverRule_start hStopped.1 (h.recoveryEnabled t), if_pos rfl]
      obtain ⟨hText, hFound⟩ := ht.markRecovered
      have hFrame := hStopped.markRecovered.1
      obtain ⟨root, hOpen⟩ := exists_root hTree hFrame
      have hText : TextRead i (i.enter .initial rule 0) { t.markRecovered with terminated := true } :=
        hText.congr rfl rfl rfl rfl
      exact hText.ended hTree hOpen hFrame.calls (.inr ⟨rfl, hFound⟩)

/-! ## The result -/

/-- The error of a parse that has read that many tokens. Only the error for tokens left over is
found outside all rules. -/
structure IsOnlyError (i : Input α) (start : String) (count : Nat) (e : RecognitionError) : Prop where
  token : e.token = (i.tokens[count]?).getD i.eof
  previous : e.previous = if count = 0 then none else i.tokens[count - 1]?
  ruleStack : if e.cause = .notAllInputParsed then e.ruleStack = []
    else e.ruleStack.head? = some start

/-- A parse that stops behind that many tokens. -/
structure StopsBehind (i : Input α) (start : String) (count : Nat) (output : ParseOutput α) :
    Prop where
  inRange : count ≤ i.tokens.size
  tree : ∃ root, output.tree = some root ∧
    root.leaves.filter (fun x => !x.isEof) = i.tokens.toList.take count ∧
    -- The labels in the tree keep no order, but places in a text do.
    ((∀ x ∈ i.tokens.toList, x.inserted = false) →
      i.tokens.toList.Pairwise (fun x y => x.span.start < y.span.start) →
      root.sourceTokens.filter (fun x => !x.isEof) = i.tokens.toList.take count)
  errors : output.errors = [] ∧ count = i.tokens.size ∨
    ∃ e, output.errors = [e] ∧ IsOnlyError i start count e

omit [Inhabited α]

theorem FoundIn.isOnlyError {rule : RuleId} {start : String} {count : Nat} {e : RecognitionError}
    (h : FoundIn i [⟨rule, 0⟩] count e) (hStart : i.grammar.ruleName rule = start) :
    IsOnlyError i start count e := by
  refine ⟨h.token, by simp [h.previous, Nat.pos_iff_ne_zero], ?_⟩
  obtain ⟨inner, hRules⟩ := h.rules
  rw [if_neg h.cause, ← hRules, ← hStart]
  rfl

theorem Ended.stopsBehind {rule : RuleId} {start : String} (h : Ended i rule s)
    (hStart : i.grammar.ruleName rule = start) (value : α) :
    StopsBehind i start s.position (i.finish value s) := by
  obtain ⟨⟨root, hRoot, hLeaves⟩, hRange, hCalls, hErrors⟩ := h
  rw [slice_eq, List.drop_zero] at hLeaves
  have hSource : (∀ x ∈ i.tokens.toList, x.inserted = false) →
      i.tokens.toList.Pairwise (fun x y => x.span.start < y.span.start) →
      root.sourceTokens.filter (fun x => !x.isEof) = i.tokens.toList.take s.position :=
    fun hText hPlaces => root.filter_sourceTokens hLeaves
      (fun x hx => hText x (List.mem_of_mem_take hx)) (hPlaces.sublist (List.take_sublist _ _))
  rcases i.finish_cases value s with ⟨hEnd, hFinish⟩ | ⟨hRunning, hLeft, hFinish⟩
  · rw [hFinish]
    refine ⟨hRange, ⟨root, hRoot, hLeaves, hSource⟩, ?_⟩
    rcases hErrors with ⟨hRunning, hNone⟩ | ⟨-, e, hOne, hFound⟩
    · rw [hRunning] at hEnd
      exact .inl ⟨hNone, Nat.le_antisymm hRange (hEnd.resolve_left Bool.false_ne_true)⟩
    · exact .inr ⟨e, hOne, hFound.isOnlyError hStart⟩
  · rw [hFinish]
    refine ⟨hRange, ⟨root, hRoot, hLeaves, hSource⟩, .inr ?_⟩
    obtain ⟨-, hNone⟩ := hErrors.resolve_right fun hEnd => by simp [hRunning] at hEnd
    refine ⟨_, by rw [Input.recordError, hNone]; rfl, rfl, ?_, ?_⟩
    · simp [Nat.pos_iff_ne_zero]
    · simp [hCalls]

theorem Input.IsSteady.of_compile {types : List TokenType} {bodies : List (RuleBody α)}
    {config : ParserConfig} {g : Grammar α}
    (hCompile : Grammar.compile (.ofTypes types) bodies config = .ok g)
    (hPropagates : ∀ r ∈ bodies, Op.propagatesAll r.body = true)
    (hSeparators : ∀ r ∈ bodies, ∀ p ∈ Production.nodesOf (Op.performedBy r.body),
      p.separator ≠ some Vocabulary.eof)
    (hUnaided : config.recovery = false) (tokens : List Token) :
    (⟨g, tokens.toArray⟩ : Input α).IsSteady := by
  obtain ⟨hCompiled, hVocabulary, hConfig⟩ := Grammar.compile_ok hCompile
  exact ⟨hCompiled.forall_body Op.areSteady_nil fun r hr => ⟨hPropagates r hr, hSeparators r hr⟩,
    Input.eq_eof_of_isMatch hVocabulary, hConfig ▸ hUnaided⟩

end Parse

variable [Inhabited α]

/-- Without recovery a parse stops at its first error. Its tree holds the tokens in front of the
error, and nothing else is reported. -/
theorem parse_stops_at_first_error {types : List TokenType} {bodies : List (RuleBody α)}
    {config : ParserConfig} {g : Grammar α}
    (hCompile : Grammar.compile (.ofTypes types) bodies config = .ok g)
    (hPropagates : ∀ r ∈ bodies, Op.propagatesAll r.body = true)
    (hSeparators : ∀ r ∈ bodies, ∀ p ∈ Production.nodesOf (Op.performedBy r.body),
      p.separator ≠ some Vocabulary.eof)
    (hUnaided : config.recovery = false) (hTree : config.outputTree = true) {fuel : Nat}
    {start : String} {tokens : List Token} {output : Parse.ParseOutput α}
    (hParse : g.parseWithin fuel start tokens = .parsed output) :
    ∃ count, Parse.StopsBehind (⟨g, tokens.toArray⟩ : Parse.Input α) start count output := by
  have hSteady := Parse.Input.IsSteady.of_compile hCompile hPropagates hSeparators hUnaided tokens
  obtain ⟨-, -, hConfig⟩ := Grammar.compile_ok hCompile
  unfold Grammar.parseWithin at hParse
  cases hId : g.ruleNamed? start with
  | none => simp [hId] at hParse
  | some id =>
    simp only [hId, Parse.Input.parseFrom] at hParse
    have hEnded := hSteady.ended_start (hConfig ▸ hTree) fuel id
    cases hRun : (⟨g, tokens.toArray⟩ : Parse.Input α).invoke fuel id 0 none .initial with
    | done a s =>
      rw [hRun] at hEnded hParse
      cases hParse
      exact ⟨s.position, Parse.Ended.stopsBehind hEnded (Grammar.ruleName_of_ruleNamed? hId) a⟩
    | interrupted e a s => rw [hRun] at hEnded; exact hEnded.elim
    | panicked why => rw [hRun] at hParse; cases hParse
    | outOfFuel => rw [hRun] at hParse; cases hParse

theorem parse_stops_at_first_error_broken : ∃ (g : Grammar Unit)
    (output : Parse.ParseOutput Unit) (count : Nat),
    Grammar.compile (.ofTypes JsonText.types) JsonText.rules {} = .ok g ∧
      g.parseWithin 100 "json" JsonText.broken = .parsed output ∧ output.errors.length = 1 ∧
      Parse.StopsBehind (⟨g, JsonText.broken.toArray⟩ : Parse.Input Unit) "json" count output := by
  obtain ⟨g, output, hCompile, hParse, hErrors⟩ :=
    JsonText.exists_parsed {} JsonText.broken (p := fun result => result.2.errors.length == 1)
      (by decide +kernel)
  obtain ⟨count, hStops⟩ := parse_stops_at_first_error hCompile
    (fun r hr => (JsonText.isFaithful r hr).propagates) (by decide) rfl rfl hParse
  exact ⟨g, output, count, hCompile, hParse, beq_iff_eq.mp hErrors, hStops⟩

end PredictiveParsing
