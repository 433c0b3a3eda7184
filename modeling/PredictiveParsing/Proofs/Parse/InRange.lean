import PredictiveParsing.Proofs.Builtin.JsonText
import PredictiveParsing.Proofs.Grammar.EndOfInput
import PredictiveParsing.Proofs.Parse.Ahead

/-!
# Parsing stays in range

No place that a parse comes to is behind the end of the input, so the tokens that recovery skips are
always there to be taken, and no parse panics. Skipping a token in front of the end of the input is
the exception: if the end is what was expected, it is passed over like a token.
-/

namespace PredictiveParsing

variable {α : Type}

/-- What is known of a production: its rule exists, the end of the input is no separator, and it is
not asked for where recovery could pass over it. -/
structure Production.IsConfined (g : Grammar α) (p : Production) : Prop where
  separator : p.separator ≠ some Vocabulary.eof
  notEnd : g.config.recovery = true → p.isEnd = false
  target : ∀ {name target occurrence}, p = .nonTerminal name target occurrence →
    ∃ id, g.ruleNamed? name = some id

namespace Parse

/-- A run that does not panic, and what holds of the state in which it ends. -/
def Outcome.Safe {β : Type} (o : Outcome β) (P : State → Prop) : Prop :=
  match o with
  | .done _ s => P s
  | .interrupted _ _ s => P s
  | .panicked _ => False
  | .outOfFuel => True

theorem Outcome.safe_finish {β γ : Type} {o : Outcome β} {f g : β → γ} {P : State → Prop} :
    (o.finish f g).Safe P ↔ o.Safe P := by
  cases o with
  | done | interrupted | panicked | outOfFuel => rfl

theorem Outcome.Safe.mask {o : Outcome (List Bool)} {P : State → Prop} (h : o.Safe P)
    (holds : Bool) : (match o with
      | .done mask s => Outcome.done (holds :: mask) s
      | other => other).Safe P := by
  cases o with
  | done | interrupted | panicked | outOfFuel => exact h

/-- A faithful grammar that recovery cannot lead behind the end of the input. -/
structure Input.IsConfined (i : Input α) : Prop where
  faithful : i.grammar.IsFaithful
  productions : AllRules (Production.IsConfined i.grammar) i.grammar.rules
  atEnd : ∀ {token}, i.isMatch Vocabulary.eof token = true → token = Vocabulary.eof

def InRange (i : Input α) (s : State) : Prop := s.position ≤ i.tokens.size

variable {i : Input α} {s t : State} {start index : Nat}

/-! ## Steps -/

theorem InRange.congr (h : InRange i s) (hSame : t.position = s.position) : InRange i t := by
  rwa [InRange, hSame]

theorem InRange.leave (h : InRange i t) (rule : RuleId) (label : Option String) :
    InRange i (i.leave t rule label) := h.congr (position_leave rule label)

theorem InRange.markRecovered (h : InRange i s) : InRange i s.markRecovered :=
  h.congr (position_updateNode _)

theorem InRange.of_kindAt (h : i.kindAt index ≠ Vocabulary.eof) (hNext : t.position = index + 1) :
    InRange i t := by
  rw [InRange, hNext]
  exact Input.lt_of_kindAt h

theorem le_size_of_resyncPlace? {fuel : Nat} (hStart : start ≤ i.tokens.size)
    (h : i.resyncPlace? s fuel start = some index) : index ≤ i.tokens.size := by
  induction fuel generalizing start with
  | zero => cases h
  | succ fuel ih =>
    rw [Input.resyncPlace?] at h
    split at h
    · cases h
      exact hStart
    · split at h
      · cases h
      · next hGo =>
        simp only [Bool.or_eq_true, not_or, beq_iff_eq] at hGo
        exact ih (Input.lt_of_kindAt hGo.1) h

theorem InRange.overrun? (h : InRange i s) : i.overrun? s = none := by
  rw [Input.overrun?]
  split
  · rw [Option.filter_eq_none_iff]
    intro index hPlace
    simpa using le_size_of_resyncPlace? h hPlace
  · rfl

theorem InRange.recoverRule (h : InRange i s) (error : Nat) :
    InRange i (i.recoverRule s error).1 := by
  have hMark := h.markRecovered
  rcases i.recoverRule_cases s error with ⟨index, -, hPlace, hRec⟩ | ⟨-, -, -, hRec⟩ | ⟨-, hRec⟩
  · rw [hRec]
    exact le_size_of_resyncPlace? hMark hPlace
  · rw [hRec]
    exact hMark
  · rw [hRec]
    exact hMark

theorem lt_size_of_resumePlace? {exits : Option TokenSet} {decision : Option Decision}
    {separator : Option TypeId} {fuel : Nat} {resumes : Bool}
    (h : i.resumePlace? s exits decision separator fuel start = some (index, resumes)) :
    index < i.tokens.size := by
  induction fuel generalizing start with
  | zero => cases h
  | succ fuel ih =>
    rw [Input.resumePlace?] at h
    simp only at h
    split at h
    · cases h
    · next hKind =>
      rw [beq_iff_eq] at hKind
      split at h
      · cases h
        exact Input.lt_of_kindAt hKind
      · split at h
        · cases h
        · exact ih h

theorem lt_size_of_skipPlace? {exits : TokenSet} {decision : Option Decision}
    {separator : Option TypeId} {fuel : Nat} {resumes : Bool}
    (h : i.skipPlace? s exits decision separator fuel start = some (index, resumes)) :
    index < i.tokens.size := by
  induction fuel generalizing start with
  | zero => cases h
  | succ fuel ih =>
    rw [Input.skipPlace?] at h
    simp only at h
    split at h
    · cases h
    · next hKind =>
      rw [beq_iff_eq] at hKind
      split at h
      · cases h
        exact Input.lt_of_kindAt hKind
      · split at h
        · cases h
        · exact ih h

theorem InRange.resumeRepetition (h : InRange i s) (key : DecisionKey)
    (decision : Option Decision) (separator : Option TypeId) (error : Nat) :
    match i.resumeRepetition s key decision separator error with
    | .again t => InRange i t
    | .exit t => InRange i t
    | .failed t => InRange i t := by
  unfold Input.resumeRepetition
  cases i.recoveryEnabled s with
  | false => exact h
  | true =>
    simp only [if_true]
    cases hPlace : i.resumePlace? s (i.grammar.analysis.repetitionExits.lookup key) decision
        separator (i.tokens.size + 1) s.position with
    | none => exact h
    | some place =>
      obtain ⟨index, resumes⟩ := place
      have hIn : InRange i (s.resyncTo i error index) := Nat.le_of_lt (lt_size_of_resumePlace? hPlace)
      cases resumes with
      | true => exact hIn
      | false => exact hIn

theorem InRange.skipToNextIteration (h : InRange i s) (key : DecisionKey)
    (decision : Option Decision) (separator : Option TypeId) :
    InRange i (i.skipToNextIteration s key decision separator).1 := by
  unfold Input.skipToNextIteration
  split
  · exact h
  · simp only
    split
    · exact h
    · split
      · exact h
      · next index resumes hPlace => exact Nat.le_of_lt (lt_size_of_skipPlace? hPlace)

theorem InRange.consumeSeparator (h : InRange i s)
    (hAtEnd : ∀ {token}, i.isMatch Vocabulary.eof token = true → token = Vocabulary.eof)
    {decision : Option Decision} {separator : Option TypeId}
    (hSeparator : separator ≠ some Vocabulary.eof)
    (hContinues : i.continues s decision separator = true) :
    InRange i (i.consumeSeparator s separator) := by
  cases separator with
  | none => exact h
  | some token =>
    refine .of_kindAt (fun hKind => hSeparator ?_) (position_addToken _ _ _)
    rw [Input.continues, hKind] at hContinues
    rw [hAtEnd hContinues]

theorem InRange.consume (h : InRange i s)
    (hAtEnd : ∀ {token}, i.isMatch Vocabulary.eof token = true → token = Vocabulary.eof)
    {expected : TypeId} (hExpected : i.grammar.config.recovery = true → expected ≠ Vocabulary.eof)
    (occurrence : Nat) (label : Option String) :
    (i.consume s occurrence expected label).Safe (InRange i) := by
  unfold Input.consume
  simp only
  split
  · refine InRange.congr (s := i.behindNext s) ?_ (position_addToken _ _ _)
    unfold Input.behindNext
    split
    · exact h
    · next hEnd => exact .of_kindAt (fun hKind => hEnd (isEof_next.mpr hKind)) rfl
  · split
    · next x t hRecovered =>
      split at hRecovered
      · next hOn =>
        have hExpected : expected ≠ Vocabulary.eof := by
          rw [Input.recoveryEnabled, Bool.and_eq_true] at hOn
          exact hExpected hOn.1
        refine InRange.congr (s := t) ?_ ((position_addToken _ _ _).trans (position_updateNode _))
        rcases Input.recoverToken?_cases hRecovered with ⟨-, rfl⟩ | ⟨-, hMatch, -, rfl⟩
        · exact h
        · refine .of_kindAt (fun hKind => hExpected ?_) rfl
          rw [hKind] at hMatch
          exact hAtEnd hMatch
      · cases hRecovered
    · exact h

/-! ## Runs -/

variable [Inhabited α] {fuel : Nat}

structure Input.Confines (i : Input α) (ops : List (Op α)) : Prop where
  propagates : Op.propagatesAll ops = true
  productions : ∀ p ∈ Production.nodesOf (i.grammar.shape ops), p.IsConfined i.grammar

namespace Input.Confines

variable {op : Op α} {p : Production} {occurrence : Nat} {body : List (Op α)}

omit [Inhabited α]

theorem cons {ops : List (Op α)} (h : i.Confines (op :: ops)) : i.Confines [op] ∧ i.Confines ops := by
  obtain ⟨hPropagates, hProductions⟩ := h
  rw [Op.propagatesAll, Bool.and_eq_true] at hPropagates
  rw [Grammar.shape_cons, Production.nodesOf_append, List.forall_mem_append] at hProductions
  refine ⟨⟨?_, ?_⟩, hPropagates.2, hProductions.2⟩
  · rw [Op.propagatesAll, hPropagates.1, Op.propagatesAll, Bool.and_true]
  · rw [Grammar.shape_cons, Grammar.shape_nil, List.append_nil]
    exact hProductions.1

theorem propagates_op (h : i.Confines [op]) : op.propagates = true := by
  have hPropagates := h.propagates
  rwa [Op.propagatesAll, Op.propagatesAll, Bool.and_true] at hPropagates

theorem nodes (h : i.Confines [op]) (hShape : i.grammar.shapeOf op = [p]) :
    ∀ q ∈ p.nodes, q.IsConfined i.grammar := by
  have hProductions := h.productions
  rwa [Grammar.shape_cons, Grammar.shape_nil, List.append_nil, hShape,
    Production.nodesOf_singleton] at hProductions

theorem production (h : i.Confines [op]) (hShape : i.grammar.shapeOf op = [p]) :
    p.IsConfined i.grammar := h.nodes hShape p p.mem_nodes_self

theorem whenParsing (h : i.Confines [.whenParsing body]) : i.Confines body := by
  refine ⟨h.propagates_op, ?_⟩
  have hProductions := h.productions
  rwa [Grammar.shape_cons, Grammar.shape_nil, List.append_nil, Grammar.shapeOf_whenParsing]
    at hProductions

theorem option {act : Bool → α → α} (h : i.Confines [.option occurrence body act]) :
    i.Confines body :=
  ⟨h.propagates_op, fun q hq =>
    h.nodes (Grammar.shapeOf_option _ _ _ _) q (List.mem_cons_of_mem _ hq)⟩

theorem repetition {mandatory : Bool} {separator : Option TypeId} {act : α → α}
    (h : i.Confines [.repetition mandatory separator occurrence body act]) :
    separator ≠ some Vocabulary.eof ∧ i.Confines body :=
  have hShape := i.grammar.shapeOf_repetition mandatory separator occurrence body act
  ⟨(h.production hShape).separator, h.propagates_op, fun q hq =>
    h.nodes hShape q (List.mem_cons_of_mem _ hq)⟩

theorem branch {branches : List (Branch (Op α))} {act : α → α → α} {branch : Branch (Op α)}
    (h : i.Confines [.choice occurrence branches act]) (hMem : branch ∈ branches) :
    i.Confines branch.body := by
  have hPropagates := h.propagates_op
  rw [Op.propagates, Op.propagatesBranches_iff] at hPropagates
  exact ⟨hPropagates branch hMem, fun q hq => h.nodes (Grammar.shapeOf_choice _ _ _ _) q
    (List.mem_cons_of_mem _ (Production.mem_nodesOfBranches (i.grammar.mem_shapeOfBranches hMem) hq))⟩

end Input.Confines

omit [Inhabited α] in
theorem Input.IsConfined.confines_body (hi : i.IsConfined) (rule : RuleId) :
    i.Confines (i.grammar.body rule) := by
  refine ⟨hi.faithful.propagates rule, ?_⟩
  rw [← hi.faithful.definition]
  exact throughout_sequence.mp (hi.productions.definition rule)

structure SafeWithin (i : Input α) (fuel : Nat) : Prop where
  body : ∀ ops a s, i.Confines ops → InRange i s → (i.runBody fuel ops a s).Safe (InRange i)
  op : ∀ op a s, i.Confines [op] → InRange i s → (i.runOp fuel op a s).Safe (InRange i)
  invoke : ∀ rule occurrence label s, InRange i s →
    (i.invoke fuel rule occurrence label s).Safe (InRange i)
  loop : ∀ loop isFirst a s, loop.separator ≠ some Vocabulary.eof → i.Confines loop.body →
    InRange i s → (i.runLoop fuel loop isFirst a s).Safe (InRange i)
  iteration : ∀ loop a s, loop.separator ≠ some Vocabulary.eof → i.Confines loop.body →
    InRange i s → (i.runIteration fuel loop a s).Safe (InRange i)
  trial : ∀ rule s, InRange i s → (i.runTrial fuel rule s).Safe (InRange i)
  gate : ∀ gate s, InRange i s → (i.askGate fuel gate s).Safe (InRange i)
  gates : ∀ gates s, InRange i s → (i.askGates fuel gates s).Safe (InRange i)

namespace SafeWithin

variable (hi : i.IsConfined) (ih : SafeWithin i fuel)

include ih

theorem body_succ (ops : List (Op α)) (a : α) (s : State) (hOps : i.Confines ops)
    (hs : InRange i s) : (i.runBody (fuel + 1) ops a s).Safe (InRange i) := by
  cases ops with
  | nil => rw [Input.runBody]; exact hs
  | cons op ops =>
    obtain ⟨hOne, hRest⟩ := hOps.cons
    have hOp := ih.op op a s hOne hs
    rw [Input.runBody]
    cases hr : i.runOp fuel op a s with
    | done b t =>
      rw [hr] at hOp
      exact ih.body ops b t hRest hOp
    | interrupted e b t => rw [hr] at hOp; exact hOp
    | panicked why => rw [hr] at hOp; exact hOp
    | outOfFuel => trivial

include hi

theorem invoke_succ (rule : RuleId) (occurrence : Nat) (label : Option String) (s : State)
    (hs : InRange i s) : (i.invoke (fuel + 1) rule occurrence label s).Safe (InRange i) := by
  have hOps := hi.confines_body rule
  have hBody := ih.body (i.grammar.body rule) default (i.enter s rule occurrence) hOps hs
  rw [Input.invoke]
  cases hr : i.runBody fuel (i.grammar.body rule) default (i.enter s rule occurrence) with
  | done b t =>
    rw [hr] at hBody
    exact InRange.leave hBody rule label
  | interrupted e b t =>
    rw [hr] at hBody
    have ht : InRange i t := hBody
    have hRecovered := (ht.recoverRule e).leave rule label
    simp only [ht.overrun?]
    cases hRec : i.recoverRule t e with
    | mk u resynced =>
      rw [hRec] at hRecovered
      cases resynced with
      | true => exact hRecovered
      | false => exact hRecovered
  | panicked why => rw [hr] at hBody; exact hBody
  | outOfFuel => trivial

theorem loop_succ (loop : Input.Loop α) (isFirst : Bool) (a : α) (s : State)
    (hSeparator : loop.separator ≠ some Vocabulary.eof) (hBody : i.Confines loop.body)
    (hs : InRange i s) : (i.runLoop (fuel + 1) loop isFirst a s).Safe (InRange i) := by
  cases isFirst with
  | true =>
    rw [Input.runLoop]
    simp only [if_true]
    split
    · exact ih.iteration loop a s hSeparator hBody hs
    · split
      · exact hs
      · exact hs
  | false =>
    rw [Input.runLoop]
    simp only [Bool.false_eq_true, if_false]
    split
    · next hContinues =>
      exact ih.iteration loop a _ hSeparator hBody (hs.consumeSeparator hi.atEnd hSeparator hContinues)
    · have hSkip := hs.skipToNextIteration loop.key (i.decisionAt? loop.key) loop.separator
      cases hr : i.skipToNextIteration s loop.key (i.decisionAt? loop.key) loop.separator with
      | mk t again =>
        rw [hr] at hSkip
        cases again with
        | true => exact ih.loop loop false a t hSeparator hBody hSkip
        | false => exact hSkip

omit hi

theorem iteration_succ (loop : Input.Loop α) (a : α) (s : State)
    (hSeparator : loop.separator ≠ some Vocabulary.eof) (hBody : i.Confines loop.body)
    (hs : InRange i s) : (i.runIteration (fuel + 1) loop a s).Safe (InRange i) := by
  have goesOn : ∀ b t, InRange i t →
      (if t.position = s.position then Outcome.done b t else i.runLoop fuel loop false b t).Safe
        (InRange i) := by
    intro b t ht
    split
    · exact ht
    · exact ih.loop loop false b t hSeparator hBody ht
  have hRun := ih.body loop.body a s hBody hs
  rw [Input.runIteration]
  cases hr : i.runBody fuel loop.body a s with
  | done b t => rw [hr] at hRun; exact goesOn b t hRun
  | interrupted e b t =>
    rw [hr] at hRun
    have hResume := InRange.resumeRepetition hRun loop.key (i.decisionAt? loop.key) loop.separator e
    simp only
    cases hRes : i.resumeRepetition t loop.key (i.decisionAt? loop.key) loop.separator e with
    | again u => rw [hRes] at hResume; exact goesOn b u hResume
    | exit u => rw [hRes] at hResume; exact hResume
    | failed u => rw [hRes] at hResume; exact hResume
  | panicked why => rw [hr] at hRun; exact hRun
  | outOfFuel => trivial

theorem trial_succ (rule : String) (s : State) (hs : InRange i s) :
    (i.runTrial (fuel + 1) rule s).Safe (InRange i) := by
  rw [Input.runTrial]
  split
  · exact hs
  · next id hName =>
    have hRun := ih.invoke id 0 none (i.beginTrial s) hs
    cases hr : i.invoke fuel id 0 none (i.beginTrial s) with
    | done b t => exact hs
    | interrupted e b t => exact hs
    | panicked why => rw [hr] at hRun; exact hRun
    | outOfFuel => trivial

theorem gate_succ (gate : Gate) (s : State) (hs : InRange i s) :
    (i.askGate (fuel + 1) gate s).Safe (InRange i) := by
  cases gate with
  | parsing | tokens => rw [Input.askGate]; exact hs
  | trial rule => rw [Input.askGate]; exact ih.trial rule s hs
  | negation g =>
    have hg := ih.gate g s hs
    rw [Input.askGate]
    cases hr : i.askGate fuel g s with
    | done holds t => rw [hr] at hg; exact hg
    | interrupted e holds t => rw [hr] at hg; exact hg
    | panicked why => rw [hr] at hg; exact hg
    | outOfFuel => trivial
  | both first second =>
    have hFirst := ih.gate first s hs
    rw [Input.askGate]
    cases hr : i.askGate fuel first s with
    | done holds t =>
      rw [hr] at hFirst
      cases holds with
      | true => exact ih.gate second t hFirst
      | false => exact hFirst
    | interrupted e holds t => rw [hr] at hFirst; exact hFirst
    | panicked why => rw [hr] at hFirst; exact hFirst
    | outOfFuel => trivial

theorem gates_succ (gates : List (Option Gate)) (s : State) (hs : InRange i s) :
    (i.askGates (fuel + 1) gates s).Safe (InRange i) := by
  cases gates with
  | nil => rw [Input.askGates]; exact hs
  | cons gate gates =>
    cases gate with
    | none => rw [Input.askGates]; exact (ih.gates gates s hs).mask true
    | some gate =>
      have hGate := ih.gate gate s hs
      rw [Input.askGates]
      cases hr : i.askGate fuel gate s with
      | done holds t => rw [hr] at hGate; exact (ih.gates gates t hGate).mask holds
      | interrupted e holds t => rw [hr] at hGate; exact hGate
      | panicked why => rw [hr] at hGate; exact hGate
      | outOfFuel => trivial

include hi

theorem op_succ (op : Op α) (a : α) (s : State) (hOp : i.Confines [op]) (hs : InRange i s) :
    (i.runOp (fuel + 1) op a s).Safe (InRange i) := by
  cases op with
  | consume occurrence token label act =>
    have hToken := (hOp.production (Grammar.shapeOf_consume _ _ _ _ _)).notEnd
    rw [Input.runOp_consume]
    exact Outcome.safe_finish.mpr
      (hs.consume hi.atEnd (fun hOn => by simpa [Production.isEnd] using hToken hOn) occurrence label)
  | subrule occurrence rule label act =>
    obtain ⟨id, hName⟩ := (hOp.production (Grammar.shapeOf_subrule _ _ _ _ _)).target rfl
    rw [Input.runOp_subrule hName]
    exact Outcome.safe_finish.mpr (ih.invoke id occurrence label s hs)
  | option occurrence body act =>
    cases hEnter : i.enters s (i.decisionAt? (s.key .option occurrence)) with
    | true =>
      rw [Input.runOp_option_taken hEnter]
      exact Outcome.safe_finish.mpr (ih.body body a s hOp.option hs)
    | false => rw [Input.runOp_option_skipped hEnter]; exact hs
  | repetition mandatory separator occurrence body act =>
    obtain ⟨hSeparator, hBody⟩ := hOp.repetition
    rw [Input.runOp_repetition]
    exact Outcome.safe_finish.mpr (ih.loop _ true a s hSeparator hBody hs)
  | choice occurrence branches act =>
    have hGates := ih.gates (branches.map (·.gate)) s hs
    simp only [Input.runOp]
    cases hr : i.askGates fuel (branches.map (·.gate)) s with
    | done mask t =>
      rw [hr] at hGates
      simp only
      split
      · next branch hBranch =>
        obtain ⟨index, -, hIndex⟩ := Option.bind_eq_some_iff.mp hBranch
        have hBody := hOp.branch (List.mem_of_getElem? hIndex)
        have hRun := ih.body branch.body default t hBody hGates
        cases hRun' : i.runBody fuel branch.body default t with
        | done b u => rw [hRun'] at hRun; exact hRun
        | interrupted e b u => rw [hRun'] at hRun; exact hRun
        | panicked why => rw [hRun'] at hRun; exact hRun
        | outOfFuel => trivial
      · exact hGates
    | interrupted e mask t => rw [hr] at hGates; exact hGates
    | panicked why => rw [hr] at hGates; exact hGates
    | outOfFuel => trivial
  | peek distance act => rw [Input.runOp]; exact hs
  | trial rule act =>
    rw [Input.runOp_trial]
    exact Outcome.safe_finish.mpr (ih.trial rule s hs)
  | whenParsing body =>
    rw [Input.runOp]
    exact ih.body body a s hOp.whenParsing hs
  | whenRecording body => rw [Input.runOp]; exact hs
  | attempt body act => cases hOp.propagates_op

end SafeWithin

theorem safeWithin (hi : i.IsConfined) (fuel : Nat) : SafeWithin i fuel := by
  induction fuel with
  | zero =>
    refine ⟨?_, ?_, ?_, ?_, ?_, ?_, ?_, ?_⟩ <;> intros
    · rw [Input.runBody]; trivial
    · rw [Input.runOp]; trivial
    · rw [Input.invoke]; trivial
    · rw [Input.runLoop]; trivial
    · rw [Input.runIteration]; trivial
    · rw [Input.runTrial]; trivial
    · rw [Input.askGate]; trivial
    · rw [Input.askGates]; trivial
  | succ fuel ih =>
    exact ⟨ih.body_succ, ih.op_succ hi, ih.invoke_succ hi, ih.loop_succ hi, ih.iteration_succ,
      ih.trial_succ, ih.gate_succ, ih.gates_succ⟩

omit [Inhabited α] in
theorem Input.IsConfined.of_compile {types : List TokenType} {bodies : List (RuleBody α)}
    {config : ParserConfig} {g : Grammar α}
    (hCompile : Grammar.compile (.ofTypes types) bodies config = .ok g)
    (hBodies : ∀ r ∈ bodies, r.IsFaithful)
    (hSeparators : AllRules (fun p => p.separator ≠ some Vocabulary.eof) g.rules)
    (hEnd : config.recovery = true → AllRules (fun p => p.isEnd = false) g.rules)
    (tokens : Array Token) : (⟨g, tokens⟩ : Input α).IsConfined := by
  obtain ⟨hCompiled, hVocabulary, hConfig⟩ := Grammar.compile_ok hCompile
  refine ⟨hCompiled.isFaithful hBodies, fun r hr p hp => ⟨hSeparators r hr p hp, fun hOn => ?_, ?_⟩,
    fun {token} hMatch => ?_⟩
  · exact hEnd (hConfig ▸ hOn) r hr p hp
  · rintro name target occurrence rfl
    obtain ⟨id, -, hName⟩ := hCompiled.target hr hp
    exact ⟨id, hName⟩
  · rw [Input.isMatch, hVocabulary] at hMatch
    exact (Vocabulary.eof_isMatch_iff types).mp hMatch

end Parse

variable [Inhabited α]

/-- No parse panics, whatever the tokens, if the end of the input is no separator and recovery does
not expect it. -/
theorem parse_never_panics {types : List TokenType} {bodies : List (RuleBody α)}
    {config : ParserConfig} {g : Grammar α}
    (hCompile : Grammar.compile (.ofTypes types) bodies config = .ok g)
    (hBodies : ∀ r ∈ bodies, r.IsFaithful)
    (hSeparators : AllRules (fun p => p.separator ≠ some Vocabulary.eof) g.rules)
    (hEnd : config.recovery = true → AllRules (fun p => p.isEnd = false) g.rules)
    (fuel : Nat) (start : String) (tokens : List Token) (why : Parse.Panic) :
    g.parseWithin fuel start tokens ≠ .panicked why := by
  have hConfined : (⟨g, tokens.toArray⟩ : Parse.Input α).IsConfined :=
    .of_compile hCompile hBodies hSeparators hEnd _
  unfold Grammar.parseWithin
  cases g.ruleNamed? start with
  | none =>
    intro hPanic
    cases hPanic
  | some id =>
    have hSafe := (Parse.safeWithin hConfined fuel).invoke id 0 none .initial (Nat.zero_le _)
    simp only [Parse.Input.parseFrom]
    cases hr : (⟨g, tokens.toArray⟩ : Parse.Input α).invoke fuel id 0 none .initial with
    | panicked why =>
      rw [hr] at hSafe
      exact hSafe.elim
    | done a t | interrupted e a t | outOfFuel =>
      intro hPanic
      cases hPanic

/-! ## The end of the input passed over -/

namespace PassedOver

def types : List TokenType := [.literal "A" "a", .literal "B" "b", .literal "C" "c"]

def rules : List (RuleBody Unit) := [⟨"start", [.token 1, .token Vocabulary.eof, .token 3]⟩]

theorem isFaithful : ∀ r ∈ rules, r.IsFaithful := by
  intro r hr
  obtain rfl := List.mem_singleton.mp hr
  exact ⟨rfl, rfl⟩

/-- A token that recovery skips to come to the end of the input. -/
def tokens : List Token :=
  [⟨1, "a", ⟨0, 1⟩, none, none, false⟩, ⟨2, "b", ⟨1, 2⟩, none, none, false⟩]

def panic? (g : Grammar Unit) : Option Parse.Panic :=
  match g.parseWithin 100 "start" tokens with
  | .panicked why => some why
  | _ => none

end PassedOver

/-- Behind the end of the input there are no tokens to be skipped. -/
theorem parse_panics_behind_end : ∃ g,
    Grammar.compile (.ofTypes PassedOver.types) PassedOver.rules { recovery := true } = .ok g ∧
      (∀ r ∈ PassedOver.rules, r.IsFaithful) ∧
      (∀ t ∈ PassedOver.tokens, t.kind ≠ Vocabulary.eof) ∧
      g.parseWithin 100 "start" PassedOver.tokens = .panicked (.sliceOutOfRange 3 2) := by
  obtain ⟨g, hCompile, hChecked⟩ := Grammar.exists_compiled
    (v := .ofTypes PassedOver.types)
    (p := fun g => PassedOver.panic? g == some (.sliceOutOfRange 3 2))
    (by decide +kernel : (Grammar.compile (.ofTypes PassedOver.types) PassedOver.rules
      { recovery := true }).toOption.any _ = true)
  refine ⟨g, hCompile, PassedOver.isFaithful, by decide, ?_⟩
  unfold PassedOver.panic? at hChecked
  split at hChecked
  · next why hParse => rw [hParse, Option.some.inj (beq_iff_eq.mp hChecked)]
  · cases hChecked

end PredictiveParsing
