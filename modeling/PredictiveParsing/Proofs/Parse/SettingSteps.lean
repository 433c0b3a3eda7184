import PredictiveParsing.Proofs.Parse.Bound
import PredictiveParsing.Proofs.Parse.Reading

/-!
# Steps under other settings

What a parse does next depends on the place it has reached, on the rules it is in, and on whether it
recovers from errors. It depends neither on the tree nor on how many trials are under way, except
that the outermost rule, outside of all trials, ends a parse without recovery. States that agree in
the former take the same steps, whatever the settings are.
-/

namespace PredictiveParsing.Parse

variable {α : Type}

/-- The same input under other settings. The analysis stays as it is. -/
def Input.withConfig (i : Input α) (config : ParserConfig) : Input α :=
  { i with grammar := { i.grammar with config } }

section Setting

variable (i : Input α) (config : ParserConfig)

@[simp] theorem tokens_withConfig : (i.withConfig config).tokens = i.tokens := rfl

@[simp] theorem analysis_withConfig :
    (i.withConfig config).grammar.analysis = i.grammar.analysis := rfl

@[simp] theorem kindAt_withConfig (index : Nat) :
    (i.withConfig config).kindAt index = i.kindAt index := rfl

@[simp] theorem isMatch_withConfig (actual expected : TypeId) :
    (i.withConfig config).isMatch actual expected = i.isMatch actual expected := rfl

@[simp] theorem slice_withConfig (start stop : Nat) :
    (i.withConfig config).slice start stop = i.slice start stop := rfl

end Setting

/-- States that a parse goes on from in the same way, from the second one under other settings. They
may differ in whether trials are under way as long as more than `depth` rules are being parsed. -/
structure Alike (i : Input α) (config : ParserConfig) (depth : Nat) (s u : State) : Prop where
  position : u.position = s.position
  errors : u.errors = s.errors
  calls : u.calls = s.calls
  terminated : u.terminated = s.terminated
  recovery : (i.withConfig config).recoveryEnabled u = i.recoveryEnabled s
  outermost : s.calls.length ≤ depth → (u.trials = 0 ↔ s.trials = 0)

theorem State.exists_updateNode_eq (s : State) (f : Node → Node) :
    ∃ nodes, s.updateNode f = { s with openNodes := nodes } := by
  unfold State.updateNode
  split
  · exact ⟨s.openNodes, rfl⟩
  · exact ⟨_, rfl⟩

theorem State.updateNode_id (s : State) : s.updateNode id = s := by
  unfold State.updateNode
  split
  · rfl
  · next n rest hNodes => rw [id, ← hNodes]

namespace Alike

variable {i : Input α} {config : ParserConfig} {depth : Nat} {s t u v : State}
  (h : Alike i config depth s u)

include h

/-! ## Reading -/

theorem ahead (distance : Nat) : (i.withConfig config).ahead u distance = i.ahead s distance := by
  rw [Input.ahead, Input.ahead, h.position]
  rfl

theorem next : (i.withConfig config).next u = i.next s := h.ahead 1

theorem coming : (i.withConfig config).coming u = i.coming s := by
  funext distance
  rw [Input.coming, Input.coming, h.position]
  rfl

theorem enters (decision : Option Decision) :
    (i.withConfig config).enters u decision = i.enters s decision := by
  rw [Input.enters.eq_def, Input.enters.eq_def, h.coming]
  rfl

theorem continues (decision : Option Decision) (separator : Option TypeId) :
    (i.withConfig config).continues u decision separator = i.continues s decision separator := by
  cases separator with
  | none => exact h.enters decision
  | some separator =>
    rw [Input.continues, Input.continues, h.position]
    rfl

theorem currentRule : u.currentRule = s.currentRule := by
  rw [State.currentRule, State.currentRule, h.calls]

theorem key (kind : ProductionKind) (occurrence : Nat) :
    u.key kind occurrence = s.key kind occurrence := by
  rw [State.key, State.key, h.currentRule]

theorem chooseBranch (key : DecisionKey) (count : Nat) (enabled : Option (List Bool)) :
    (i.withConfig config).chooseBranch u key count enabled = i.chooseBranch s key count enabled := by
  rw [Input.chooseBranch, Input.chooseBranch, h.coming]
  rfl

theorem followsAny (kind : TypeId) :
    (i.withConfig config).followsAny kind u.calls = i.followsAny kind s.calls := by
  rw [h.calls]
  induction s.calls with
  | nil => rfl
  | cons call calls ih =>
    rw [Input.followsAny, Input.followsAny, ih]
    rfl

theorem inCurrentFollow (kind : TypeId) :
    (i.withConfig config).inCurrentFollow u kind = i.inCurrentFollow s kind := by
  rw [Input.inCurrentFollow, Input.inCurrentFollow, h.calls]
  rfl

theorem inEnclosingFollows (kind : TypeId) :
    (i.withConfig config).inEnclosingFollows u kind = i.inEnclosingFollows s kind := by
  rw [Input.inEnclosingFollows, Input.inEnclosingFollows, h.followsAny]

theorem resyncPlace? (fuel index : Nat) :
    (i.withConfig config).resyncPlace? u fuel index = i.resyncPlace? s fuel index := by
  induction fuel generalizing index with
  | zero => rfl
  | succ fuel ih =>
    simp only [Input.resyncPlace?, h.inCurrentFollow, h.inEnclosingFollows, ih]
    rfl

theorem overrun? : (i.withConfig config).overrun? u = i.overrun? s := by
  rw [Input.overrun?, Input.overrun?, h.recovery, h.position, h.resyncPlace?]
  rfl

/-! ## Steps -/

theorem at_place (n : Nat) : Alike i config depth { s with position := n } { u with position := n } :=
  ⟨rfl, h.errors, h.calls, h.terminated, h.recovery, h.outermost⟩

theorem resumePlace? (exits : Option TokenSet) (decision : Option Decision)
    (separator : Option TypeId) (fuel index : Nat) :
    (i.withConfig config).resumePlace? u exits decision separator fuel index =
      i.resumePlace? s exits decision separator fuel index := by
  induction fuel generalizing index with
  | zero => rfl
  | succ fuel ih =>
    simp only [Input.resumePlace?, (h.at_place index).continues, h.position, h.inEnclosingFollows,
      ih]
    rfl

theorem skipPlace? (exits : TokenSet) (decision : Option Decision) (separator : Option TypeId)
    (fuel index : Nat) : (i.withConfig config).skipPlace? u exits decision separator fuel index =
      i.skipPlace? s exits decision separator fuel index := by
  induction fuel generalizing index with
  | zero => rfl
  | succ fuel ih =>
    simp only [Input.skipPlace?, (h.at_place index).continues, h.inEnclosingFollows, ih]
    rfl

theorem updateNode (f g : Node → Node) : Alike i config depth (s.updateNode f) (u.updateNode g) := by
  obtain ⟨nodes, hs⟩ := s.exists_updateNode_eq f
  obtain ⟨nodes', hu⟩ := u.exists_updateNode_eq g
  rw [hs, hu]
  exact ⟨h.position, h.errors, h.calls, h.terminated, h.recovery, h.outermost⟩

theorem markRecovered : Alike i config depth s.markRecovered u.markRecovered := h.updateNode _ _

theorem addToken (label : Option String) (expected : TypeId) (x : Token) :
    Alike i config depth (i.addToken s label expected x)
      ((i.withConfig config).addToken u label expected x) := by
  -- Only one of the two may build a tree.
  have hUpdated : ∀ (j : Input α) (s : State), ∃ f, j.addToken s label expected x = s.updateNode f := by
    intro j s
    unfold Input.addToken
    split
    · exact ⟨_, rfl⟩
    · exact ⟨id, s.updateNode_id.symm⟩
  obtain ⟨f, hs⟩ := hUpdated i s
  obtain ⟨g, hu⟩ := hUpdated (i.withConfig config) u
  rw [hs, hu]
  exact h.updateNode f g

theorem consumeSeparator (separator : Option TypeId) :
    Alike i config depth (i.consumeSeparator s separator)
      ((i.withConfig config).consumeSeparator u separator) := by
  cases separator with
  | none => exact h
  | some separator =>
    rw [Input.consumeSeparator, Input.consumeSeparator, h.next, h.position]
    exact (h.at_place (s.position + 1)).addToken none separator (i.next s)

theorem recordError (cause : RecognitionCause) :
    Alike i config depth (i.recordError s cause).1 ((i.withConfig config).recordError u cause).1 ∧
      ((i.withConfig config).recordError u cause).2 = (i.recordError s cause).2 := by
  refine ⟨⟨h.position, ?_, h.calls, h.terminated, h.recovery, h.outermost⟩, ?_⟩
  · simp only [Input.recordError, h.next, h.errors, h.position, h.calls]
    rfl
  · exact congrArg List.length h.errors

theorem addResynced (error : Nat) (skipped : List Token) :
    Alike i config depth (s.addResynced error skipped) (u.addResynced error skipped) := by
  refine ⟨h.position, ?_, h.calls, h.terminated, h.recovery, h.outermost⟩
  rw [State.addResynced, State.addResynced, h.errors]

theorem resync (error index : Nat) : Alike i config depth
    { s.addResynced error (i.slice s.position index) with position := index }
    { u.addResynced error (i.slice s.position index) with position := index } :=
  (h.addResynced error (i.slice s.position index)).at_place index

theorem skipToNextIteration (key : DecisionKey) (decision : Option Decision)
    (separator : Option TypeId) :
    Alike i config depth (i.skipToNextIteration s key decision separator).1
      ((i.withConfig config).skipToNextIteration u key decision separator).1 ∧
    ((i.withConfig config).skipToNextIteration u key decision separator).2 =
      (i.skipToNextIteration s key decision separator).2 := by
  simp only [Input.skipToNextIteration, analysis_withConfig, kindAt_withConfig, slice_withConfig,
    tokens_withConfig, h.position, h.recovery, h.inEnclosingFollows, h.skipPlace?]
  cases i.grammar.analysis.repetitionExits.lookup key with
  | none => exact ⟨h, rfl⟩
  | some exits =>
    simp only
    split
    · exact ⟨h, rfl⟩
    · cases i.skipPlace? s exits decision separator (i.tokens.size + 1) (s.position + 1) with
      | none => exact ⟨h, rfl⟩
      | some found =>
        obtain ⟨hRecord, hIndex⟩ := h.recordError (.brokenRepetition key.kind key.occurrence exits)
        simp only [hIndex]
        exact ⟨(hRecord.addResynced _ _).at_place found.1, trivial⟩

theorem enter (rule : RuleId) (occurrence : Nat) : Alike i config (depth + 1)
    (i.enter s rule occurrence) ((i.withConfig config).enter u rule occurrence) where
  position := h.position
  errors := h.errors
  calls := congrArg (List.cons _) h.calls
  terminated := h.terminated
  recovery := h.recovery
  outermost hDepth := h.outermost (Nat.le_of_succ_le_succ hDepth)

theorem beginTrial :
    Alike i config depth (i.beginTrial s) ((i.withConfig config).beginTrial u) where
  position := h.position
  errors := h.errors
  calls := h.calls
  terminated := h.terminated
  recovery := by simp [Input.recoveryEnabled, Input.beginTrial]
  outermost _ := by simp [Input.beginTrial]

theorem endTrial (hFrame : Frame i (i.beginTrial s) t)
    (hFrame' : Frame (i.withConfig config) ((i.withConfig config).beginTrial u) v)
    (hEnd : Alike i config depth t v) :
    Alike i config depth (t.endTrial s.mark) (v.endTrial u.mark) := by
  have hLeft := frame_endTrial hFrame
  have hRight := frame_endTrial hFrame'
  constructor
  · exact h.position
  · change v.errors.take u.errors.length = t.errors.take s.errors.length
    rw [h.errors, hEnd.errors]
  · rw [hLeft.calls, hRight.calls, h.calls]
  · exact hEnd.terminated
  · rw [hLeft.recoveryEnabled, hRight.recoveryEnabled, h.recovery]
  · rw [hLeft.calls, hLeft.trials, hRight.trials]
    exact h.outermost

omit h in
theorem leave (h : Alike i config (depth + 1) t v) (rule : RuleId) (label : Option String) :
    Alike i config depth (i.leave t rule label) ((i.withConfig config).leave v rule label) := by
  constructor
  · rw [position_leave, position_leave, h.position]
  · rw [errors_leave, errors_leave, h.errors]
  · rw [calls_leave, calls_leave, h.calls]
  · rw [terminated_leave, terminated_leave, h.terminated]
  · rw [recoveryEnabled_congr (trials_leave rule label),
      recoveryEnabled_congr (trials_leave rule label), h.recovery]
  · rw [calls_leave, trials_leave, trials_leave, List.length_tail]
    exact fun hDepth => h.outermost (by omega)

omit h in
theorem recoverRule (h : Alike i config (depth + 1) t v) (error : Nat) :
    Alike i config (depth + 1) (i.recoverRule t error).1
        ((i.withConfig config).recoverRule v error).1 ∧
      ((i.withConfig config).recoverRule v error).2 = (i.recoverRule t error).2 := by
  have hMark := h.markRecovered
  simp only [Input.recoverRule, slice_withConfig, tokens_withConfig, hMark.recovery,
    hMark.resyncPlace?, hMark.position, hMark.calls]
  cases if i.recoveryEnabled t.markRecovered then
      i.resyncPlace? t.markRecovered (i.tokens.size + 1) t.markRecovered.position else none with
  | some index => exact ⟨hMark.resync error index, rfl⟩
  | none =>
    have hLast : (!i.recoveryEnabled t.markRecovered && t.markRecovered.calls.length == 1 &&
        v.markRecovered.trials == 0) = (!i.recoveryEnabled t.markRecovered &&
          t.markRecovered.calls.length == 1 && t.markRecovered.trials == 0) := by
      rw [Bool.eq_iff_iff]
      simp only [Bool.and_eq_true, beq_iff_eq]
      refine and_congr_right fun hOne => hMark.outermost ?_
      omega
    simp only [hLast]
    split
    · exact ⟨⟨rfl, hMark.errors, rfl, rfl, hMark.recovery, hMark.outermost⟩, rfl⟩
    · exact ⟨hMark, rfl⟩

end Alike

/-! ## Recovery -/

namespace Alike

variable {i : Input α} {config : ParserConfig} {depth : Nat} {s u : State}
  (h : Alike i config depth s u)

include h

theorem resumeRepetition (key : DecisionKey) (decision : Option Decision)
    (separator : Option TypeId) (error : Nat) :
    (i.resumeRepetition s key decision separator error).Paired (Alike i config depth)
      ((i.withConfig config).resumeRepetition u key decision separator error) := by
  simp only [Input.resumeRepetition, analysis_withConfig, slice_withConfig, tokens_withConfig,
    h.recovery, h.position, h.resumePlace?]
  cases i.recoveryEnabled s with
  | false => exact .failed h
  | true =>
    simp only [if_true]
    cases i.resumePlace? s (i.grammar.analysis.repetitionExits.lookup key) decision separator
        (i.tokens.size + 1) s.position with
    | none => exact .failed h
    | some found =>
      obtain ⟨index, resumes⟩ := found
      cases resumes with
      | true => exact .again (h.resync error index)
      | false => exact .exit (h.resync error index)

theorem recoverToken? (expected : TypeId) (occurrence error : Nat) :
    Option.Rel (fun found found' => found'.1 = found.1 ∧ Alike i config depth found.2 found'.2)
      (i.recoverToken? s expected occurrence error)
      ((i.withConfig config).recoverToken? u expected occurrence error) := by
  have hSkip := (h.addResynced error [i.next s]).at_place (s.position + 1)
  simp only [Input.recoverToken?, analysis_withConfig, kindAt_withConfig, isMatch_withConfig,
    h.next, h.currentRule, h.position, hSkip.next]
  split
  · exact .some ⟨rfl, h⟩
  · split
    · exact .some ⟨rfl, hSkip.at_place (s.position + 2)⟩
    · exact .none

theorem consume (occurrence : Nat) (expected : TypeId) (label : Option String) :
    (i.consume s occurrence expected label).Paired True (Alike i config depth)
      ((i.withConfig config).consume u occurrence expected label) := by
  obtain ⟨hFailed, hIndex⟩ := h.recordError (.mismatchedToken expected)
  simp only [Input.consume, isMatch_withConfig, h.next, h.position, hIndex, hFailed.recovery]
  split
  · split
    · exact .done (h.addToken label expected (i.next s))
    · exact .done ((h.at_place (s.position + 1)).addToken label expected (i.next s))
  · have hRecover := hFailed.recoverToken? expected occurrence
      (i.recordError s (.mismatchedToken expected)).2
    cases i.recoveryEnabled (i.recordError s (.mismatchedToken expected)).1 with
    | false => exact .interrupted hFailed
    | true =>
      simp only [if_true]
      generalize i.recoverToken? _ expected occurrence _ = found at hRecover ⊢
      generalize (i.withConfig config).recoverToken? _ expected occurrence _ = found' at hRecover ⊢
      cases hRecover with
      | none => exact .interrupted hFailed
      | @some found found' hFound =>
        obtain ⟨x, t⟩ := found
        obtain ⟨x', v⟩ := found'
        obtain ⟨rfl, hState⟩ : x' = x ∧ Alike i config depth t v := hFound
        exact .done (hState.markRecovered.addToken label expected x')

end Alike

theorem similar_withConfig (i : Input α) (config : ParserConfig) :
    Similar id i (i.withConfig config) (Alike i config) where
  tokens := rfl
  ruleNamed? _ := (congrFun Option.map_id _).symm
  body _ := rfl
  decisionAt? _ := rfl
  position h := h.position
  errors h := congrArg List.length h.errors
  ahead h := funext h.ahead
  enters h := h.enters
  continues h := h.continues
  chooseBranch h := h.chooseBranch
  key h := h.key
  overrun? h := h.overrun?
  consume h := h.consume
  recordError h cause := (h.recordError cause).1
  consumeSeparator h := h.consumeSeparator
  skipToNextIteration h := h.skipToNextIteration
  resumeRepetition h := h.resumeRepetition
  enter h := h.enter
  recoverRule h := h.recoverRule
  leave h := h.leave
  beginTrial h := h.beginTrial
  endTrial h := h.endTrial

end PredictiveParsing.Parse
