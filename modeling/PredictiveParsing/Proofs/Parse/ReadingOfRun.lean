import PredictiveParsing.Proofs.Parse.Reading

/-!
# Every run reads its productions

The induction on the bound of nested steps. Each operation is read by what its own production
expands to, so no decision matters here, only what is done after it.
-/

namespace PredictiveParsing.Parse

variable {α : Type}

def Input.furtherIterations (i : Input α) (loop : Input.Loop α) (rest : Continuation) :
    Continuation :=
  .again (i.grammar.shape loop.body) loop.separator :: rest

def Input.iterationAhead (i : Input α) (loop : Input.Loop α) (rest : Continuation) : Continuation :=
  .sequence (i.grammar.shape loop.body) :: i.furtherIterations loop rest

variable [Inhabited α] {i : Input α} {s : State}

structure ReadWithin (i : Input α) (fuel : Nat) : Prop where
  body : ∀ ops a s, Inside i s → Op.propagatesAll ops = true → (i.runBody fuel ops a s).Ends
    (ReadDone i (inSequence (i.grammar.shape ops)) (inSequence []) s)
    (ReadStopped i (inSequence (i.grammar.shape ops)) s)
  op : ∀ op a s, Inside i s → op.propagates = true → (i.runOp fuel op a s).Ends
    (ReadDone i (inSequence (i.grammar.shapeOf op)) (inSequence []) s)
    (ReadStopped i (inSequence (i.grammar.shapeOf op)) s)
  invoke : ∀ rule occurrence label s, Inside i s → (i.invoke fuel rule occurrence label s).Ends
    (ReadDone i (inSequence (definitionOf i.grammar.rules rule)) (inSequence []) s)
    (ReadStopped i (inSequence (definitionOf i.grammar.rules rule)) s)
  firstLoop : ∀ (loop : Input.Loop α) (occurrence : Nat) a s, Inside i s →
    Op.propagatesAll loop.body = true → (i.runLoop fuel loop true a s).Ends
      (ReadDone i (inSequence [.repetition loop.mandatory loop.separator
        (i.grammar.shape loop.body) occurrence]) (inSequence []) s)
      (ReadStopped i (inSequence [.repetition loop.mandatory loop.separator
        (i.grammar.shape loop.body) occurrence]) s)
  laterLoop : ∀ (loop : Input.Loop α) a s, Inside i s → Op.propagatesAll loop.body = true →
    (i.runLoop fuel loop false a s).Ends (ReadDone i (i.furtherIterations loop) id s)
      (ReadStopped i (i.furtherIterations loop) s)
  iteration : ∀ (loop : Input.Loop α) a s, Inside i s → Op.propagatesAll loop.body = true →
    (i.runIteration fuel loop a s).Ends (ReadDone i (i.iterationAhead loop) id s)
      (ReadStopped i (i.iterationAhead loop) s)

namespace ReadWithin

variable {fuel : Nat} (h : i.IsRegular) (ih : ReadWithin i fuel)

include ih in
theorem body_succ (ops : List (Op α)) (a : α) (s : State) (hs : Inside i s)
    (hOps : Op.propagatesAll ops = true) : (i.runBody (fuel + 1) ops a s).Ends
      (ReadDone i (inSequence (i.grammar.shape ops)) (inSequence []) s)
      (ReadStopped i (inSequence (i.grammar.shape ops)) s) := by
  cases ops with
  | nil =>
    apply Input.ends_runBody_nil
    rw [Grammar.shape_nil]
    exact .of_eq fun _ _ => .refl
  | cons op ops =>
    rw [Op.propagatesAll, Bool.and_eq_true] at hOps
    rw [Grammar.shape_cons]
    apply Input.ends_runBody_cons
    refine (((frame_runs i fuel).op op a s).and (ih.op op a s hs hOps.1)).mono ?_ ?_
    · rintro t ⟨hFrame, hRead⟩ b
      refine (((frame_runs i fuel).body ops b t).and
        (ih.body ops b t (hs.of_frame hFrame) hOps.2)).mono ?_ ?_
      · rintro u ⟨hFrame', hRead'⟩
        exact .sequence hFrame hFrame' hRead hRead'
      · rintro e u ⟨-, hStopped⟩
        exact .sequence_right hFrame hRead hStopped
    · rintro e t ⟨-, hStopped⟩
      exact hStopped.sequence_left _

include h ih in
theorem op_succ (op : Op α) (a : α) (s : State) (hs : Inside i s) (hOp : op.propagates = true) :
    (i.runOp (fuel + 1) op a s).Ends
      (ReadDone i (inSequence (i.grammar.shapeOf op)) (inSequence []) s)
      (ReadStopped i (inSequence (i.grammar.shapeOf op)) s) := by
  cases op with
  | consume occurrence token label act =>
    rw [Grammar.shapeOf_consume]
    exact Input.ends_consume (h.reads_consume s occurrence label)
  | subrule occurrence rule label act =>
    rw [Grammar.shapeOf_subrule]
    apply Input.ends_subrule
    intro id hId
    rw [hId]
    have hTarget := Grammar.lt_of_ruleNamed? hId
    exact (ih.invoke id occurrence label s hs).mono (fun _ => .nested (.reference hTarget))
      fun _ _ => .nested (.reference hTarget)
  | option occurrence body act =>
    rw [Grammar.shapeOf_option]
    apply Input.ends_option
    · intro _
      exact (ih.body body a s hs hOp).mono (fun _ => .nested .option) fun _ _ => .nested .option
    · intro _
      exact .omitted .noOption
  | repetition mandatory separator occurrence body act =>
    rw [Grammar.shapeOf_repetition]
    apply Input.ends_repetition
    exact ih.firstLoop ⟨_, mandatory, separator, body⟩ occurrence a s hs hOp
  | choice occurrence branches act =>
    rw [Op.propagates, Op.propagatesBranches_iff] at hOp
    rw [Grammar.shapeOf_choice]
    apply Input.ends_choice
    refine (askGates_state hs.tidy fuel _).mono ?_ fun _ _ => False.elim
    rintro t rfl
    refine ⟨fun branch hBranch b => ?_, readStopped_fails t⟩
    have hAlternative := i.grammar.mem_shapeOfBranches hBranch
    exact (ih.body branch.body b t hs (hOp branch hBranch)).mono
      (fun _ => .nested (.alternative _ hAlternative))
      fun _ _ => .nested (.alternative _ hAlternative)
  | peek distance act =>
    rw [Grammar.shapeOf_peek]
    exact Input.ends_peek (.of_eq fun _ _ => .refl)
  | trial rule act =>
    rw [Grammar.shapeOf_trial]
    apply Input.ends_trial
    refine (runTrial_state hs.tidy fuel rule).mono ?_ fun _ _ => False.elim
    rintro t rfl
    exact .of_eq fun _ _ => .refl
  | whenParsing body =>
    rw [Grammar.shapeOf_whenParsing]
    exact Input.ends_whenParsing (ih.body body a s hs hOp)
  | whenRecording body =>
    rw [Grammar.shapeOf_whenRecording]
    exact Input.ends_whenRecording (.of_eq fun _ _ => .refl)
  | attempt body act => cases hOp

omit [Inhabited α] in
/-- Inside another rule, only recovery ends an interrupted rule. -/
theorem reads_recoverRule {ι : Type} {before after : ι → Continuation} {rule : RuleId}
    {occurrence e : Nat} {label : Option String} {t : State} (hs : Inside i s)
    (hStopped : Stopped i (i.enter s rule occurrence) e t)
    (hRead : ReadStopped i before (i.enter s rule occurrence) e t) :
    if (i.recoverRule t e).2 then
      ReadDone i before after s (i.leave (i.recoverRule t e).1 rule label)
    else ReadStopped i before s e (i.leave (i.recoverRule t e).1 rule label) := by
  have hEnabled : i.recoveryEnabled t = i.recoveryEnabled s := hStopped.1.recoveryEnabled
  have hLt : s.errors.length < (i.leave (i.recoverRule t e).1 rule label).errors.length := by
    rw [errors_leave, errors_length_recoverRule]
    exact Nat.lt_of_le_of_lt hStopped.2.1 hStopped.2.2
  rcases i.recoverRule_cases t e with ⟨index, hOn, -, hRec⟩ | ⟨-, hCalls, -, -⟩ | ⟨-, hRec⟩
  · rw [hRec] at hLt ⊢
    exact .of_recovered (hEnabled.symm.trans hOn) hLt
  · have hInner : t.markRecovered.calls = ⟨rule, occurrence⟩ :: s.calls :=
      frame_markRecovered (i := i).calls.trans hStopped.1.calls
    rw [hInner, List.length_cons] at hCalls
    exact absurd (List.eq_nil_of_length_eq_zero (Nat.succ.inj hCalls)) hs.calls
  · rw [hRec, if_neg (by simp)]
    intro hOff
    obtain ⟨hIndex, ⟨error, hFound, hToken⟩, hReads⟩ := hRead hOff
    have hPosition : (i.leave t.markRecovered rule label).position = t.position := by
      rw [position_leave, State.markRecovered, position_updateNode]
    refine ⟨hIndex, ⟨error, ?_, ?_⟩, fun k => ?_⟩
    · rw [errors_leave, State.markRecovered, errors_updateNode]
      exact hFound
    · rw [hToken, Input.next_eq, Input.next_eq, hPosition]
    · rw [rest_congr hPosition]
      exact hReads k

include h ih in
theorem invoke_succ (rule : RuleId) (occurrence : Nat) (label : Option String) (s : State)
    (hs : Inside i s) : (i.invoke (fuel + 1) rule occurrence label s).Ends
      (ReadDone i (inSequence (definitionOf i.grammar.rules rule)) (inSequence []) s)
      (ReadStopped i (inSequence (definitionOf i.grammar.rules rule)) s) := by
  rw [h.faithful.definition]
  apply Input.ends_invoke
  refine (((frame_runs i fuel).body _ _ _).and (ih.body (i.grammar.body rule) default
    (i.enter s rule occurrence) (hs.tidy.inside_enter rule occurrence)
    (h.faithful.propagates rule))).mono ?_ ?_
  · rintro t ⟨-, hRead⟩
    refine ⟨fun hOff => (errors_leave _ _).trans (hRead.silent hOff), fun hSame k => ?_⟩
    rw [errors_leave] at hSame
    rw [rest_congr (position_leave _ _)]
    exact hRead.reads hSame k
  · rintro e t ⟨hStopped, hRead⟩
    exact reads_recoverRule hs hStopped hRead

include ih in
theorem iteration_succ (loop : Input.Loop α) (a : α) (s : State) (hs : Inside i s)
    (hBody : Op.propagatesAll loop.body = true) : (i.runIteration (fuel + 1) loop a s).Ends
      (ReadDone i (i.iterationAhead loop) id s) (ReadStopped i (i.iterationAhead loop) s) := by
  have goesOn : ∀ t, Frame i s t →
      ReadDone i (i.iterationAhead loop) (i.furtherIterations loop) s t →
      i.GoesOn fuel loop s.position (ReadDone i (i.iterationAhead loop) id s)
        (ReadStopped i (i.iterationAhead loop) s) t := by
    intro t hFrame hRead
    unfold Input.GoesOn
    split
    · exact .trans hFrame (.refl t) hRead (.of_eq fun _ _ => steps_expand .stop)
    · intro b
      refine (((frame_runs i fuel).loop loop false b t).and
        (ih.laterLoop loop b t (hs.of_frame hFrame) hBody)).mono ?_ ?_
      · rintro u ⟨hFrame', hRead'⟩
        exact .trans hFrame hFrame' hRead hRead'
      · rintro e u ⟨-, hStopped⟩
        exact .trans hFrame hRead hStopped
  have hNested : ∀ k xs, i.Steps (i.iterationAhead loop k, xs)
      (inSequence (i.grammar.shape loop.body) ([], i.furtherIterations loop k), xs) := by
    intro k xs
    rw [inSequence, List.append_nil]
    exact .refl
  apply Input.ends_runIteration
  refine (((frame_runs i fuel).body loop.body a s).and (ih.body loop.body a s hs hBody)).mono ?_ ?_
  · rintro t ⟨hFrame, hRead⟩
    exact goesOn t hFrame (hRead.extend _ hNested fun _ _ => steps_expand .nil)
  · rintro e t ⟨hStopped, hRead⟩
    have hResume := frame_preserved.resume hStopped loop.key (i.decisionAt? loop.key) loop.separator
    have hEnabled : i.recoveryEnabled t = i.recoveryEnabled s := hStopped.1.recoveryEnabled
    have hLt : s.errors.length < t.errors.length := Nat.lt_of_le_of_lt hStopped.2.1 hStopped.2.2
    rcases i.resumeRepetition_cases t loop.key (i.decisionAt? loop.key) loop.separator e with
      hRes | ⟨index, hOn, -, ⟨-, hRes⟩ | hRes⟩
    · rw [hRes]
      exact hRead.extend _ hNested
    · rw [hRes] at hResume ⊢
      refine goesOn _ hResume (.of_recovered (hEnabled.symm.trans hOn) ?_)
      simpa [State.resyncTo, State.addResynced] using hLt
    · rw [hRes]
      refine .of_recovered (hEnabled.symm.trans hOn) ?_
      simpa [State.resyncTo, State.addResynced] using hLt

include ih in
theorem firstLoop_succ (loop : Input.Loop α) (occurrence : Nat) (a : α) (s : State)
    (hs : Inside i s) (hBody : Op.propagatesAll loop.body = true) :
    (i.runLoop (fuel + 1) loop true a s).Ends
      (ReadDone i (inSequence [.repetition loop.mandatory loop.separator
        (i.grammar.shape loop.body) occurrence]) (inSequence []) s)
      (ReadStopped i (inSequence [.repetition loop.mandatory loop.separator
        (i.grammar.shape loop.body) occurrence]) s) := by
  have hIteration : ∀ k xs, i.Steps (inSequence [.repetition loop.mandatory loop.separator
      (i.grammar.shape loop.body) occurrence] k, xs)
      (i.iterationAhead loop (inSequence [] k), xs) :=
    fun k xs => steps_production .iteration
  apply Input.ends_runLoop_first
  · intro _
    exact (ih.iteration loop a s hs hBody).mono
      (fun t hRead => hRead.extend _ hIteration fun _ _ => .refl)
      fun e t hStopped => hStopped.extend _ hIteration
  · intro _ hOptional
    rw [hOptional]
    exact .omitted .noIteration
  · exact fun _ => readStopped_fails s

include h ih in
theorem laterLoop_succ (loop : Input.Loop α) (a : α) (s : State) (hs : Inside i s)
    (hBody : Op.propagatesAll loop.body = true) : (i.runLoop (fuel + 1) loop false a s).Ends
      (ReadDone i (i.furtherIterations loop) id s)
      (ReadStopped i (i.furtherIterations loop) s) := by
  apply Input.ends_runLoop_later
  · intro hContinues
    have hFrame := frame_consumeSeparator (i := i) (s := s) loop.separator
    have hSeparator : ReadDone i (i.furtherIterations loop) (i.iterationAhead loop) s
        (i.consumeSeparator s loop.separator) := by
      unfold Input.furtherIterations Input.iterationAhead Input.furtherIterations
      cases hSep : loop.separator with
      | none => exact .of_eq fun _ _ => steps_expand .another
      | some separator =>
        rw [hSep] at hContinues
        refine ⟨fun _ => errors_addToken _ _ _, fun _ k => ?_⟩
        exact (steps_expand .separated).trans
          (h.steps_token hContinues (position_addToken _ _ _))
    refine (((frame_runs i fuel).iteration loop a _).and
      (ih.iteration loop a _ (hs.of_frame hFrame) hBody)).mono ?_ ?_
    · rintro t ⟨hFrame', hRead⟩
      exact .trans hFrame hFrame' hSeparator hRead
    · rintro e t ⟨-, hStopped⟩
      exact .trans hFrame hSeparator hStopped
  · intro _
    have hFrame := frame_skipToNextIteration (i := i) (s := s) loop.key (i.decisionAt? loop.key)
      loop.separator
    rcases i.skipToNextIteration_cases s loop.key (i.decisionAt? loop.key) loop.separator with
      hSkip | ⟨exits, index, resumes, hOn, -, -, -, -, -, hSkip⟩
    · rw [hSkip, if_neg (by simp)]
      exact .of_eq fun _ _ => steps_expand .stop
    · have hSkipped : ∀ {after : Continuation → Continuation},
          ReadDone i (i.furtherIterations loop) after s
            (i.skipToNextIteration s loop.key (i.decisionAt? loop.key) loop.separator).1 := by
        intro after
        rw [hSkip]
        exact .of_recovered hOn (by simp [State.resyncTo, State.addResynced, Input.recordError])
      split
      · refine (((frame_runs i fuel).loop loop false a _).and
          (ih.laterLoop loop a _ (hs.of_frame hFrame) hBody)).mono ?_ ?_
        · rintro t ⟨hFrame', hRead⟩
          exact .trans hFrame hFrame' hSkipped hRead
        · rintro e t ⟨-, hStopped⟩
          exact .trans hFrame hSkipped hStopped
      · exact hSkipped

end ReadWithin

theorem Input.IsRegular.readWithin (h : i.IsRegular) (fuel : Nat) : ReadWithin i fuel := by
  induction fuel with
  | zero =>
    refine ⟨?_, ?_, ?_, ?_, ?_, ?_⟩ <;> intros
    · rw [Input.runBody]; trivial
    · rw [Input.runOp]; trivial
    · rw [Input.invoke]; trivial
    · rw [Input.runLoop]; trivial
    · rw [Input.runLoop]; trivial
    · rw [Input.runIteration]; trivial
  | succ fuel ih =>
    exact ⟨ih.body_succ, ih.op_succ h, ih.invoke_succ h, ih.firstLoop_succ, ih.laterLoop_succ h,
      ih.iteration_succ⟩

end PredictiveParsing.Parse
