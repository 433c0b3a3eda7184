import PredictiveParsing.Proofs.Parse.Reading

/-!
# Invariants of runs inside rules

Inside a rule every run keeps its frame and trials leave nothing behind. A relation between the
states around a run has to be shown for the other steps only, and the frame can be used for it.
-/

namespace PredictiveParsing.Parse

variable {α : Type}

/-- A relation for runs from states with a property that frames keep. Each field is a step that
changes the state. -/
structure KeptInside (i : Input α) (here : State → Prop) (done : State → State → Prop)
    (stopped : State → Nat → State → Prop) : Prop where
  inside : ∀ {s}, here s → Inside i s
  frame : ∀ {s t}, here s → Frame i s t → here t
  enter : ∀ {s}, here s → ∀ rule occurrence, here (i.enter s rule occurrence)
  beginTrial : ∀ {s}, here s → here (i.beginTrial s)
  refl : ∀ s, done s s
  trans : ∀ {s t u}, Frame i s t → Frame i t u → done s t → done t u → done s u
  trans_stopped : ∀ {s t e u}, Frame i s t → Stopped i t e u → done s t → stopped t e u →
    stopped s e u
  attempt : ∀ {s e t}, stopped s e t → done s t
  consume : ∀ {s}, here s → ∀ occurrence expected label,
    (i.consume s occurrence expected label).Ends (done s) (stopped s)
  fails : ∀ s, i.Fails s (stopped s)
  separator : ∀ {s}, here s → ∀ token, i.isMatch (i.kindAt s.position) token = true →
    done s (i.consumeSeparator s (some token))
  markRecovered : ∀ {s e t}, stopped s e t → stopped s e t.markRecovered
  /-- Skipping tokens for the error that interrupted a run. -/
  resync : ∀ {s e t}, here s → Stopped i s e t → stopped s e t → i.recoveryEnabled t = true →
    ∀ index, t.position ≤ index → done s (t.resyncTo i e index)
  leave : ∀ {s t}, here s → ∀ {rule occurrence}, Frame i (i.enter s rule occurrence) t →
    done (i.enter s rule occurrence) t → ∀ label, done s (i.leave t rule label)
  leave_stopped : ∀ {s e t}, here s → ∀ {rule occurrence},
    Stopped i (i.enter s rule occurrence) e t → stopped (i.enter s rule occurrence) e t →
    ∀ label, stopped s e (i.leave t rule label)

variable {i : Input α} {here : State → Prop} {done : State → State → Prop}
  {stopped : State → Nat → State → Prop} {s t : State}

theorem frame_recordError_resyncTo (hOn : i.recoveryEnabled s = true) (cause : RecognitionCause)
    (index : Nat) :
    Frame i s (State.resyncTo (i.recordError s cause).1 i s.errors.length index) := by
  have hRecord := frame_recordError (i := i) (s := s) cause
  exact hRecord.trans (frame_resyncTo (hRecord.recoveryEnabled.trans hOn) _ _)

theorem stopped_recordError (s : State) (cause : RecognitionCause) :
    Stopped i s s.errors.length (i.recordError s cause).1 :=
  ⟨frame_recordError cause, Nat.le_refl _, by simp [Input.recordError]⟩

theorem Stopped.markRecovered {e : Nat} (h : Stopped i s e t) : Stopped i s e t.markRecovered :=
  ⟨h.1.trans frame_markRecovered, h.2.1,
    Nat.lt_of_lt_of_le h.2.2 (frame_markRecovered (i := i)).errors_length_le⟩

theorem Inside.not_outermost (h : Inside i s) {rule : RuleId} {occurrence : Nat}
    (hFrame : Frame i (i.enter s rule occurrence) t) : t.calls.length ≠ 1 := by
  intro hOne
  rw [hFrame.calls] at hOne
  exact h.calls (List.eq_nil_of_length_eq_zero (Nat.succ.inj hOne))

theorem Inside.recoverRule_unaided (h : Inside i s) {rule : RuleId} {occurrence : Nat}
    (hFrame : Frame i (i.enter s rule occurrence) t) (hOff : i.recoveryEnabled t = false)
    (error : Nat) : i.recoverRule t error = (t.markRecovered, false) := by
  rcases i.recoverRule_cases t error with ⟨_, hOn, -⟩ | ⟨-, hCalls, -⟩ | ⟨-, hRec⟩
  · exact absurd (hOff.symm.trans hOn) Bool.false_ne_true
  · exact absurd hCalls (h.not_outermost (hFrame.trans (frame_markRecovered (i := i))))
  · exact hRec

theorem recoverRule_start {rule : RuleId} {occurrence : Nat}
    (hFrame : Frame i (i.enter .initial rule occurrence) t) (hOff : i.recoveryEnabled t = false)
    (error : Nat) : i.recoverRule t error = ({ t.markRecovered with terminated := true }, true) := by
  have hMark := hFrame.trans (frame_markRecovered (i := i))
  have hCalls : t.markRecovered.calls = [⟨rule, occurrence⟩] := hMark.calls
  have hTrials : t.markRecovered.trials = 0 := hMark.trials
  have hStill := Input.recoveryEnabled_markRecovered.trans hOff
  simp [Input.recoverRule, hStill, hCalls, hTrials]

namespace KeptInside

variable (h : KeptInside i here done stopped)

include h

theorem skip (hs : here s) (key : DecisionKey) (decision : Option Decision)
    (separator : Option TypeId) :
    done s (i.skipToNextIteration s key decision separator).1 := by
  rcases i.skipToNextIteration_cases s key decision separator with hSkip |
    ⟨exits, index, resumes, hOn, -, -, -, -, hLt, hSkip⟩
  · rw [hSkip]
    exact h.refl s
  · rw [hSkip]
    exact h.resync hs (stopped_recordError s _) (h.fails s _) hOn index (Nat.le_of_lt hLt)

theorem resume {e : Nat} (hs : here s) (hStopped : Stopped i s e t) (ht : stopped s e t)
    (key : DecisionKey) (decision : Option Decision) (separator : Option TypeId) :
    match i.resumeRepetition t key decision separator e with
    | .again u => done s u
    | .exit u => done s u
    | .failed u => stopped s e u := by
  rcases i.resumeRepetition_cases t key decision separator e with hRes |
    ⟨index, hOn, hLe, ⟨-, hRes⟩ | hRes⟩
  · rw [hRes]
    exact ht
  · rw [hRes]
    exact h.resync hs hStopped ht hOn index hLe
  · rw [hRes]
    exact h.resync hs hStopped ht hOn index hLe

theorem recover {rule : RuleId} {occurrence e : Nat} (hs : here s)
    (hStopped : Stopped i (i.enter s rule occurrence) e t)
    (ht : stopped (i.enter s rule occurrence) e t) (label : Option String) :
    if (i.recoverRule t e).2 then done s (i.leave (i.recoverRule t e).1 rule label)
    else stopped s e (i.leave (i.recoverRule t e).1 rule label) := by
  have hMark := hStopped.markRecovered
  have hDone := h.markRecovered ht
  rcases i.recoverRule_cases t e with ⟨index, hOn, hPlace, hRec⟩ | ⟨-, hCalls, -, -⟩ | ⟨-, hRec⟩
  · rw [← Input.recoveryEnabled_markRecovered] at hOn
    rw [hRec, if_pos rfl]
    refine h.leave hs (hMark.1.trans (frame_resyncTo hOn e index)) ?_ label
    exact h.resync (h.enter hs rule occurrence) hMark hDone hOn index
      (Input.le_of_resyncPlace? hPlace)
  · exact absurd hCalls ((h.inside hs).not_outermost hMark.1)
  · rw [hRec, if_neg (by simp)]
    exact h.leave_stopped hs hMark hDone label

theorem preserved : Preserved i (fun s t => here s → Frame i s t ∧ done s t)
    (fun s e t => here s → Stopped i s e t ∧ stopped s e t) where
  refl s _ := ⟨.refl s, h.refl s⟩
  trans hst htu hs := by
    obtain ⟨hFrame, hDone⟩ := hst hs
    obtain ⟨hFrame', hDone'⟩ := htu (h.frame hs hFrame)
    exact ⟨hFrame.trans hFrame', h.trans hFrame hFrame' hDone hDone'⟩
  trans_stopped hst htu hs := by
    obtain ⟨hFrame, hDone⟩ := hst hs
    obtain ⟨hStopped, hDone'⟩ := htu (h.frame hs hFrame)
    exact ⟨frame_preserved.trans_stopped hFrame hStopped,
      h.trans_stopped hFrame hStopped hDone hDone'⟩
  attempt hst hs := ⟨(hst hs).1.1, h.attempt (hst hs).2⟩
  consume s occurrence expected label := by
    have hFrame := frame_consume (i := i) s occurrence expected label
    have hConsume := fun hs : here s => h.consume hs occurrence expected label
    cases hr : i.consume s occurrence expected label with
    | done x t =>
      rw [hr] at hFrame hConsume
      exact fun hs => ⟨hFrame, hConsume hs⟩
    | interrupted e x t =>
      rw [hr] at hFrame hConsume
      exact fun hs => ⟨hFrame, hConsume hs⟩
    | panicked why => trivial
    | outOfFuel => trivial
  fails s cause _ := ⟨stopped_recordError s cause, h.fails s cause⟩
  separator s decision separator hContinues hs := by
    refine ⟨frame_consumeSeparator separator, ?_⟩
    cases separator with
    | none => exact h.refl s
    | some token => exact h.separator hs token hContinues
  skip s key decision separator hs :=
    ⟨frame_skipToNextIteration key decision separator, h.skip hs key decision separator⟩
  resume := by
    intro s e t hst key decision separator
    cases hRes : i.resumeRepetition t key decision separator e with
    | again u | exit u | failed u =>
      intro hs
      obtain ⟨hStopped, ht⟩ := hst hs
      have hFrame := frame_preserved.resume hStopped key decision separator
      have hDone := h.resume hs hStopped ht key decision separator
      rw [hRes] at hFrame hDone
      exact ⟨hFrame, hDone⟩
  leave := by
    intro s rule occurrence t hst label hs
    obtain ⟨hFrame, hDone⟩ := hst (h.enter hs rule occurrence)
    exact ⟨hFrame.leave, h.leave hs hFrame hDone label⟩
  recover := by
    intro s rule occurrence e t hst label
    split
    · next hRecovered =>
      intro hs
      obtain ⟨hStopped, ht⟩ := hst (h.enter hs rule occurrence)
      have hFrame := frame_recover label hStopped
      have hDone := h.recover hs hStopped ht label
      rw [if_pos hRecovered] at hFrame hDone
      exact ⟨hFrame, hDone⟩
    · next hRecovered =>
      intro hs
      obtain ⟨hStopped, ht⟩ := hst (h.enter hs rule occurrence)
      have hFrame := frame_recover label hStopped
      have hDone := h.recover hs hStopped ht label
      rw [if_neg hRecovered] at hFrame hDone
      exact ⟨hFrame, hDone⟩
  trial := by
    intro s t hst hs
    rw [endTrial_eq_self (h.inside hs).tidy (hst (h.beginTrial hs)).1]
    exact ⟨.refl s, h.refl s⟩

end KeptInside

end PredictiveParsing.Parse
