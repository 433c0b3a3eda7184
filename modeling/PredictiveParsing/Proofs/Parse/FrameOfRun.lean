import PredictiveParsing.Proofs.Parse.Frame
import PredictiveParsing.Proofs.Parse.Invariant

/-!
# The frame of every run

Every step keeps its frame, and so does every run. Behind a trial the state is the one in front of
it, so gates are asked without a trace.
-/

namespace PredictiveParsing.Parse

variable {α : Type} {i : Input α} {s t : State}

def Tidy (i : Input α) (s : State) : Prop := i.grammar.config.outputTree = false → s.openNodes = []

theorem tidy_initial : Tidy i .initial := fun _ => rfl

theorem Tidy.enter (h : Tidy i s) (rule : RuleId) (occurrence : Nat) :
    Tidy i (i.enter s rule occurrence) := by
  intro hTree
  simp [Input.enter, hTree, h hTree]

theorem Tidy.beginTrial (h : Tidy i s) : Tidy i (i.beginTrial s) := by
  intro hTree
  simp [Input.beginTrial, hTree, h hTree]

theorem Tidy.of_frame (h : Tidy i s) (hFrame : Frame i s t) : Tidy i t := by
  intro hTree
  have hDepth := hFrame.depth
  rw [h hTree, List.length_nil] at hDepth
  exact List.eq_nil_of_length_eq_zero hDepth

theorem keepOutermost_length {β : Type} {stack outer : List β} (h : stack = outer) :
    State.keepOutermost outer.length stack = outer := by
  subst h
  simp [State.keepOutermost]

theorem recoveryEnabled_beginTrial (i : Input α) (s : State) :
    i.recoveryEnabled (i.beginTrial s) = false := by
  simp [Input.recoveryEnabled, Input.beginTrial]

/-- A trial gives back all but the innermost node, and that one too if there are trees. -/
theorem endTrial_eq (h : Frame i (i.beginTrial s) t) :
    t.endTrial s.mark = { s with openNodes := (t.endTrial s.mark).openNodes } := by
  have hOff : i.recoveryEnabled (i.beginTrial s) = false := recoveryEnabled_beginTrial i s
  have hInside : (i.beginTrial s).trials ≠ 0 := Nat.succ_ne_zero s.trials
  have hErrors : t.errors.take s.errors.length = s.errors :=
    (List.prefix_iff_eq_take.mp (h.exact hOff)).symm
  have hCalls : State.keepOutermost s.calls.length t.calls = s.calls :=
    keepOutermost_length h.calls
  have hTrials : t.trials - 1 = s.trials := by
    rw [h.trials]
    rfl
  have hRoot : t.root = s.root := by
    refine h.root ?_
    cases hTree : i.grammar.config.outputTree with
    | false => exact .inl rfl
    | true => exact .inr (by simp [Input.beginTrial, hTree])
  have hEnd : t.terminated = s.terminated := h.terminated (.inl hInside)
  simp only [State.endTrial, State.restore, State.mark, hErrors, hCalls, hTrials, hRoot, hEnd]

theorem openNodes_endTrial (hTree : i.grammar.config.outputTree = true)
    (h : Frame i (i.beginTrial s) t) : (t.endTrial s.mark).openNodes = s.openNodes := by
  have hDepth := h.depth
  have hOuter := h.outer
  simp only [Input.beginTrial, hTree, if_true, List.length_cons, List.tail_cons] at hDepth hOuter
  simp only [State.endTrial, State.restore, State.mark, State.keepOutermost, hDepth]
  rw [show s.openNodes.length + 1 - s.openNodes.length = 1 by omega, List.drop_one, hOuter]

theorem endTrial_eq_self (hTidy : Tidy i s) (h : Frame i (i.beginTrial s) t) :
    t.endTrial s.mark = s := by
  have hNodes : (t.endTrial s.mark).openNodes = s.openNodes := by
    cases hTree : i.grammar.config.outputTree with
    | true => exact openNodes_endTrial hTree h
    | false =>
      have hNone := hTidy.beginTrial.of_frame h hTree
      simp [State.endTrial, State.restore, State.keepOutermost, hNone, hTidy hTree]
  rw [endTrial_eq h, hNodes]

theorem frame_endTrial (h : Frame i (i.beginTrial s) t) : Frame i s (t.endTrial s.mark) := by
  have hDepth : (t.endTrial s.mark).openNodes.length = s.openNodes.length ∧
      (t.endTrial s.mark).openNodes.tail = s.openNodes.tail := by
    cases hTree : i.grammar.config.outputTree with
    | true => simp only [openNodes_endTrial hTree h, and_self]
    | false =>
      have hLength := h.depth
      have hOuter := h.outer
      simp only [Input.beginTrial, hTree, Bool.false_eq_true, if_false] at hLength hOuter
      simp only [State.endTrial, State.restore, State.mark, State.keepOutermost, hLength,
        Nat.sub_self, List.drop_zero]
      exact ⟨trivial, hOuter⟩
  rw [endTrial_eq h]
  exact ⟨rfl, rfl, hDepth.1, hDepth.2, List.prefix_rfl, fun _ => List.prefix_rfl, fun _ => rfl,
    fun _ => rfl⟩

theorem errors_leave (rule : RuleId) (label : Option String) :
    (i.leave t rule label).errors = t.errors := by
  unfold Input.leave
  simp only
  split <;> rfl

theorem position_leave (rule : RuleId) (label : Option String) :
    (i.leave t rule label).position = t.position := by
  unfold Input.leave
  simp only
  split <;> rfl

theorem leave_terminated (rule : RuleId) (label : Option String) (b : Bool) :
    i.leave { t with terminated := b } rule label =
      { i.leave t rule label with terminated := b } := by
  unfold Input.leave
  simp only
  split <;> rfl

theorem calls_leave (rule : RuleId) (label : Option String) :
    (i.leave t rule label).calls = t.calls.tail := by
  unfold Input.leave
  simp only
  split <;> rfl

theorem trials_leave (rule : RuleId) (label : Option String) :
    (i.leave t rule label).trials = t.trials := by
  unfold Input.leave
  simp only
  split <;> rfl

theorem terminated_leave (rule : RuleId) (label : Option String) :
    (i.leave t rule label).terminated = t.terminated := by
  unfold Input.leave
  simp only
  split <;> rfl

theorem recoverRule_stays (t : State) (error : Nat) :
    (i.recoverRule t error).1.calls = t.calls ∧ (i.recoverRule t error).1.trials = t.trials := by
  have hMark := frame_markRecovered (i := i) (s := t)
  rcases i.recoverRule_cases t error with ⟨index, -, -, hRec⟩ | ⟨-, -, -, hRec⟩ | ⟨-, hRec⟩
  · rw [hRec]
    exact ⟨hMark.calls, hMark.trials⟩
  · rw [hRec]
    exact ⟨hMark.calls, hMark.trials⟩
  · rw [hRec]
    exact ⟨hMark.calls, hMark.trials⟩

theorem errors_length_recoverRule (t : State) (error : Nat) :
    (i.recoverRule t error).1.errors.length = t.errors.length := by
  have hMark : t.markRecovered.errors = t.errors := by
    unfold State.markRecovered State.updateNode
    split <;> rfl
  rcases i.recoverRule_cases t error with ⟨index, -, -, hRec⟩ | ⟨-, -, -, hRec⟩ | ⟨-, hRec⟩
  · simp [hRec, State.resyncTo, State.addResynced, hMark]
  · simp [hRec, hMark]
  · simp [hRec, hMark]

theorem frame_consume (s : State) (occurrence : Nat) (expected : TypeId) (label : Option String) :
    (i.consume s occurrence expected label).Ends (Frame i s) (Stopped i s) := by
  unfold Input.consume
  simp only
  split
  · split
    · exact frame_addToken _ _ _
    · exact (frame_position _).trans (frame_addToken _ _ _)
  · have hRecord := frame_recordError (i := i) (s := s) (.mismatchedToken expected)
    split
    · next x t hRecovered =>
      split at hRecovered
      · next hOn =>
        refine hRecord.trans (.trans ?_ (.trans frame_markRecovered (frame_addToken _ _ _)))
        rcases Input.recoverToken?_cases hRecovered with ⟨-, rfl⟩ | ⟨-, -, -, rfl⟩
        · exact .refl _
        · exact (frame_addResynced hOn _ _).trans (frame_position _)
      · cases hRecovered
    · exact ⟨hRecord, Nat.le_refl _, by simp [Input.recordError]⟩

theorem frame_recover {rule : RuleId} {occurrence error : Nat} (label : Option String)
    (h : Stopped i (i.enter s rule occurrence) error t) :
    if (i.recoverRule t error).2 then Frame i s (i.leave (i.recoverRule t error).1 rule label)
    else Stopped i s error (i.leave (i.recoverRule t error).1 rule label) := by
  obtain ⟨hFrame, hLe, hLt⟩ := h
  have hMark := hFrame.trans (frame_markRecovered (i := i))
  rcases i.recoverRule_cases t error with ⟨index, hOn, -, hRec⟩ | ⟨-, hCalls, hTrials, hRec⟩ |
    ⟨-, hRec⟩
  · rw [hRec, if_pos rfl]
    rw [← Input.recoveryEnabled_markRecovered] at hOn
    exact (hMark.trans (frame_resyncTo hOn error index)).leave
  · rw [hRec, if_pos rfl]
    simp only [leave_terminated]
    refine Frame.of_terminated (b := (i.leave t.markRecovered rule label).terminated)
      hMark.leave ?_ ?_
    · exact hMark.trials.symm.trans hTrials
    · rw [hMark.calls] at hCalls
      simpa [Input.enter] using hCalls
  · rw [hRec, if_neg (by simp)]
    refine ⟨hMark.leave, hLe, ?_⟩
    rw [errors_leave]
    exact Nat.lt_of_lt_of_le hLt (frame_markRecovered (i := i)).errors_length_le

theorem frame_preserved : Preserved i (Frame i) (Stopped i) where
  refl := .refl
  trans := .trans
  trans_stopped h h' := ⟨h.trans h'.1, Nat.le_trans h.errors_length_le h'.2.1, h'.2.2⟩
  attempt h := h.1
  consume := frame_consume
  fails s cause := ⟨frame_recordError cause, Nat.le_refl _, by simp [Input.recordError]⟩
  separator s decision separator _ := frame_consumeSeparator separator
  skip s := frame_skipToNextIteration
  resume := by
    intro s e t h key decision separator
    rcases i.resumeRepetition_cases t key decision separator e with hRes |
      ⟨index, hOn, -, ⟨-, hRes⟩ | hRes⟩
    · rw [hRes]; exact h
    · rw [hRes]; exact h.1.trans (frame_resyncTo hOn e index)
    · rw [hRes]; exact h.1.trans (frame_resyncTo hOn e index)
  leave h label := h.leave
  recover h label := frame_recover label h
  trial := frame_endTrial

variable [Inhabited α]

theorem frame_runs (i : Input α) (fuel : Nat) : Preserved.Within i (Frame i) (Stopped i) fuel :=
  frame_preserved.within fuel

theorem runTrial_state (hTidy : Tidy i s) (fuel : Nat) (rule : String) :
    (i.runTrial fuel rule s).Ends (· = s) fun _ _ => False := by
  cases fuel with
  | zero => rw [Input.runTrial]; trivial
  | succ fuel =>
    apply Input.ends_runTrial
    · intro _
      rfl
    · intro id _
      exact ((frame_runs i fuel).invoke id 0 none (i.beginTrial s)).mono
        (fun t h => endTrial_eq_self hTidy h) fun _ t h => endTrial_eq_self hTidy h.1

theorem askGate_state (hTidy : Tidy i s) (fuel : Nat) (gate : Gate) :
    (i.askGate fuel gate s).Ends (· = s) fun _ _ => False := by
  induction fuel generalizing gate with
  | zero => rw [Input.askGate]; trivial
  | succ fuel ih =>
    cases gate with
    | parsing | tokens => rw [Input.askGate]; rfl
    | trial rule => rw [Input.askGate]; exact runTrial_state hTidy fuel rule
    | negation g =>
      have hg := ih g
      rw [Input.askGate]
      cases hr : i.askGate fuel g s with
      | done holds t => rw [hr] at hg; exact hg
      | interrupted e holds t => rw [hr] at hg; exact hg
      | panicked why => trivial
      | outOfFuel => trivial
    | both first second =>
      have hFirst := ih first
      rw [Input.askGate]
      cases hr : i.askGate fuel first s with
      | done holds t =>
        rw [hr] at hFirst
        cases hFirst
        cases holds with
        | true => exact ih second
        | false => rfl
      | interrupted e holds t => rw [hr] at hFirst; exact hFirst
      | panicked why => trivial
      | outOfFuel => trivial

theorem askGates_state (hTidy : Tidy i s) (fuel : Nat) (gates : List (Option Gate)) :
    (i.askGates fuel gates s).Ends (· = s) fun _ _ => False := by
  induction fuel generalizing gates with
  | zero => rw [Input.askGates]; trivial
  | succ fuel ih =>
    cases gates with
    | nil => rfl
    | cons gate gates =>
      have hRest := ih gates
      cases gate with
      | none =>
        rw [Input.askGates]
        cases hr : i.askGates fuel gates s with
        | done mask t => rw [hr] at hRest; exact hRest
        | interrupted e mask t => rw [hr] at hRest; exact hRest
        | panicked why => trivial
        | outOfFuel => trivial
      | some gate =>
        have hGate := askGate_state hTidy fuel gate
        rw [Input.askGates]
        cases hr : i.askGate fuel gate s with
        | done holds t =>
          rw [hr] at hGate
          cases hGate
          simp only
          cases hr' : i.askGates fuel gates s with
          | done mask u => rw [hr'] at hRest; exact hRest
          | interrupted e mask u => rw [hr'] at hRest; exact hRest
          | panicked why => trivial
          | outOfFuel => trivial
        | interrupted e holds t => rw [hr] at hGate; exact hGate
        | panicked why => trivial
        | outOfFuel => trivial

end PredictiveParsing.Parse
