import PredictiveParsing.Proofs.Parse.Rules

/-!
# Invariants of runs

A relation between the state in front of a run and the state behind it holds of every run if it
holds of the single steps and can be put together.
-/

namespace PredictiveParsing.Parse

variable {α : Type}

/-- Steps of a run other than those of repetitions. `done` relates the states around a run that ends
normally, `stopped` those around a run that an error interrupts. -/
structure PreservedSteps (i : Input α) (done : State → State → Prop)
    (stopped : State → Nat → State → Prop) : Prop where
  refl : ∀ s, done s s
  trans : ∀ {s t u}, done s t → done t u → done s u
  trans_stopped : ∀ {s t e u}, done s t → stopped t e u → stopped s e u
  /-- A body can go on behind an interruption. -/
  attempt : ∀ {s e t}, stopped s e t → done s t
  consume : ∀ s occurrence expected label,
    (i.consume s occurrence expected label).Ends (done s) (stopped s)
  fails : ∀ s, i.Fails s (stopped s)
  leave : ∀ {s rule occurrence t}, done (i.enter s rule occurrence) t → ∀ label,
    done s (i.leave t rule label)
  recover : ∀ {s rule occurrence e t}, stopped (i.enter s rule occurrence) e t → ∀ label,
    if (i.recoverRule t e).2 then done s (i.leave (i.recoverRule t e).1 rule label)
    else stopped s e (i.leave (i.recoverRule t e).1 rule label)
  trial : ∀ {s t}, done (i.beginTrial s) t → done s (t.endTrial s.mark)

/-- An invariant of runs. `fits` tells which repetitions can be under way in a state. -/
structure PreservedWith (i : Input α) (fits : Input.Loop α → State → Prop)
    (done : State → State → Prop) (stopped : State → Nat → State → Prop) : Prop
    extends PreservedSteps i done stopped where
  /-- A repetition that the next tokens begin. -/
  begins : ∀ s mandatory separator occurrence body,
    i.enters s (i.decisionAt? (s.key (.ofRepetition mandatory separator) occurrence)) = true →
      fits ⟨s.key (.ofRepetition mandatory separator) occurrence, mandatory, separator, body⟩ s
  stays : ∀ {loop s t}, fits loop s → done s t → fits loop t
  separator : ∀ {loop s}, fits loop s →
    i.continues s (i.decisionAt? loop.key) loop.separator = true →
      done s (i.consumeSeparator s loop.separator)
  skip : ∀ {loop s}, fits loop s →
    done s (i.skipToNextIteration s loop.key (i.decisionAt? loop.key) loop.separator).1
  resume : ∀ {loop s e t}, fits loop s → stopped s e t →
    match i.resumeRepetition t loop.key (i.decisionAt? loop.key) loop.separator e with
    | .again u => done s u
    | .exit u => done s u
    | .failed u => stopped s e u

/-- The invariant for the functions that run with one bound of nested steps, those of repetitions
apart. -/
structure HoldsWithin [Inhabited α] (i : Input α) (done : State → State → Prop)
    (stopped : State → Nat → State → Prop) (fuel : Nat) : Prop where
  body : ∀ ops a s, (i.runBody fuel ops a s).Ends (done s) (stopped s)
  op : ∀ op a s, (i.runOp fuel op a s).Ends (done s) (stopped s)
  invoke : ∀ rule occurrence label s,
    (i.invoke fuel rule occurrence label s).Ends (done s) (stopped s)
  trial : ∀ rule s, (i.runTrial fuel rule s).Ends (done s) (stopped s)
  gate : ∀ gate s, (i.askGate fuel gate s).Ends (done s) (stopped s)
  gates : ∀ gates s, (i.askGates fuel gates s).Ends (done s) (stopped s)

namespace PreservedWith

variable [Inhabited α] {i : Input α} {fits : Input.Loop α → State → Prop}
  {done : State → State → Prop} {stopped : State → Nat → State → Prop}

/-- The invariant for all functions that run with one bound of nested steps. A repetition fits as
soon as it has been entered. -/
structure Within (i : Input α) (fits : Input.Loop α → State → Prop) (done : State → State → Prop)
    (stopped : State → Nat → State → Prop) (fuel : Nat) : Prop
    extends HoldsWithin i done stopped fuel where
  loop : ∀ loop isFirst a s,
    (isFirst = false ∨ i.enters s (i.decisionAt? loop.key) = true → fits loop s) →
      (i.runLoop fuel loop isFirst a s).Ends (done s) (stopped s)
  iteration : ∀ loop a s, fits loop s → (i.runIteration fuel loop a s).Ends (done s) (stopped s)

variable (h : PreservedWith i fits done stopped) {fuel : Nat}
  (ih : Within i fits done stopped fuel)

omit [Inhabited α] in
include h in
theorem ends_trans {β : Type} {o : Outcome β} {s t : State} (hStep : done s t)
    (hRest : o.Ends (done t) (stopped t)) : o.Ends (done s) (stopped s) :=
  hRest.mono (fun _ => h.trans hStep) fun _ _ => h.trans_stopped hStep

include h ih

theorem body_succ (ops : List (Op α)) (a : α) (s : State) :
    (i.runBody (fuel + 1) ops a s).Ends (done s) (stopped s) := by
  cases ops with
  | nil => exact Input.ends_runBody_nil (h.refl s)
  | cons op ops =>
    apply Input.ends_runBody_cons
    exact (ih.op op a s).mono (fun t ht b => h.ends_trans ht (ih.body ops b t)) fun _ _ => id

theorem op_succ (op : Op α) (a : α) (s : State) :
    (i.runOp (fuel + 1) op a s).Ends (done s) (stopped s) := by
  cases op with
  | consume occurrence token label act => exact Input.ends_consume (h.consume s _ _ _)
  | subrule occurrence rule label act => exact Input.ends_subrule fun id _ => ih.invoke id _ _ s
  | option occurrence body act =>
    exact Input.ends_option (fun _ => ih.body body a s) fun _ => h.refl s
  | repetition mandatory separator occurrence body act =>
    apply Input.ends_repetition
    refine ih.loop _ _ a s fun hEntered => ?_
    exact h.begins s mandatory separator occurrence body (hEntered.resolve_left nofun)
  | choice occurrence branches act =>
    apply Input.ends_choice
    refine (ih.gates _ s).mono (fun t ht => ⟨fun branch _ b => ?_, fun cause => ?_⟩) fun _ _ => id
    · exact h.ends_trans ht (ih.body branch.body b t)
    · exact h.trans_stopped ht (h.fails t cause)
  | peek distance act => exact Input.ends_peek (h.refl s)
  | trial rule act => exact Input.ends_trial (ih.trial rule s)
  | whenParsing body => exact Input.ends_whenParsing (ih.body body a s)
  | whenRecording body => exact Input.ends_whenRecording (h.refl s)
  | attempt body act =>
    exact Input.ends_attempt ((ih.body body a s).mono (fun _ => id) fun _ _ => h.attempt)

theorem invoke_succ (rule : RuleId) (occurrence : Nat) (label : Option String) (s : State) :
    (i.invoke (fuel + 1) rule occurrence label s).Ends (done s) (stopped s) := by
  apply Input.ends_invoke
  exact (ih.body _ _ _).mono (fun t ht => h.leave ht label) fun e t ht => h.recover ht label

theorem iteration_succ (loop : Input.Loop α) (a : α) (s : State) (hs : fits loop s) :
    (i.runIteration (fuel + 1) loop a s).Ends (done s) (stopped s) := by
  have goesOn : ∀ t, done s t → i.GoesOn fuel loop s.position (done s) (stopped s) t := by
    intro t ht
    unfold Input.GoesOn
    split
    · exact ht
    · intro b
      exact h.ends_trans ht (ih.loop loop false b t fun _ => h.stays hs ht)
  apply Input.ends_runIteration
  refine (ih.body loop.body a s).mono goesOn fun e t ht => ?_
  have hResume := h.resume hs ht
  cases hRes : i.resumeRepetition t loop.key (i.decisionAt? loop.key) loop.separator e with
  | again u => rw [hRes] at hResume; exact goesOn u hResume
  | exit u => rw [hRes] at hResume; exact hResume
  | failed u => rw [hRes] at hResume; exact hResume

theorem loop_succ (loop : Input.Loop α) (isFirst : Bool) (a : α) (s : State)
    (hs : isFirst = false ∨ i.enters s (i.decisionAt? loop.key) = true → fits loop s) :
    (i.runLoop (fuel + 1) loop isFirst a s).Ends (done s) (stopped s) := by
  cases isFirst with
  | true =>
    exact Input.ends_runLoop_first (fun hEnter => ih.iteration loop a s (hs (.inr hEnter)))
      (fun _ _ => h.refl s) fun _ => h.fails s
  | false =>
    have hs := hs (.inl rfl)
    apply Input.ends_runLoop_later
    · intro hc
      have hSeparator := h.separator hs hc
      exact h.ends_trans hSeparator (ih.iteration loop a _ (h.stays hs hSeparator))
    · intro _
      have hSkip := h.skip hs
      split
      · exact h.ends_trans hSkip (ih.loop loop false a _ fun _ => h.stays hs hSkip)
      · exact hSkip

theorem trial_succ (rule : String) (s : State) :
    (i.runTrial (fuel + 1) rule s).Ends (done s) (stopped s) := by
  apply Input.ends_runTrial
  · intro _
    exact h.refl s
  · intro id _
    exact (ih.invoke id 0 none (i.beginTrial s)).mono (fun t => h.trial)
      fun e t ht => h.trial (h.attempt ht)

theorem gate_succ (gate : Gate) (s : State) :
    (i.askGate (fuel + 1) gate s).Ends (done s) (stopped s) := by
  cases gate with
  | parsing | tokens => rw [Input.askGate]; exact h.refl s
  | trial rule => rw [Input.askGate]; exact ih.trial rule s
  | negation g =>
    have hg := ih.gate g s
    rw [Input.askGate]
    cases hr : i.askGate fuel g s with
    | done holds t => rw [hr] at hg; exact hg
    | interrupted e holds t => rw [hr] at hg; exact hg
    | panicked why => trivial
    | outOfFuel => trivial
  | both first second =>
    have hFirst := ih.gate first s
    rw [Input.askGate]
    cases hr : i.askGate fuel first s with
    | done holds t =>
      rw [hr] at hFirst
      cases holds with
      | true => exact h.ends_trans hFirst (ih.gate second t)
      | false => exact hFirst
    | interrupted e holds t => rw [hr] at hFirst; exact hFirst
    | panicked why => trivial
    | outOfFuel => trivial

theorem gates_succ (gates : List (Option Gate)) (s : State) :
    (i.askGates (fuel + 1) gates s).Ends (done s) (stopped s) := by
  cases gates with
  | nil => exact h.refl s
  | cons gate gates =>
    cases gate with
    | none =>
      have hRest := ih.gates gates s
      rw [Input.askGates]
      cases hr : i.askGates fuel gates s with
      | done mask t => rw [hr] at hRest; exact hRest
      | interrupted e mask t => rw [hr] at hRest; exact hRest
      | panicked why => trivial
      | outOfFuel => trivial
    | some gate =>
      have hGate := ih.gate gate s
      rw [Input.askGates]
      cases hr : i.askGate fuel gate s with
      | done holds t =>
        rw [hr] at hGate
        have hRest := h.ends_trans hGate (ih.gates gates t)
        simp only
        cases hr' : i.askGates fuel gates t with
        | done mask u => rw [hr'] at hRest; exact hRest
        | interrupted e mask u => rw [hr'] at hRest; exact hRest
        | panicked why => trivial
        | outOfFuel => trivial
      | interrupted e holds t => rw [hr] at hGate; exact hGate
      | panicked why => trivial
      | outOfFuel => trivial

omit ih in
/-- A relation that every step preserves holds around every run. -/
theorem within (fuel : Nat) : Within i fits done stopped fuel := by
  induction fuel with
  | zero =>
    refine ⟨⟨?_, ?_, ?_, ?_, ?_, ?_⟩, ?_, ?_⟩ <;> intros
    · rw [Input.runBody]; trivial
    · rw [Input.runOp]; trivial
    · rw [Input.invoke]; trivial
    · rw [Input.runTrial]; trivial
    · rw [Input.askGate]; trivial
    · rw [Input.askGates]; trivial
    · rw [Input.runLoop]; trivial
    · rw [Input.runIteration]; trivial
  | succ fuel ih =>
    exact ⟨⟨h.body_succ ih, h.op_succ ih, h.invoke_succ ih, h.trial_succ ih, h.gate_succ ih,
      h.gates_succ ih⟩, h.loop_succ ih, h.iteration_succ ih⟩

end PreservedWith

structure Preserved (i : Input α) (done : State → State → Prop)
    (stopped : State → Nat → State → Prop) : Prop extends PreservedSteps i done stopped where
  separator : ∀ s decision separator, i.continues s decision separator = true →
    done s (i.consumeSeparator s separator)
  skip : ∀ s key decision separator, done s (i.skipToNextIteration s key decision separator).1
  resume : ∀ {s e t}, stopped s e t → ∀ key decision separator,
    match i.resumeRepetition t key decision separator e with
    | .again u => done s u
    | .exit u => done s u
    | .failed u => stopped s e u

namespace Preserved

variable [Inhabited α] {i : Input α} {done : State → State → Prop}
  {stopped : State → Nat → State → Prop}

structure Within (i : Input α) (done : State → State → Prop) (stopped : State → Nat → State → Prop)
    (fuel : Nat) : Prop extends HoldsWithin i done stopped fuel where
  loop : ∀ loop isFirst a s, (i.runLoop fuel loop isFirst a s).Ends (done s) (stopped s)
  iteration : ∀ loop a s, (i.runIteration fuel loop a s).Ends (done s) (stopped s)

omit [Inhabited α] in
theorem withLoops (h : Preserved i done stopped) :
    PreservedWith i (fun _ _ => True) done stopped where
  toPreservedSteps := h.toPreservedSteps
  begins _ _ _ _ _ _ := trivial
  stays _ _ := trivial
  separator _ := h.separator _ _ _
  skip _ := h.skip _ _ _ _
  resume _ hStopped := h.resume hStopped _ _ _

theorem within (h : Preserved i done stopped) (fuel : Nat) : Within i done stopped fuel := by
  have hWithin := h.withLoops.within fuel
  exact ⟨hWithin.toHoldsWithin,
    fun loop isFirst a s => hWithin.loop loop isFirst a s fun _ => trivial,
    fun loop a s => hWithin.iteration loop a s trivial⟩

end Preserved

end PredictiveParsing.Parse
