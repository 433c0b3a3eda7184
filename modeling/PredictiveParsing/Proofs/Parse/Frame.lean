import Mathlib.Tactic.Common
import PredictiveParsing.Proofs.Parse.RecoverySteps
import PredictiveParsing.Proofs.Parse.Rules

/-!
# What a run leaves alone

A run comes back to the rules and the nodes it started with, changes no node but the innermost one,
and only adds errors to those found before. A trial is undone altogether: the state behind it is the
state in front of it.
-/

namespace PredictiveParsing.Parse

/-- An error without the tokens that were skipped to recover from it. -/
def bare (e : RecognitionError) : RecognitionError := { e with resynced := [] }

variable {α : Type}

/-- What a run from `s` that ends in `t` leaves alone. -/
structure Frame (i : Input α) (s t : State) : Prop where
  calls : t.calls = s.calls
  trials : t.trials = s.trials
  depth : t.openNodes.length = s.openNodes.length
  outer : t.openNodes.tail = s.openNodes.tail
  found : s.errors.map bare <+: t.errors.map bare
  exact : i.recoveryEnabled s = false → s.errors <+: t.errors
  root : i.grammar.config.outputTree = false ∨ s.openNodes ≠ [] → t.root = s.root
  terminated : s.trials ≠ 0 ∨ s.calls ≠ [] → t.terminated = s.terminated

def Stopped (i : Input α) (s : State) (error : Nat) (t : State) : Prop :=
  Frame i s t ∧ s.errors.length ≤ error ∧ error < t.errors.length

variable {i : Input α} {s t u : State}

theorem recoveryEnabled_congr (h : t.trials = s.trials) :
    i.recoveryEnabled t = i.recoveryEnabled s := by
  rw [Input.recoveryEnabled, Input.recoveryEnabled, h]

theorem ne_nil_of_length_eq {β : Type} {xs ys : List β} (h : xs.length = ys.length)
    (hy : ys ≠ []) : xs ≠ [] := by
  rintro rfl
  exact hy (List.eq_nil_of_length_eq_zero h.symm)

namespace Frame

@[refl] theorem refl (s : State) : Frame i s s :=
  ⟨rfl, rfl, rfl, rfl, List.prefix_rfl, fun _ => List.prefix_rfl, fun _ => rfl, fun _ => rfl⟩

theorem trans (h : Frame i s t) (h' : Frame i t u) : Frame i s u where
  calls := h'.calls.trans h.calls
  trials := h'.trials.trans h.trials
  depth := h'.depth.trans h.depth
  outer := h'.outer.trans h.outer
  found := h.found.trans h'.found
  exact hOff := (h.exact hOff).trans (h'.exact ((recoveryEnabled_congr h.trials).trans hOff))
  root hOpen := by
    rw [h'.root (hOpen.imp_right (ne_nil_of_length_eq h.depth)), h.root hOpen]
  terminated hInner := by
    rw [h'.terminated (by rwa [h.trials, h.calls]), h.terminated hInner]

theorem errors_length_le (h : Frame i s t) : s.errors.length ≤ t.errors.length := by
  have := h.found.length_le
  simpa using this

theorem recoveryEnabled (h : Frame i s t) : i.recoveryEnabled t = i.recoveryEnabled s :=
  recoveryEnabled_congr h.trials

theorem currentRule (h : Frame i s t) : t.currentRule = s.currentRule := by
  rw [State.currentRule, State.currentRule, h.calls]

/-- Whether an error ends a parse that no rule encloses is not part of the frame. -/
theorem of_terminated {b : Bool} (h : Frame i s { t with terminated := b }) (hTrials : s.trials = 0)
    (hCalls : s.calls = []) : Frame i s t :=
  { calls := h.calls, trials := h.trials, depth := h.depth, outer := h.outer, found := h.found
    exact := h.exact, root := h.root
    terminated := by
      rintro (hInner | hInner)
      · exact absurd hTrials hInner
      · exact absurd hCalls hInner }

end Frame

theorem frame_position (p : Nat) : Frame i s { s with position := p } :=
  ⟨rfl, rfl, rfl, rfl, List.prefix_rfl, fun _ => List.prefix_rfl, fun _ => rfl, fun _ => rfl⟩

theorem frame_updateNode (f : Node → Node) : Frame i s (s.updateNode f) := by
  unfold State.updateNode
  split
  · exact .refl s
  · next n rest hOpen =>
    exact ⟨rfl, rfl, by simp [hOpen], by simp [hOpen], List.prefix_rfl, fun _ => List.prefix_rfl,
      fun _ => rfl, fun _ => rfl⟩

theorem frame_markRecovered : Frame i s s.markRecovered := frame_updateNode _

theorem frame_addToken (label : Option String) (expected : TypeId) (x : Token) :
    Frame i s (i.addToken s label expected x) := by
  unfold Input.addToken
  split
  · exact frame_updateNode _
  · exact .refl s

theorem frame_recordError (cause : RecognitionCause) : Frame i s (i.recordError s cause).1 :=
  ⟨rfl, rfl, rfl, rfl, by simp [Input.recordError], fun _ => by simp [Input.recordError],
    fun _ => rfl, fun _ => rfl⟩

theorem map_bare_modify (errors : List RecognitionError) (n : Nat) (skipped : List Token) :
    (errors.modify n fun e => { e with resynced := e.resynced ++ skipped }).map bare =
      errors.map bare := by
  induction errors generalizing n with
  | nil => simp
  | cons e errors ih =>
    cases n with
    | zero => simp [bare]
    | succ n => simp [ih]

theorem frame_addResynced (hOn : i.recoveryEnabled s = true) (error : Nat) (skipped : List Token) :
    Frame i s (s.addResynced error skipped) :=
  ⟨rfl, rfl, rfl, rfl, by simp [State.addResynced, map_bare_modify],
    fun hOff => by simp [hOn] at hOff, fun _ => rfl, fun _ => rfl⟩

theorem frame_resyncTo (hOn : i.recoveryEnabled s = true) (error index : Nat) :
    Frame i s (s.resyncTo i error index) :=
  (frame_addResynced hOn error _).trans (frame_position index)

theorem frame_consumeSeparator (separator : Option TypeId) :
    Frame i s (i.consumeSeparator s separator) := by
  cases separator with
  | none => exact .refl s
  | some x => exact (frame_position _).trans (frame_addToken _ _ _)

theorem frame_skipToNextIteration (key : DecisionKey) (decision : Option Decision)
    (separator : Option TypeId) :
    Frame i s (i.skipToNextIteration s key decision separator).1 := by
  rcases i.skipToNextIteration_cases s key decision separator with h |
    ⟨exits, index, resumes, hOn, -, -, -, -, -, h⟩
  · rw [h]
  · rw [h]
    have hRecord := frame_recordError (i := i) (s := s)
      (.brokenRepetition key.kind key.occurrence exits)
    exact hRecord.trans (frame_resyncTo (hRecord.recoveryEnabled.trans hOn) _ _)

theorem Frame.leave {rule : RuleId} {occurrence : Nat} {label : Option String}
    (h : Frame i (i.enter s rule occurrence) t) : Frame i s (i.leave t rule label) := by
  have hCalls : t.calls = ⟨rule, occurrence⟩ :: s.calls := h.calls
  have hTrials : t.trials = s.trials := h.trials
  have hFound : s.errors.map bare <+: t.errors.map bare := h.found
  have hExact : i.recoveryEnabled s = false → s.errors <+: t.errors := h.exact
  have hEnd : s.trials ≠ 0 ∨ s.calls ≠ [] → t.terminated = s.terminated :=
    fun _ => h.terminated (.inr (by simp [Input.enter]))
  have hDepth := h.depth
  have hOuter := h.outer
  unfold Input.leave
  simp only
  split
  · next n parent rest hTree hOpen =>
    simp only [Input.enter, hTree, hOpen, if_true, List.tail_cons] at hOuter
    have hRoot : t.root = s.root := h.root (.inr (by simp [Input.enter, hTree]))
    exact ⟨by simp [hCalls], hTrials, by simp [← hOuter], by simp [← hOuter], hFound, hExact,
      fun _ => hRoot, hEnd⟩
  · next n hTree hOpen =>
    simp only [Input.enter, hTree, hOpen, if_true, List.tail_cons] at hOuter
    refine ⟨by simp [hCalls], hTrials, by simp [← hOuter], by simp [← hOuter], hFound, hExact, ?_,
      hEnd⟩
    rintro (hNone | hSome)
    · simp [hTree] at hNone
    · exact absurd hOuter.symm hSome
  · next hMany hOne =>
    cases hTree : i.grammar.config.outputTree with
    | false =>
      simp only [Input.enter, hTree, Bool.false_eq_true, if_false] at hDepth hOuter
      exact ⟨by simp [hCalls], hTrials, hDepth, hOuter, hFound, hExact,
        fun _ => h.root (.inl hTree), hEnd⟩
    | true =>
      cases hOpen : t.openNodes with
      | nil => simp [Input.enter, hTree, hOpen] at hDepth
      | cons n rest =>
        cases rest with
        | nil => exact (hOne n hTree hOpen).elim
        | cons parent rest => exact (hMany n parent rest hTree hOpen).elim

end PredictiveParsing.Parse
