import PredictiveParsing.Proofs.Parse.RenamedSteps

/-!
# Runs under other numbers

A run from a state with other numbers for the rules takes the same steps and ends in the same way,
in the state with the other numbers. Outside of all rules the current one has no number, so bodies
are run inside a rule.
-/

namespace PredictiveParsing.Parse

variable {α : Type} {σ : RuleId → RuleId} {i i' : Input α}

/-- The state with other numbers for its rules, of which there are no fewer than those entered. -/
def IsRenaming (σ : RuleId → RuleId) (depth : Nat) (s u : State) : Prop :=
  u = s.rename σ ∧ depth ≤ s.calls.length

theorem IsRenaming.inside {depth : Nat} {s u : State} (h : IsRenaming σ (depth + 1) s u) :
    s.calls ≠ [] := List.ne_nil_of_length_pos (Nat.lt_of_lt_of_le (Nat.succ_pos depth) h.2)

theorem Frame.isRenaming {depth : Nat} {s t u : State} (h : Frame i s t)
    (hs : IsRenaming σ depth s u) : IsRenaming σ depth t (t.rename σ) :=
  ⟨rfl, h.calls ▸ hs.2⟩

theorem paired_rename {β : Type} {depth : Nat} {o : Outcome β}
    (h : o.Ends (fun t => IsRenaming σ depth t (t.rename σ))
      fun _ t => IsRenaming σ depth t (t.rename σ)) :
    o.Paired True (IsRenaming σ depth) (o.rename σ) := by
  cases o with
  | done b t => exact .done h
  | interrupted e b t => exact .interrupted h
  | panicked why => exact .panicked
  | outOfFuel => exact .outOfFuel fun _ => rfl

namespace IsRenamed

variable (h : IsRenamed σ i i')

include h

theorem similar : Similar σ i i' (IsRenaming σ) where
  tokens := h.tokens
  ruleNamed? := h.ruleNamed?
  body := h.body
  decisionAt? := h.decisionAt?
  position := by rintro _ s _ ⟨rfl, -⟩; rfl
  errors := by rintro _ s _ ⟨rfl, -⟩; rfl
  ahead := by
    rintro _ s _ ⟨rfl, -⟩
    exact funext h.ahead
  enters := by
    rintro _ s _ ⟨rfl, -⟩
    exact h.enters
  continues := by
    rintro _ s _ ⟨rfl, -⟩
    exact h.continues
  chooseBranch := by
    rintro _ s _ ⟨rfl, -⟩
    exact h.chooseBranch
  key hs kind occurrence := by
    have hInside := hs.inside
    obtain ⟨rfl, -⟩ := hs
    exact State.key_rename hInside kind occurrence
  overrun? := by
    rintro _ s _ ⟨rfl, -⟩
    exact h.overrun?
  consume {_ s _} hs occurrence expected label := by
    have hInside := hs.inside
    have hFrame := frame_consume (i := i) s occurrence expected label
    obtain ⟨rfl, hDepth⟩ := hs
    rw [h.consume hInside]
    exact paired_rename (hFrame.mono (fun _ ht => ht.isRenaming ⟨rfl, hDepth⟩)
      fun _ _ ht => ht.1.isRenaming ⟨rfl, hDepth⟩)
  recordError := by
    rintro _ s _ ⟨rfl, hDepth⟩ cause
    rw [h.recordError]
    exact ⟨rfl, hDepth⟩
  consumeSeparator := by
    rintro _ s _ ⟨rfl, hDepth⟩ separator
    rw [h.consumeSeparator]
    exact (frame_consumeSeparator separator).isRenaming ⟨rfl, hDepth⟩
  skipToNextIteration := by
    rintro _ s _ ⟨rfl, hDepth⟩ key decision separator
    rw [h.skipToNextIteration]
    exact ⟨(frame_skipToNextIteration key decision separator).isRenaming ⟨rfl, hDepth⟩, rfl⟩
  resumeRepetition := by
    rintro _ s _ ⟨rfl, hDepth⟩ key decision separator e
    rw [h.resumeRepetition]
    rcases i.resumeRepetition_cases s key decision separator e with hRes |
      ⟨index, -, -, ⟨-, hRes⟩ | hRes⟩
    · rw [hRes]; exact .failed ⟨rfl, hDepth⟩
    · rw [hRes]; exact .again ⟨rfl, hDepth⟩
    · rw [hRes]; exact .exit ⟨rfl, hDepth⟩
  enter := by
    rintro _ s _ ⟨rfl, hDepth⟩ rule occurrence
    rw [h.enter]
    exact ⟨rfl, Nat.succ_le_succ hDepth⟩
  recoverRule := by
    rintro _ s _ ⟨rfl, hDepth⟩ e
    rw [h.recoverRule]
    exact ⟨⟨rfl, (recoverRule_stays (i := i) s e).1 ▸ hDepth⟩, rfl⟩
  leave := by
    rintro d s _ ⟨rfl, hDepth⟩ rule label
    have hLength : (i.leave s rule label).calls.length = s.calls.length - 1 := by
      rw [calls_leave, List.length_tail]
    rw [h.leave]
    exact ⟨rfl, by omega⟩
  beginTrial := by
    rintro _ s _ ⟨rfl, hDepth⟩
    rw [h.beginTrial]
    exact ⟨rfl, hDepth⟩
  endTrial := by
    rintro _ s _ t _ ⟨rfl, hDepth⟩ hFrame - ⟨rfl, -⟩
    rw [State.endTrial_rename]
    exact (frame_endTrial hFrame).isRenaming ⟨rfl, hDepth⟩

theorem parseFrom [Inhabited α] (fuel : Nat) (rule : RuleId) :
    i'.parseFrom fuel (σ rule) = i.parseFrom fuel rule := by
  have hRun := (h.similar.within (Nat.le_refl fuel)).invoke (d := 0) (s := .initial)
    (u := .initial) ⟨rfl, Nat.zero_le _⟩ rule 0 none
  rw [Input.parseFrom, Input.parseFrom]
  generalize i.invoke fuel rule 0 none .initial = o at hRun ⊢
  generalize i'.invoke fuel (σ rule) 0 none .initial = o' at hRun ⊢
  cases hRun with
  | @done a t _ ht =>
    obtain ⟨rfl, -⟩ := ht
    exact congrArg ParseResult.parsed (h.finish a)
  | @interrupted _ _ t _ ht =>
    obtain ⟨rfl, -⟩ := ht
    exact congrArg ParseResult.parsed (h.finish default)
  | panicked => rfl
  | outOfFuel hOut => rw [hOut rfl]

end IsRenamed

end PredictiveParsing.Parse
