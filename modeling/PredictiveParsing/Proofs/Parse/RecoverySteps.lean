import PredictiveParsing.Parse.Recovery

/-!
# What recovery can do

Each way of recovering either leaves the state as it is or goes to a later place and adds the tokens
in between to one error.
-/

namespace PredictiveParsing.Parse

def State.resyncTo {α : Type} (s : State) (i : Input α) (error index : Nat) : State :=
  { s.addResynced error (i.slice s.position index) with position := index }

namespace Input

variable {α : Type} {i : Input α} {s t : State}

def tokenAt (i : Input α) (index : Nat) : Token := (i.tokens[index]?).getD i.eof

theorem next_eq (s : State) : i.next s = i.tokenAt s.position := rfl

theorem recoveryEnabled_markRecovered : i.recoveryEnabled s.markRecovered = i.recoveryEnabled s := by
  unfold State.markRecovered State.updateNode
  split <;> rfl

theorem recoverToken?_cases {expected : TypeId} {occurrence error : Nat} {x : Token}
    (h : i.recoverToken? s expected occurrence error = some (x, t)) :
    (x = .insertedBefore expected (i.next s) ∧ t = s) ∨
      ((i.next s).isEof = false ∧ i.isMatch (i.kindAt (s.position + 1)) expected = true ∧
        x = i.tokenAt (s.position + 1) ∧
        t = { s.addResynced error [i.next s] with position := s.position + 2 }) := by
  unfold recoverToken? at h
  simp only at h
  split at h
  · cases h
    exact .inl ⟨rfl, rfl⟩
  · split at h
    · next hDelete =>
      cases h
      simp only [Bool.and_eq_true, Bool.not_eq_true'] at hDelete
      exact .inr ⟨hDelete.1, hDelete.2, rfl, rfl⟩
    · cases h

theorem le_of_resyncPlace? {fuel start index : Nat}
    (h : i.resyncPlace? s fuel start = some index) : start ≤ index := by
  induction fuel generalizing start with
  | zero => cases h
  | succ fuel ih =>
    rw [resyncPlace?] at h
    split at h
    · cases h; exact Nat.le_refl _
    · split at h
      · cases h
      · exact Nat.le_of_succ_le (ih h)

theorem recoverRule_cases (i : Input α) (s : State) (error : Nat) :
    (∃ index, i.recoveryEnabled s = true ∧
      i.resyncPlace? s.markRecovered (i.tokens.size + 1) s.markRecovered.position = some index ∧
      i.recoverRule s error = (s.markRecovered.resyncTo i error index, true)) ∨
    (i.recoveryEnabled s = false ∧ s.markRecovered.calls.length = 1 ∧
      s.markRecovered.trials = 0 ∧
      i.recoverRule s error = ({ s.markRecovered with terminated := true }, true)) ∨
    ((i.recoveryEnabled s = true →
        i.resyncPlace? s.markRecovered (i.tokens.size + 1) s.markRecovered.position = none) ∧
      i.recoverRule s error = (s.markRecovered, false)) := by
  unfold recoverRule
  simp only [recoveryEnabled_markRecovered]
  cases hOn : i.recoveryEnabled s with
  | true =>
    simp only [if_true]
    cases hPlace : i.resyncPlace? s.markRecovered (i.tokens.size + 1) s.markRecovered.position with
    | some index => exact .inl ⟨index, trivial, rfl, rfl⟩
    | none => exact .inr (.inr ⟨fun _ => rfl, rfl⟩)
  | false =>
    simp only [Bool.false_eq_true, if_false]
    split
    · next hTop =>
      simp only [Bool.not_false, Bool.true_and, Bool.and_eq_true, beq_iff_eq] at hTop
      exact .inr (.inl ⟨trivial, hTop.1, hTop.2, rfl⟩)
    · exact .inr (.inr ⟨nofun, rfl⟩)

theorem resumePlace?_cases {exits : Option TokenSet} {decision : Option Decision}
    {separator : Option TypeId} {fuel start index : Nat} {resumes : Bool}
    (h : i.resumePlace? s exits decision separator fuel start = some (index, resumes)) :
    start ≤ index ∧ (resumes = true → s.position < index) := by
  induction fuel generalizing start with
  | zero => cases h
  | succ fuel ih =>
    rw [resumePlace?] at h
    simp only at h
    split at h
    · cases h
    · split at h
      · cases h
        refine ⟨Nat.le_refl _, fun hResumes => ?_⟩
        simp only [Bool.and_eq_true, decide_eq_true_eq] at hResumes
        exact hResumes.1
      · split at h
        · cases h
        · exact ⟨Nat.le_of_succ_le (ih h).1, (ih h).2⟩

theorem resumeRepetition_cases (i : Input α) (s : State) (key : DecisionKey)
    (decision : Option Decision) (separator : Option TypeId) (error : Nat) :
    i.resumeRepetition s key decision separator error = .failed s ∨
    ∃ index, i.recoveryEnabled s = true ∧ s.position ≤ index ∧
      ((s.position < index ∧ i.resumeRepetition s key decision separator error =
          .again (s.resyncTo i error index)) ∨
        i.resumeRepetition s key decision separator error =
          .exit (s.resyncTo i error index)) := by
  unfold resumeRepetition
  cases hOn : i.recoveryEnabled s with
  | false => exact .inl rfl
  | true =>
    simp only [if_true]
    cases hPlace : i.resumePlace? s (i.grammar.analysis.repetitionExits.lookup key) decision
        separator (i.tokens.size + 1) s.position with
    | none => exact .inl rfl
    | some place =>
      obtain ⟨index, resumes⟩ := place
      obtain ⟨hLe, hLt⟩ := resumePlace?_cases hPlace
      cases resumes with
      | true => exact .inr ⟨index, trivial, hLe, .inl ⟨hLt rfl, rfl⟩⟩
      | false => exact .inr ⟨index, trivial, hLe, .inr rfl⟩

def ResumesAt (i : Input α) (key : DecisionKey) (separator : Option TypeId) (index : Nat) : Prop :=
  i.continues { State.initial with position := index } (i.decisionAt? key) separator = true ∨
    ∃ exits, i.grammar.analysis.repetitionExits.lookup key = some exits ∧
      exits.contains (i.kindAt index) = true

theorem continues_congr (h : t.position = s.position) (decision : Option Decision)
    (separator : Option TypeId) :
    i.continues t decision separator = i.continues s decision separator := by
  unfold continues enters coming
  rw [h]

theorem resumesAt_of_resumePlace? {key : DecisionKey} {separator : Option TypeId}
    {fuel start index : Nat} {resumes : Bool}
    (h : i.resumePlace? s (i.grammar.analysis.repetitionExits.lookup key) (i.decisionAt? key)
      separator fuel start = some (index, resumes)) : i.ResumesAt key separator index := by
  induction fuel generalizing start with
  | zero => cases h
  | succ fuel ih =>
    rw [resumePlace?] at h
    simp only at h
    split at h
    · cases h
    · split at h
      · next hStop =>
        cases h
        simp only [Bool.or_eq_true, Bool.and_eq_true] at hStop
        rcases hStop with ⟨-, hContinues⟩ | hExit
        · exact .inl ((continues_congr rfl _ _).trans hContinues)
        · cases hExits : i.grammar.analysis.repetitionExits.lookup key with
          | none => rw [hExits] at hExit; cases hExit
          | some exits => rw [hExits] at hExit; exact .inr ⟨exits, hExits, hExit⟩
      · split at h
        · cases h
        · exact ih h

/-- A repetition that an error interrupts goes on somewhere behind it, if it goes on at all. -/
theorem resumeRepetition_resumes (i : Input α) (s : State) (key : DecisionKey)
    (separator : Option TypeId) (error : Nat) :
    i.resumeRepetition s key (i.decisionAt? key) separator error = .failed s ∨
    ∃ index, i.ResumesAt key separator index ∧
      (i.resumeRepetition s key (i.decisionAt? key) separator error =
          .again (s.resyncTo i error index) ∨
        i.resumeRepetition s key (i.decisionAt? key) separator error =
          .exit (s.resyncTo i error index)) := by
  unfold resumeRepetition
  split
  · simp only
    split
    · next index resumes hPlace =>
      refine .inr ⟨index, resumesAt_of_resumePlace? hPlace, ?_⟩
      cases resumes with
      | true => exact .inl rfl
      | false => exact .inr rfl
    · exact .inl rfl
  · exact .inl rfl

theorem resumeRepetition_unaided (h : i.recoveryEnabled s = false) (key : DecisionKey)
    (decision : Option Decision) (separator : Option TypeId) (error : Nat) :
    i.resumeRepetition s key decision separator error = .failed s := by
  rcases i.resumeRepetition_cases s key decision separator error with hFailed | ⟨_, hOn, -⟩
  · exact hFailed
  · exact absurd (h.symm.trans hOn) Bool.false_ne_true

theorem le_of_skipPlace? {exits : TokenSet} {decision : Option Decision}
    {separator : Option TypeId} {fuel start index : Nat} {resumes : Bool}
    (h : i.skipPlace? s exits decision separator fuel start = some (index, resumes)) :
    start ≤ index := by
  induction fuel generalizing start with
  | zero => cases h
  | succ fuel ih =>
    rw [skipPlace?] at h
    simp only at h
    split at h
    · cases h
    · split at h
      · cases h; exact Nat.le_refl _
      · split at h
        · cases h
        · exact Nat.le_of_succ_le (ih h)

/-- A repetition skips tokens only with recovery, and only in front of a token that nothing expects:
neither what follows it in its rule, nor a rule around. -/
theorem skipToNextIteration_cases (i : Input α) (s : State) (key : DecisionKey)
    (decision : Option Decision) (separator : Option TypeId) :
    i.skipToNextIteration s key decision separator = (s, false) ∨
    ∃ exits index resumes, i.recoveryEnabled s = true ∧
      i.grammar.analysis.repetitionExits.lookup key = some exits ∧
      i.kindAt s.position ≠ Vocabulary.eof ∧
      exits.contains (i.kindAt s.position) = false ∧
      i.inEnclosingFollows s (i.kindAt s.position) = false ∧ s.position < index ∧
      i.skipToNextIteration s key decision separator =
        (State.resyncTo (i.recordError s (.brokenRepetition key.kind key.occurrence exits)).1 i
          s.errors.length index, resumes) := by
  unfold skipToNextIteration
  cases hExits : i.grammar.analysis.repetitionExits.lookup key with
  | none => exact .inl rfl
  | some exits =>
    simp only
    split
    · exact .inl rfl
    · next hGo =>
      simp only [Bool.or_eq_true, not_or, Bool.not_eq_true, Bool.not_eq_false', beq_eq_false_iff_ne]
        at hGo
      obtain ⟨⟨⟨⟨hOn, -⟩, hEof⟩, hContains⟩, hFollows⟩ := hGo
      cases hPlace : i.skipPlace? s exits decision separator (i.tokens.size + 1)
          (s.position + 1) with
      | none => exact .inl rfl
      | some place =>
        obtain ⟨index, resumes⟩ := place
        exact .inr ⟨exits, index, resumes, hOn, rfl, hEof, hContains, hFollows,
          le_of_skipPlace? hPlace, rfl⟩

theorem resumesAt_of_skipPlace? {key : DecisionKey} {separator : Option TypeId} {exits : TokenSet}
    (hExits : i.grammar.analysis.repetitionExits.lookup key = some exits)
    {fuel start index : Nat} {resumes : Bool}
    (h : i.skipPlace? s exits (i.decisionAt? key) separator fuel start = some (index, resumes)) :
    i.ResumesAt key separator index := by
  induction fuel generalizing start with
  | zero => cases h
  | succ fuel ih =>
    rw [skipPlace?] at h
    simp only at h
    split at h
    · cases h
    · split at h
      · next hStop =>
        cases h
        rcases Bool.or_eq_true_iff.mp hStop with hContinues | hExit
        · exact .inl ((continues_congr rfl _ _).trans hContinues)
        · exact .inr ⟨exits, hExits, hExit⟩
      · split at h
        · cases h
        · exact ih h

theorem skipToNextIteration_resumes (i : Input α) (s : State) (key : DecisionKey)
    (separator : Option TypeId) :
    i.skipToNextIteration s key (i.decisionAt? key) separator = (s, false) ∨
    ∃ cause index resumes, i.ResumesAt key separator index ∧
      i.skipToNextIteration s key (i.decisionAt? key) separator =
        (State.resyncTo (i.recordError s cause).1 i s.errors.length index, resumes) := by
  unfold skipToNextIteration
  split
  · exact .inl rfl
  · next exits hExits =>
    simp only
    split
    · exact .inl rfl
    · split
      · exact .inl rfl
      · next index resumes hPlace =>
        exact .inr ⟨_, index, resumes, resumesAt_of_skipPlace? hExits hPlace, rfl⟩

theorem skipToNextIteration_unaided (h : i.recoveryEnabled s = false) (key : DecisionKey)
    (decision : Option Decision) (separator : Option TypeId) :
    i.skipToNextIteration s key decision separator = (s, false) := by
  rcases i.skipToNextIteration_cases s key decision separator with hSkip | ⟨_, _, _, hOn, -⟩
  · exact hSkip
  · exact absurd (h.symm.trans hOn) Bool.false_ne_true

end Input

end PredictiveParsing.Parse
