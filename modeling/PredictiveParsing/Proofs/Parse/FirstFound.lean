import PredictiveParsing.Proofs.Parse.FrameOfRun

/-!
# The first error

Recovery adds skipped tokens to errors but neither removes an error nor moves it, so the token of
the first one stays what it is.
-/

namespace PredictiveParsing.Parse

variable {α : Type} {i : Input α} {s t : State} {x : Token}

def FirstAt (x : Token) (s : State) : Prop := s.errors.head?.map (·.token) = some x

theorem FirstAt.of_found (h : FirstAt x s) (hFound : s.errors.map bare <+: t.errors.map bare) :
    FirstAt x t := by
  unfold FirstAt at h ⊢
  cases hs : s.errors with
  | nil => simp [hs] at h
  | cons e errors =>
    obtain ⟨later, hLater⟩ := hFound
    cases ht : t.errors with
    | nil => simp [hs, ht] at hLater
    | cons e' errors' =>
      rw [hs, ht, List.map_cons, List.map_cons, List.cons_append] at hLater
      have hBare : bare e = bare e' := (List.cons.inj hLater).1
      have hToken : (bare e).token = (bare e').token := congrArg _ hBare
      rw [hs] at h
      exact (congrArg some hToken.symm).trans h

theorem FirstAt.congr (h : FirstAt x s) (hSame : t.errors.map bare = s.errors.map bare) :
    FirstAt x t := h.of_found (hSame ▸ List.prefix_rfl)

theorem firstAt_recordError (hNone : s.errors = []) (cause : RecognitionCause) :
    FirstAt (i.next s) (i.recordError s cause).1 := by
  simp [FirstAt, Input.recordError, hNone]

theorem map_bare_resyncTo (s : State) (error index : Nat) :
    (s.resyncTo i error index).errors.map bare = s.errors.map bare :=
  map_bare_modify s.errors error _

theorem map_bare_recoverRule (t : State) (error : Nat) :
    (i.recoverRule t error).1.errors.map bare = t.errors.map bare := by
  have hMark : t.markRecovered.errors = t.errors := by
    unfold State.markRecovered State.updateNode
    split <;> rfl
  rcases i.recoverRule_cases t error with ⟨index, -, -, hRec⟩ | ⟨-, -, -, hRec⟩ | ⟨-, hRec⟩
  · rw [hRec, map_bare_resyncTo, hMark]
  · rw [hRec, hMark]
  · rw [hRec, hMark]

theorem firstAt_preserved : Preserved i (fun s t => FirstAt x s → FirstAt x t)
    (fun s _ t => FirstAt x s → FirstAt x t) where
  refl _ := id
  trans h h' hs := h' (h hs)
  trans_stopped h h' hs := h' (h hs)
  attempt h := h
  consume s occurrence expected label :=
    (frame_consume s occurrence expected label).mono (fun _ hFrame hs => hs.of_found hFrame.found)
      fun _ _ hStopped hs => hs.of_found hStopped.1.found
  fails s cause hs := hs.of_found (frame_recordError (i := i) cause).found
  separator s decision separator _ hs := hs.of_found (frame_consumeSeparator separator).found
  skip s key decision separator hs :=
    hs.of_found (frame_skipToNextIteration key decision separator).found
  resume := by
    intro s e t h key decision separator
    rcases i.resumeRepetition_cases t key decision separator e with hRes |
      ⟨index, -, -, ⟨-, hRes⟩ | hRes⟩
    · rw [hRes]
      exact h
    · rw [hRes]
      exact fun hs => (h hs).congr (map_bare_resyncTo t e index)
    · rw [hRes]
      exact fun hs => (h hs).congr (map_bare_resyncTo t e index)
  leave h label hs := (h hs).congr (by rw [errors_leave])
  recover := by
    intro s rule occurrence e t h label
    have hLeft : FirstAt x s → FirstAt x (i.leave (i.recoverRule t e).1 rule label) :=
      fun hs => (h hs).congr (by rw [errors_leave, map_bare_recoverRule])
    split
    · exact hLeft
    · exact hLeft
  trial := by
    intro s t h hs
    have ht := h hs
    have hLength : s.errors.length ≠ 0 := by
      intro hZero
      simp [FirstAt, List.eq_nil_of_length_eq_zero hZero] at hs
    simpa [FirstAt, State.endTrial, State.restore, State.mark, List.head?_take, hLength] using ht

abbrev Outcome.Reports {β : Type} (o : Outcome β) (x : Token) : Prop :=
  o.Ends (FirstAt x) fun _ => FirstAt x

theorem reports_consume (hNone : s.errors = []) {token : TypeId}
    (hMismatch : i.isMatch (i.next s).kind token = false) (occurrence : Nat)
    (label : Option String) : (i.consume s occurrence token label).Reports (i.next s) := by
  have hRecord := firstAt_recordError (i := i) hNone (.mismatchedToken token)
  have hAdded : ∀ t x, FirstAt (i.next s) t →
      FirstAt (i.next s) (i.addToken t.markRecovered label token x) := fun t x ht =>
    ht.of_found (frame_markRecovered.trans (frame_addToken (i := i) label token x)).found
  simp only [Input.consume, hMismatch, Bool.false_eq_true, if_false]
  split
  · next x t hRecovered =>
    split at hRecovered
    · rcases Input.recoverToken?_cases hRecovered with ⟨-, rfl⟩ | ⟨-, -, -, rfl⟩
      · exact hAdded _ _ hRecord
      · exact hAdded _ _ (hRecord.congr (map_bare_modify _ _ _))
    · cases hRecovered
  · exact hRecord

variable [Inhabited α] {fuel : Nat} {a : α}

theorem reports_of_firstAt {β : Type} {o : Outcome β}
    (h : o.Ends (fun t => FirstAt x s → FirstAt x t) fun _ t => FirstAt x s → FirstAt x t)
    (hs : FirstAt x s) : o.Reports x := h.mono (fun _ ht => ht hs) fun _ _ ht => ht hs

theorem reports_runBody {op : Op α} {ops : List (Op α)} (h : (i.runOp fuel op a s).Reports x) :
    (i.runBody (fuel + 1) (op :: ops) a s).Reports x := by
  apply Input.ends_runBody_cons
  exact h.mono (fun t ht b => reports_of_firstAt ((firstAt_preserved.within fuel).body ops b t) ht)
    fun _ _ => id

theorem reports_invoke {rule : RuleId} {occurrence : Nat} {label : Option String}
    (h : (i.runBody fuel (i.grammar.body rule) default (i.enter s rule occurrence)).Reports x) :
    (i.invoke (fuel + 1) rule occurrence label s).Reports x := by
  have hLeft : ∀ t, FirstAt x t → FirstAt x (i.leave t rule label) :=
    fun t ht => ht.congr (by rw [errors_leave])
  apply Input.ends_invoke
  refine h.mono hLeft fun e t ht => ?_
  have hRecovered := hLeft _ (ht.congr (map_bare_recoverRule (i := i) t e))
  split
  · exact hRecovered
  · exact hRecovered

theorem reports_runIteration {loop : Input.Loop α}
    (h : (i.runBody fuel loop.body a s).Reports x) :
    (i.runIteration (fuel + 1) loop a s).Reports x := by
  have goesOn : ∀ t, FirstAt x t →
      i.GoesOn fuel loop s.position (FirstAt x) (fun _ => FirstAt x) t := by
    intro t ht
    unfold Input.GoesOn
    split
    · exact ht
    · exact fun b => reports_of_firstAt ((firstAt_preserved.within fuel).loop loop false b t) ht
  apply Input.ends_runIteration
  refine h.mono goesOn fun e t ht => ?_
  have hResume := (firstAt_preserved (i := i) (x := x)).resume (s := t) (e := e) (t := t) id
    loop.key (i.decisionAt? loop.key) loop.separator
  cases hRes : i.resumeRepetition t loop.key (i.decisionAt? loop.key) loop.separator e with
  | again u => rw [hRes] at hResume; exact goesOn u (hResume ht)
  | exit u => rw [hRes] at hResume; exact hResume ht
  | failed u => rw [hRes] at hResume; exact hResume ht

theorem reports_skipped {loop : Input.Loop α} {skipped : State × Bool} (h : FirstAt x skipped.1) :
    Outcome.Reports (match skipped with
      | (t, true) => i.runLoop fuel loop false a t
      | (t, false) => .done a t) x := by
  obtain ⟨t, again⟩ := skipped
  cases again with
  | true => exact reports_of_firstAt ((firstAt_preserved.within fuel).loop loop false a t) h
  | false => exact h

end PredictiveParsing.Parse
