import PredictiveParsing.Proofs.Parse.Bound

/-!
# Runs that halt

A run halts if under some bound of nested steps it comes to an end, be it that an error interrupts
it. One rule for each way in which a run goes on: a run halts if its parts do, and the bounds of the
parts make a bound of the whole.
-/

namespace PredictiveParsing.Parse

def Outcome.Lands {β : Type} (o : Outcome β) (done : State → Prop)
    (stopped : Nat → State → Prop) : Prop :=
  match o with
  | .done _ s => done s
  | .interrupted error _ s => stopped error s
  | _ => False

namespace Outcome

variable {β γ : Type} {done done' : State → Prop} {stopped stopped' : Nat → State → Prop}

theorem Lands.mono {o : Outcome β} (h : o.Lands done stopped) (hDone : ∀ s, done s → done' s)
    (hStopped : ∀ e s, stopped e s → stopped' e s) : o.Lands done' stopped' := by
  cases o with
  | done b s => exact hDone s h
  | interrupted e b s => exact hStopped e s h
  | panicked why => exact h
  | outOfFuel => exact h

theorem Lands.and {o : Outcome β} (h : o.Lands done stopped) (h' : o.Ends done' stopped') :
    o.Lands (fun s => done s ∧ done' s) (fun e s => stopped e s ∧ stopped' e s) := by
  cases o with
  | done b s => exact ⟨h, h'⟩
  | interrupted e b s => exact ⟨h, h'⟩
  | panicked why => exact h
  | outOfFuel => exact h

theorem lands_finish {o : Outcome β} {f g : β → γ} :
    (o.finish f g).Lands done stopped ↔ o.Lands done stopped := by
  cases o with
  | done | interrupted | panicked | outOfFuel => rfl

theorem Lands.cases {o : Outcome β} (h : o.Lands done stopped) :
    (∃ b t, o = .done b t ∧ done t) ∨ ∃ e b t, o = .interrupted e b t ∧ stopped e t := by
  cases o with
  | done b t => exact .inl ⟨b, t, rfl, h⟩
  | interrupted e b t => exact .inr ⟨e, b, t, rfl, h⟩
  | panicked why => exact h.elim
  | outOfFuel => exact h.elim

theorem Below.of_lands {o o' : Outcome β} (h : o.Below o') (ho : o.Lands done stopped) :
    o' = o := by
  rcases h with rfl | rfl
  · exact ho.elim
  · rfl

end Outcome

def Halts {β : Type} (run : Nat → Outcome β) (done : State → Prop)
    (stopped : Nat → State → Prop) : Prop :=
  ∃ fuel, (run fuel).Lands done stopped

variable {α β γ : Type} {i : Input α} {run run' : Nat → Outcome β} {mid done done' : State → Prop}
  {stopped stopped' : Nat → State → Prop} {a : α} {s : State}

namespace Halts

theorem of_run (fuel : Nat) (h : (run fuel).Lands done stopped) : Halts run done stopped := ⟨fuel, h⟩

theorem exists_run (h : Halts run done stopped) : ∃ fuel, (run fuel).Lands done stopped := h

theorem mono (h : Halts run done stopped) (hDone : ∀ t, done t → done' t)
    (hStopped : ∀ e t, stopped e t → stopped' e t) : Halts run done' stopped' := by
  obtain ⟨fuel, h⟩ := h
  exact ⟨fuel, h.mono hDone hStopped⟩

theorem and (h : Halts run done stopped) (h' : ∀ fuel, (run fuel).Ends done' stopped') :
    Halts run (fun t => done t ∧ done' t) (fun e t => stopped e t ∧ stopped' e t) := by
  obtain ⟨fuel, h⟩ := h
  exact ⟨fuel, h.and (h' fuel)⟩

theorem step (h : Halts run done stopped) (hSucc : ∀ fuel, run' (fuel + 1) = run fuel) :
    Halts run' done stopped := by
  obtain ⟨fuel, h⟩ := h
  exact ⟨fuel + 1, by rwa [hSucc]⟩

theorem finish (h : Halts run done stopped) (f g : β → γ) :
    Halts (fun fuel => (run fuel).finish f g) done stopped := by
  obtain ⟨fuel, h⟩ := h
  exact ⟨fuel, Outcome.lands_finish.mpr h⟩

theorem of_done {b : β} {t : State} (h : done t) : Halts (fun _ => .done b t) done stopped :=
  ⟨0, h⟩

variable [Inhabited α]

theorem body_nil (h : done s) : Halts (fun fuel => i.runBody fuel [] a s) done stopped :=
  (of_done h).step fun fuel => by rw [Input.runBody]

theorem body_cons {op : Op α} {ops : List (Op α)}
    (hOp : Halts (fun fuel => i.runOp fuel op a s) mid stopped)
    (hOps : ∀ b t, mid t → Halts (fun fuel => i.runBody fuel ops b t) done stopped) :
    Halts (fun fuel => i.runBody fuel (op :: ops) a s) done stopped := by
  obtain ⟨n, hFirst⟩ := hOp.exists_run
  rcases hFirst.cases with ⟨b, t, hRun, ht⟩ | ⟨e, b, t, hRun, ht⟩
  · obtain ⟨n', hRest⟩ := (hOps b t ht).exists_run
    refine .of_run (max n n' + 1) ?_
    rw [Input.runBody, (runOp_below (Nat.le_max_left n n') op a s).of_done hRun]
    simp only
    rw [(runBody_below (Nat.le_max_right n n') ops b t).of_lands hRest]
    exact hRest
  · refine .of_run (n + 1) ?_
    rw [Input.runBody, hRun]
    exact ht

theorem consume {occurrence : Nat} {token : TypeId} {label : Option String} {act : Token → α → α}
    (h : (i.consume s occurrence token label).Lands done stopped) :
    Halts (fun fuel => i.runOp fuel (.consume occurrence token label act) a s) done stopped := by
  refine .of_run 1 ?_
  rw [Input.runOp_consume]
  exact Outcome.lands_finish.mpr h

theorem subrule {occurrence : Nat} {rule : String} {label : Option String} {act : α → α → α}
    {id : RuleId} (hName : i.grammar.ruleNamed? rule = some id)
    (h : Halts (fun fuel => i.invoke fuel id occurrence label s) done stopped) :
    Halts (fun fuel => i.runOp fuel (.subrule occurrence rule label act) a s) done stopped :=
  (h.finish (act · a) fun _ => a).step fun _ => Input.runOp_subrule hName

theorem option {occurrence : Nat} {body : List (Op α)} {act : Bool → α → α}
    (hEnter : i.enters s (i.decisionAt? (s.key .option occurrence)) = true →
      Halts (fun fuel => i.runBody fuel body a s) done stopped)
    (hSkip : i.enters s (i.decisionAt? (s.key .option occurrence)) = false → done s) :
    Halts (fun fuel => i.runOp fuel (.option occurrence body act) a s) done stopped := by
  cases he : i.enters s (i.decisionAt? (s.key .option occurrence)) with
  | true =>
    exact ((hEnter he).finish (act true) fun a => a).step fun _ => Input.runOp_option_taken he
  | false => exact (of_done (hSkip he)).step fun _ => Input.runOp_option_skipped he

theorem repetition {mandatory : Bool} {separator : Option TypeId} {occurrence : Nat}
    {body : List (Op α)} {act : α → α}
    (h : Halts (fun fuel => i.runLoop fuel ⟨s.key (.ofRepetition mandatory separator) occurrence,
      mandatory, separator, body⟩ true a s) done stopped) :
    Halts (fun fuel => i.runOp fuel (.repetition mandatory separator occurrence body act) a s)
      done stopped :=
  (h.finish act fun a => a).step fun _ => Input.runOp_repetition

theorem choice {occurrence : Nat} {branches : List (Branch (Op α))} {act : α → α → α}
    (hGates : ∃ fuel mask, i.askGates fuel (branches.map (·.gate)) s = .done mask s)
    (hTaken : ∀ mask branch, i.branchAt? s occurrence branches mask = some branch →
      Halts (fun fuel => i.runBody fuel branch.body default s) done stopped)
    (hNone : ∀ mask, i.branchAt? s occurrence branches mask = none → i.Fails s stopped) :
    Halts (fun fuel => i.runOp fuel (.choice occurrence branches act) a s) done stopped := by
  obtain ⟨n, mask, hAsked⟩ := hGates
  cases hBranch : i.branchAt? s occurrence branches mask with
  | none =>
    refine .of_run (n + 1) ?_
    rw [Input.runOp_choice_none hAsked hBranch]
    exact hNone mask hBranch _
  | some branch =>
    obtain ⟨n', hRun⟩ := (hTaken mask branch hBranch).exists_run
    have hAnswers := (askGates_below (Nat.le_max_left n n') (branches.map (·.gate)) s).of_done hAsked
    have hBody := (runBody_below (Nat.le_max_right n n') branch.body default s).of_lands hRun
    refine .of_run (max n n' + 1) ?_
    rw [Input.runOp_choice_taken hAnswers hBranch, hBody]
    exact Outcome.lands_finish.mpr hRun

theorem invoke {rule : RuleId} {occurrence : Nat} {label : Option String}
    (h : Halts (fun fuel => i.runBody fuel (i.grammar.body rule) default
        (i.enter s rule occurrence))
      (fun t => done (i.leave t rule label))
      (fun e t => i.overrun? t = none ∧
        if (i.recoverRule t e).2 then done (i.leave (i.recoverRule t e).1 rule label)
        else stopped e (i.leave (i.recoverRule t e).1 rule label))) :
    Halts (fun fuel => i.invoke fuel rule occurrence label s) done stopped := by
  obtain ⟨n, h⟩ := h.exists_run
  refine .of_run (n + 1) ?_
  rcases h.cases with ⟨b, t, hRun, ht⟩ | ⟨e, b, t, hRun, hInRange, ht⟩
  · rw [Input.invoke, hRun]
    exact ht
  · rw [Input.invoke, hRun]
    cases hRec : i.recoverRule t e with
    | mk u resynced =>
      rw [hRec] at ht
      cases resynced with
      | true =>
        rw [if_pos rfl] at ht
        simp only [hInRange, hRec]
        exact ht
      | false =>
        rw [if_neg (by simp)] at ht
        simp only [hInRange, hRec]
        exact ht

/-! ## Repetitions -/

section Loops

variable {loop : Input.Loop α}

theorem loop_first
    (hEnter : i.enters s (i.decisionAt? loop.key) = true →
      Halts (fun fuel => i.runIteration fuel loop a s) done stopped)
    (hSkip : i.enters s (i.decisionAt? loop.key) = false → loop.mandatory = false → done s)
    (hExit : i.enters s (i.decisionAt? loop.key) = false → loop.mandatory = true →
      i.Fails s stopped) :
    Halts (fun fuel => i.runLoop fuel loop true a s) done stopped := by
  cases he : i.enters s (i.decisionAt? loop.key) with
  | true => exact (hEnter he).step fun _ => Input.runLoop_entered he
  | false =>
    cases hm : loop.mandatory with
    | false => exact (of_done (hSkip he hm)).step fun _ => Input.runLoop_omitted he hm
    | true =>
      refine .of_run 1 ?_
      rw [Input.runLoop]
      simp only [if_true, he, hm, Bool.false_eq_true, if_false]
      exact hExit he hm _

theorem loop_later
    (hAgain : i.continues s (i.decisionAt? loop.key) loop.separator = true →
      Halts (fun fuel => i.runIteration fuel loop a (i.consumeSeparator s loop.separator))
        done stopped)
    (hSkip : i.continues s (i.decisionAt? loop.key) loop.separator = false →
      if (i.skipToNextIteration s loop.key (i.decisionAt? loop.key) loop.separator).2 then
        Halts (fun fuel => i.runLoop fuel loop false a
          (i.skipToNextIteration s loop.key (i.decisionAt? loop.key) loop.separator).1) done stopped
      else
        done (i.skipToNextIteration s loop.key (i.decisionAt? loop.key) loop.separator).1) :
    Halts (fun fuel => i.runLoop fuel loop false a s) done stopped := by
  cases hc : i.continues s (i.decisionAt? loop.key) loop.separator with
  | true => exact (hAgain hc).step fun _ => Input.runLoop_continued hc
  | false =>
    have h := hSkip hc
    cases hs : i.skipToNextIteration s loop.key (i.decisionAt? loop.key) loop.separator with
    | mk t again =>
      rw [hs] at h
      cases again with
      | true =>
        rw [if_pos rfl] at h
        refine Halts.step h fun _ => ?_
        rw [Input.runLoop]
        simp only [Bool.false_eq_true, if_false, hc, hs]
      | false =>
        rw [if_neg (by simp)] at h
        refine .of_run 1 ?_
        rw [Input.runLoop]
        simp only [Bool.false_eq_true, if_false, hc, hs]
        exact h

def GoesOn (i : Input α) (loop : Input.Loop α) (start : Nat) (done : State → Prop)
    (stopped : Nat → State → Prop) (t : State) : Prop :=
  if t.position = start then done t
  else ∀ b, Halts (fun fuel => i.runLoop fuel loop false b t) done stopped

/-- Some bound is enough for what comes after an iteration, and for the iteration too. -/
theorem GoesOn.lands {start : Nat} {t : State} (h : GoesOn i loop start done stopped t) (b : α)
    (n : Nat) : ∃ m ≥ n, (if t.position = start then Outcome.done b t
      else i.runLoop m loop false b t).Lands done stopped := by
  unfold GoesOn at h
  split
  · next hp =>
    rw [if_pos hp] at h
    exact ⟨n, Nat.le_refl n, h⟩
  · next hp =>
    rw [if_neg hp] at h
    obtain ⟨m, hRun⟩ := (h b).exists_run
    refine ⟨max n m, Nat.le_max_left n m, ?_⟩
    rw [(runLoop_below (Nat.le_max_right n m) loop false b t).of_lands hRun]
    exact hRun

theorem iteration
    (h : Halts (fun fuel => i.runBody fuel loop.body a s)
      (GoesOn i loop s.position done stopped)
      fun e t =>
        match i.resumeRepetition t loop.key (i.decisionAt? loop.key) loop.separator e with
        | .again u => GoesOn i loop s.position done stopped u
        | .exit u => done u
        | .failed u => stopped e u) :
    Halts (fun fuel => i.runIteration fuel loop a s) done stopped := by
  obtain ⟨n, h⟩ := h.exists_run
  rcases h.cases with ⟨b, t, hRun, ht⟩ | ⟨e, b, t, hRun, ht⟩
  · obtain ⟨m, hLe, hRest⟩ := GoesOn.lands ht b n
    refine .of_run (m + 1) ?_
    rw [Input.runIteration, (runBody_below hLe loop.body a s).of_done hRun]
    exact hRest
  · have hSame : ∀ m ≥ n, i.runBody m loop.body a s = .interrupted e b t := fun m hLe =>
      ((runBody_below hLe loop.body a s).of_lands h).trans hRun
    cases hRes : i.resumeRepetition t loop.key (i.decisionAt? loop.key) loop.separator e with
    | again u =>
      rw [hRes] at ht
      obtain ⟨m, hLe, hRest⟩ := GoesOn.lands ht b n
      refine .of_run (m + 1) ?_
      rw [Input.runIteration, hSame m hLe]
      simp only [hRes]
      exact hRest
    | exit u =>
      rw [hRes] at ht
      refine .of_run (n + 1) ?_
      rw [Input.runIteration, hRun]
      simp only [hRes]
      exact ht
    | failed u =>
      rw [hRes] at ht
      refine .of_run (n + 1) ?_
      rw [Input.runIteration, hRun]
      simp only [hRes]
      exact ht

end Loops

/-! ## Parses -/

theorem exists_parsed {rule : RuleId}
    (h : Halts (fun fuel => i.invoke fuel rule 0 none .initial) done stopped) :
    ∃ n output, ∀ fuel ≥ n, i.parseFrom fuel rule = .parsed output := by
  obtain ⟨n, hLands⟩ := h.exists_run
  rcases hLands.cases with ⟨a, t, hDone, -⟩ | ⟨e, a, t, hStopped, -⟩
  · refine ⟨n, i.finish a t, fun fuel hLe => parseFrom_of_le hLe ?_⟩
    rw [Input.parseFrom, hDone]
  · refine ⟨n, i.finish default t, fun fuel hLe => parseFrom_of_le hLe ?_⟩
    rw [Input.parseFrom, hStopped]

end Halts

end PredictiveParsing.Parse
