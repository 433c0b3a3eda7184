import PredictiveParsing.Parse.Run

/-!
# Rules for runs

One rule for each way in which a run goes on, with which a fact of all runs is proved by induction
on the bound of nested steps without looking into the functions that run. A rule asks for what
holds of the states in which the parts of a run end.
-/

namespace PredictiveParsing.Parse

/-- What holds of the state in which a run ends, normally or by an interruption. A run that leaves
no state has nothing to show. -/
def Outcome.Ends {β : Type} (o : Outcome β) (done : State → Prop)
    (stopped : Nat → State → Prop) : Prop :=
  match o with
  | .done _ s => done s
  | .interrupted error _ s => stopped error s
  | _ => True

namespace Outcome

variable {β : Type} {done done' : State → Prop} {stopped stopped' : Nat → State → Prop}

theorem Ends.mono {o : Outcome β} (h : o.Ends done stopped) (hDone : ∀ s, done s → done' s)
    (hStopped : ∀ e s, stopped e s → stopped' e s) : o.Ends done' stopped' := by
  cases o with
  | done b s => exact hDone s h
  | interrupted e b s => exact hStopped e s h
  | panicked why => trivial
  | outOfFuel => trivial

theorem Ends.and {o : Outcome β} (h : o.Ends done stopped) (h' : o.Ends done' stopped') :
    o.Ends (fun s => done s ∧ done' s) (fun e s => stopped e s ∧ stopped' e s) := by
  cases o with
  | done b s => exact ⟨h, h'⟩
  | interrupted e b s => exact ⟨h, h'⟩
  | panicked why => trivial
  | outOfFuel => trivial

variable {γ : Type}

def finish (f g : β → γ) : Outcome β → Outcome γ
  | .done b s => .done (f b) s
  | .interrupted error b s => .interrupted error (g b) s
  | .panicked why => .panicked why
  | .outOfFuel => .outOfFuel

theorem ends_finish {o : Outcome β} {f g : β → γ} :
    (o.finish f g).Ends done stopped ↔ o.Ends done stopped := by
  cases o with
  | done | interrupted | panicked | outOfFuel => rfl

end Outcome

namespace Input

variable {α : Type} {i : Input α} {fuel : Nat} {a : α} {s : State}
  {done : State → Prop} {stopped : Nat → State → Prop}

/-! ## Operations as runs of their parts -/

-- The equations of the functions that run, made once for all proofs.
attribute [local simp] runBody runOp invoke runLoop runIteration runTrial askGate askGates

section Equations

variable [Inhabited α] {occurrence : Nat} {label : Option String} {body : List (Op α)}

theorem runOp_consume {token : TypeId} {act : Token → α → α} :
    i.runOp (fuel + 1) (.consume occurrence token label act) a s =
      (i.consume s occurrence token label).finish (act · a) fun _ => a := by
  simp only [runOp]
  cases i.consume s occurrence token label <;> rfl

theorem runOp_subrule {rule : String} {act : α → α → α} {id : RuleId}
    (h : i.grammar.ruleNamed? rule = some id) :
    i.runOp (fuel + 1) (.subrule occurrence rule label act) a s =
      (i.invoke fuel id occurrence label s).finish (act · a) fun _ => a := by
  simp only [runOp, h]
  cases i.invoke fuel id occurrence label s <;> rfl

theorem runOp_subrule_unknown {rule : String} {act : α → α → α}
    (h : i.grammar.ruleNamed? rule = none) :
    i.runOp (fuel + 1) (.subrule occurrence rule label act) a s = .panicked (.unknownRule rule) := by
  simp only [runOp, h]

theorem runOp_option_taken {act : Bool → α → α}
    (h : i.enters s (i.decisionAt? (s.key .option occurrence)) = true) :
    i.runOp (fuel + 1) (.option occurrence body act) a s =
      (i.runBody fuel body a s).finish (act true) fun a => a := by
  simp only [runOp, h, if_true]
  cases i.runBody fuel body a s <;> rfl

theorem runOp_option_skipped {act : Bool → α → α}
    (h : i.enters s (i.decisionAt? (s.key .option occurrence)) = false) :
    i.runOp (fuel + 1) (.option occurrence body act) a s = .done (act false a) s := by
  simp only [runOp, h, Bool.false_eq_true, if_false]

theorem runOp_repetition {mandatory : Bool} {separator : Option TypeId} {act : α → α} :
    i.runOp (fuel + 1) (.repetition mandatory separator occurrence body act) a s =
      (i.runLoop fuel ⟨s.key (.ofRepetition mandatory separator) occurrence, mandatory, separator,
        body⟩ true a s).finish act fun a => a := by
  simp only [runOp]
  cases i.runLoop fuel ⟨s.key (.ofRepetition mandatory separator) occurrence, mandatory, separator,
    body⟩ true a s <;> rfl

def branchAt? (i : Input α) (s : State) (occurrence : Nat) (branches : List (Branch (Op α)))
    (mask : List Bool) : Option (Branch (Op α)) :=
  (i.chooseBranch s (s.key .or occurrence) branches.length
    (if branches.any (·.gate.isSome) then some mask else none)).bind fun index => branches[index]?

omit [Inhabited α] in
theorem mem_of_branchAt? {branches : List (Branch (Op α))} {mask : List Bool}
    {branch : Branch (Op α)} (h : i.branchAt? s occurrence branches mask = some branch) :
    branch ∈ branches := by
  obtain ⟨index, -, hIndex⟩ := Option.bind_eq_some_iff.mp h
  exact List.mem_of_getElem? hIndex

omit [Inhabited α] in
theorem branchAt?_plain {branches : List (Branch (Op α))} {decision : Decision} {occurrence : Nat}
    (hPlain : ∀ branch ∈ branches, branch.gate = none)
    (hDecision : i.decisionAt? (s.key .or occurrence) = some decision) (mask : List Bool) :
    i.branchAt? s occurrence branches mask =
      (decision.choose i.grammar.vocabulary (i.coming s) none).bind (branches[·]?) := by
  have hGates : branches.any (·.gate.isSome) = false := by
    rw [List.any_eq_false]
    intro branch hBranch
    simp [hPlain branch hBranch]
  simp only [branchAt?, hGates, Bool.false_eq_true, if_false, chooseBranch, hDecision,
    Option.bind_some]
  cases hChosen : decision.choose i.grammar.vocabulary (i.coming s) none with
  | none => rfl
  | some n =>
    by_cases hLt : n < branches.length
    · simp [Option.filter, hLt]
    · simp [Option.filter, hLt]

theorem runOp_choice_taken {branches : List (Branch (Op α))} {act : α → α → α} {mask : List Bool}
    {branch : Branch (Op α)} (hGates : i.askGates fuel (branches.map (·.gate)) s = .done mask s)
    (hBranch : i.branchAt? s occurrence branches mask = some branch) :
    i.runOp (fuel + 1) (.choice occurrence branches act) a s =
      (i.runBody fuel branch.body default s).finish (act · a) fun _ => a := by
  rw [branchAt?] at hBranch
  simp only [runOp, hGates, hBranch]
  cases i.runBody fuel branch.body default s <;> rfl

theorem runOp_choice_none {branches : List (Branch (Op α))} {act : α → α → α} {mask : List Bool}
    (hGates : i.askGates fuel (branches.map (·.gate)) s = .done mask s)
    (hBranch : i.branchAt? s occurrence branches mask = none) :
    i.runOp (fuel + 1) (.choice occurrence branches act) a s =
      .interrupted s.errors.length a (i.recordError s
        (.noViableAlternative (expectedPaths (i.decisionAt? (s.key .or occurrence))))).1 := by
  rw [branchAt?] at hBranch
  simp only [runOp, hGates, hBranch]
  rfl

theorem runOp_trial {rule : String} {act : Bool → α → α} :
    i.runOp (fuel + 1) (.trial rule act) a s =
      (i.runTrial fuel rule s).finish (act · a) fun _ => a := by
  simp only [runOp]
  cases i.runTrial fuel rule s <;> rfl

section Loops

variable {loop : Loop α}

theorem runLoop_entered (h : i.enters s (i.decisionAt? loop.key) = true) :
    i.runLoop (fuel + 1) loop true a s = i.runIteration fuel loop a s := by
  simp only [runLoop, h, if_true]

theorem runLoop_omitted (h : i.enters s (i.decisionAt? loop.key) = false)
    (hOptional : loop.mandatory = false) : i.runLoop (fuel + 1) loop true a s = .done a s := by
  simp only [runLoop, h, hOptional, if_true, Bool.false_eq_true, if_false]

theorem runLoop_continued
    (h : i.continues s (i.decisionAt? loop.key) loop.separator = true) :
    i.runLoop (fuel + 1) loop false a s =
      i.runIteration fuel loop a (i.consumeSeparator s loop.separator) := by
  simp only [runLoop, h, if_true, Bool.false_eq_true, if_false]

theorem runLoop_left (h : i.continues s (i.decisionAt? loop.key) loop.separator = false)
    (hSkip : i.skipToNextIteration s loop.key (i.decisionAt? loop.key) loop.separator =
      (s, false)) : i.runLoop (fuel + 1) loop false a s = .done a s := by
  simp only [runLoop, h, hSkip, Bool.false_eq_true, if_false]

end Loops

theorem askGates_plain {gates : List (Option Gate)} (h : ∀ gate ∈ gates, gate = none) :
    i.askGates (gates.length + 1) gates s = .done (gates.map fun _ => true) s := by
  induction gates with
  | nil => rw [List.length_nil, askGates, List.map_nil]
  | cons gate gates ih =>
    obtain ⟨rfl, hRest⟩ := List.forall_mem_cons.mp h
    rw [List.length_cons, askGates, ih hRest, List.map_cons]

end Equations

def Fails (i : Input α) (s : State) (stopped : Nat → State → Prop) : Prop :=
  ∀ cause, stopped (i.recordError s cause).2 (i.recordError s cause).1

/-- An error of a rule at the next token, any but the one for tokens that are left over. -/
def FailsInside (i : Input α) (s : State) (stopped : Nat → State → Prop) : Prop :=
  ∀ cause, cause ≠ .notAllInputParsed → stopped (i.recordError s cause).2 (i.recordError s cause).1

theorem Fails.inside (h : i.Fails s stopped) : i.FailsInside s stopped := fun cause _ => h cause

variable [Inhabited α]

theorem ends_runBody_nil (h : done s) : (i.runBody (fuel + 1) [] a s).Ends done stopped := h

theorem ends_runBody_cons {op : Op α} {ops : List (Op α)}
    (h : (i.runOp fuel op a s).Ends
      (fun t => ∀ b, (i.runBody fuel ops b t).Ends done stopped) stopped) :
    (i.runBody (fuel + 1) (op :: ops) a s).Ends done stopped := by
  rw [runBody]
  cases hr : i.runOp fuel op a s with
  | done b t => rw [hr] at h; exact h b
  | interrupted e b t => rw [hr] at h; exact h
  | panicked why => trivial
  | outOfFuel => trivial

theorem ends_consume {occurrence : Nat} {token : TypeId} {label : Option String}
    {act : Token → α → α} (h : (i.consume s occurrence token label).Ends done stopped) :
    (i.runOp (fuel + 1) (.consume occurrence token label act) a s).Ends done stopped := by
  rw [runOp_consume]
  exact Outcome.ends_finish.mpr h

theorem ends_subrule {occurrence : Nat} {rule : String} {label : Option String} {act : α → α → α}
    (h : ∀ id, i.grammar.ruleNamed? rule = some id →
      (i.invoke fuel id occurrence label s).Ends done stopped) :
    (i.runOp (fuel + 1) (.subrule occurrence rule label act) a s).Ends done stopped := by
  cases hn : i.grammar.ruleNamed? rule with
  | none =>
    rw [runOp_subrule_unknown hn]
    trivial
  | some id =>
    rw [runOp_subrule hn]
    exact Outcome.ends_finish.mpr (h id hn)

theorem ends_option {occurrence : Nat} {body : List (Op α)} {act : Bool → α → α}
    (hEnter : i.enters s (i.decisionAt? (s.key .option occurrence)) = true →
      (i.runBody fuel body a s).Ends done stopped)
    (hSkip : i.enters s (i.decisionAt? (s.key .option occurrence)) = false → done s) :
    (i.runOp (fuel + 1) (.option occurrence body act) a s).Ends done stopped := by
  cases he : i.enters s (i.decisionAt? (s.key .option occurrence)) with
  | false =>
    rw [runOp_option_skipped he]
    exact hSkip he
  | true =>
    rw [runOp_option_taken he]
    exact Outcome.ends_finish.mpr (hEnter he)

theorem ends_repetition {mandatory : Bool} {separator : Option TypeId} {occurrence : Nat}
    {body : List (Op α)} {act : α → α}
    (h : (i.runLoop fuel ⟨s.key (.ofRepetition mandatory separator) occurrence, mandatory,
      separator, body⟩ true a s).Ends done stopped) :
    (i.runOp (fuel + 1) (.repetition mandatory separator occurrence body act) a s).Ends
      done stopped := by
  rw [runOp_repetition]
  exact Outcome.ends_finish.mpr h

theorem ends_choice_inside {occurrence : Nat} {branches : List (Branch (Op α))} {act : α → α → α}
    (h : (i.askGates fuel (branches.map (·.gate)) s).Ends
      (fun t => (∀ branch ∈ branches, ∀ b, (i.runBody fuel branch.body b t).Ends done stopped) ∧
        i.FailsInside t stopped) stopped) :
    (i.runOp (fuel + 1) (.choice occurrence branches act) a s).Ends done stopped := by
  simp only [runOp]
  cases hg : i.askGates fuel (branches.map (·.gate)) s with
  | done mask t =>
    rw [hg] at h
    simp only
    split
    · rename_i branch hb
      obtain ⟨index, -, hIndex⟩ := Option.bind_eq_some_iff.mp hb
      have h := h.1 branch (List.mem_of_getElem? hIndex) default
      cases hr : i.runBody fuel branch.body default t with
      | done b u => rw [hr] at h; exact h
      | interrupted e b u => rw [hr] at h; exact h
      | panicked why => trivial
      | outOfFuel => trivial
    · exact h.2 _ nofun
  | interrupted e b t => rw [hg] at h; exact h
  | panicked why => trivial
  | outOfFuel => trivial

theorem ends_choice {occurrence : Nat} {branches : List (Branch (Op α))} {act : α → α → α}
    (h : (i.askGates fuel (branches.map (·.gate)) s).Ends
      (fun t => (∀ branch ∈ branches, ∀ b, (i.runBody fuel branch.body b t).Ends done stopped) ∧
        i.Fails t stopped) stopped) :
    (i.runOp (fuel + 1) (.choice occurrence branches act) a s).Ends done stopped :=
  ends_choice_inside (h.mono (fun _ ht => ⟨ht.1, ht.2.inside⟩) fun _ _ => id)

theorem ends_peek {distance : Nat} {act : Token → α → α} (h : done s) :
    (i.runOp (fuel + 1) (.peek distance act) a s).Ends done stopped := h

theorem ends_trial {rule : String} {act : Bool → α → α}
    (h : (i.runTrial fuel rule s).Ends done stopped) :
    (i.runOp (fuel + 1) (.trial rule act) a s).Ends done stopped := by
  rw [runOp_trial]
  exact Outcome.ends_finish.mpr h

theorem ends_whenParsing {body : List (Op α)} (h : (i.runBody fuel body a s).Ends done stopped) :
    (i.runOp (fuel + 1) (.whenParsing body) a s).Ends done stopped := h

theorem ends_whenRecording {body : List (Op α)} (h : done s) :
    (i.runOp (fuel + 1) (.whenRecording body) a s).Ends done stopped := h

theorem ends_attempt {body : List (Op α)} {act : Bool → α → α}
    (h : (i.runBody fuel body a s).Ends done fun _ => done) :
    (i.runOp (fuel + 1) (.attempt body act) a s).Ends done stopped := by
  simp only [runOp]
  cases hr : i.runBody fuel body a s with
  | done b t => rw [hr] at h; exact h
  | interrupted e b t => rw [hr] at h; exact h
  | panicked why => trivial
  | outOfFuel => trivial

theorem ends_invoke {rule : RuleId} {occurrence : Nat} {label : Option String}
    (h : (i.runBody fuel (i.grammar.body rule) default (i.enter s rule occurrence)).Ends
      (fun t => done (i.leave t rule label))
      (fun e t => if (i.recoverRule t e).2 then done (i.leave (i.recoverRule t e).1 rule label)
        else stopped e (i.leave (i.recoverRule t e).1 rule label))) :
    (i.invoke (fuel + 1) rule occurrence label s).Ends done stopped := by
  rw [invoke]
  cases hr : i.runBody fuel (i.grammar.body rule) default (i.enter s rule occurrence) with
  | done b t => rw [hr] at h; exact h
  | interrupted e b t =>
    rw [hr] at h
    simp only [Outcome.Ends] at h ⊢
    cases i.overrun? t with
    | some index => trivial
    | none =>
      cases hRec : i.recoverRule t e with
      | mk u resynced =>
        rw [hRec] at h
        cases resynced with
        | true => simpa using h
        | false => simpa using h
  | panicked why => trivial
  | outOfFuel => trivial

theorem ends_runLoop_first_inside {loop : Loop α}
    (hEnter : i.enters s (i.decisionAt? loop.key) = true →
      (i.runIteration fuel loop a s).Ends done stopped)
    (hSkip : i.enters s (i.decisionAt? loop.key) = false → loop.mandatory = false → done s)
    (hExit : i.enters s (i.decisionAt? loop.key) = false → i.FailsInside s stopped) :
    (i.runLoop (fuel + 1) loop true a s).Ends done stopped := by
  rw [runLoop]
  simp only [if_true]
  cases he : i.enters s (i.decisionAt? loop.key) with
  | true => exact hEnter he
  | false =>
    cases hm : loop.mandatory with
    | false => exact hSkip he hm
    | true => exact hExit he _ nofun

theorem ends_runLoop_first {loop : Loop α}
    (hEnter : i.enters s (i.decisionAt? loop.key) = true →
      (i.runIteration fuel loop a s).Ends done stopped)
    (hSkip : i.enters s (i.decisionAt? loop.key) = false → loop.mandatory = false → done s)
    (hExit : i.enters s (i.decisionAt? loop.key) = false → i.Fails s stopped) :
    (i.runLoop (fuel + 1) loop true a s).Ends done stopped :=
  ends_runLoop_first_inside hEnter hSkip fun he => (hExit he).inside

theorem ends_runLoop_later {loop : Loop α}
    (hAgain : i.continues s (i.decisionAt? loop.key) loop.separator = true →
      (i.runIteration fuel loop a (i.consumeSeparator s loop.separator)).Ends done stopped)
    (hSkip : i.continues s (i.decisionAt? loop.key) loop.separator = false →
      if (i.skipToNextIteration s loop.key (i.decisionAt? loop.key) loop.separator).2 then
        (i.runLoop fuel loop false a
          (i.skipToNextIteration s loop.key (i.decisionAt? loop.key) loop.separator).1).Ends
            done stopped
      else
        done (i.skipToNextIteration s loop.key (i.decisionAt? loop.key) loop.separator).1) :
    (i.runLoop (fuel + 1) loop false a s).Ends done stopped := by
  rw [runLoop]
  simp only [Bool.false_eq_true, if_false]
  cases hc : i.continues s (i.decisionAt? loop.key) loop.separator with
  | true => exact hAgain hc
  | false =>
    have h := hSkip hc
    simp only [Bool.false_eq_true, if_false]
    cases hs : i.skipToNextIteration s loop.key (i.decisionAt? loop.key) loop.separator with
    | mk t again =>
      rw [hs] at h
      cases again with
      | true => simp only [if_true] at h ⊢; exact h
      | false => simp only [Bool.false_eq_true, if_false] at h; exact h

def GoesOn (i : Input α) (fuel : Nat) (loop : Loop α) (start : Nat) (done : State → Prop)
    (stopped : Nat → State → Prop) (t : State) : Prop :=
  if t.position = start then done t
  else ∀ b, (i.runLoop fuel loop false b t).Ends done stopped

theorem GoesOn.ends {loop : Loop α} {start : Nat} {t : State}
    (h : i.GoesOn fuel loop start done stopped t) (b : α) :
    (if t.position = start then Outcome.done b t else i.runLoop fuel loop false b t).Ends
      done stopped := by
  unfold GoesOn at h
  split
  · next hp => rw [if_pos hp] at h; exact h
  · next hp => rw [if_neg hp] at h; exact h b

theorem ends_runIteration {loop : Loop α}
    (h : (i.runBody fuel loop.body a s).Ends (i.GoesOn fuel loop s.position done stopped)
      fun e t =>
        match i.resumeRepetition t loop.key (i.decisionAt? loop.key) loop.separator e with
        | .again u => i.GoesOn fuel loop s.position done stopped u
        | .exit u => done u
        | .failed u => stopped e u) :
    (i.runIteration (fuel + 1) loop a s).Ends done stopped := by
  rw [runIteration]
  cases hr : i.runBody fuel loop.body a s with
  | done b t => rw [hr] at h; exact h.ends b
  | interrupted e b t =>
    rw [hr] at h
    simp only [Outcome.Ends] at h ⊢
    cases hRes : i.resumeRepetition t loop.key (i.decisionAt? loop.key) loop.separator e with
    | again u => rw [hRes] at h; exact GoesOn.ends h b
    | exit u => rw [hRes] at h; exact h
    | failed u => rw [hRes] at h; exact h
  | panicked why => trivial
  | outOfFuel => trivial

theorem ends_runTrial {rule : String} (hNone : i.grammar.ruleNamed? rule = none → done s)
    (h : ∀ id, i.grammar.ruleNamed? rule = some id →
      (i.invoke fuel id 0 none (i.beginTrial s)).Ends (fun t => done (t.endTrial s.mark))
        fun _ t => done (t.endTrial s.mark)) :
    (i.runTrial (fuel + 1) rule s).Ends done stopped := by
  rw [runTrial]
  cases hn : i.grammar.ruleNamed? rule with
  | none => exact hNone hn
  | some id =>
    have h := h id hn
    simp only
    cases hr : i.invoke fuel id 0 none (i.beginTrial s) with
    | done b t => rw [hr] at h; exact h
    | interrupted e b t => rw [hr] at h; exact h
    | panicked why => trivial
    | outOfFuel => trivial

end Input

end PredictiveParsing.Parse
