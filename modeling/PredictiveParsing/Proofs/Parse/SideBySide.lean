import PredictiveParsing.Proofs.Grammar.Renaming
import PredictiveParsing.Proofs.Parse.FrameOfRun

/-!
# Runs side by side

Two runs that begin in states alike take the same steps and end alike if the single steps do. The
grammars may number their rules differently, and the second run may have more nested steps to take
than the first one.
-/

namespace PredictiveParsing.Parse

variable {α β γ : Type} {σ : RuleId → RuleId} {i i' : Input α}

/-! ## Outcomes -/

/-- Outcomes with the same values and errors, in states alike. A run that is out of steps tells of
the other one only if the bounds are the same. -/
inductive Outcome.Paired (sameBound : Prop) (alike : State → State → Prop) :
    Outcome β → Outcome β → Prop
  | done {b t v} (h : alike t v) : Paired sameBound alike (.done b t) (.done b v)
  | interrupted {e b t v} (h : alike t v) :
    Paired sameBound alike (.interrupted e b t) (.interrupted e b v)
  | panicked {why} : Paired sameBound alike (.panicked why) (.panicked why)
  | outOfFuel {o} (h : sameBound → o = .outOfFuel) : Paired sameBound alike .outOfFuel o

theorem Outcome.Paired.mono {p q : Prop} {alike : State → State → Prop} {o o' : Outcome β}
    (h : o.Paired p alike o') (hSame : q → p) : o.Paired q alike o' := by
  cases h with
  | done h => exact .done h
  | interrupted h => exact .interrupted h
  | panicked => exact .panicked
  | outOfFuel h => exact .outOfFuel (h ∘ hSame)

inductive Input.Resumption.Paired (alike : State → State → Prop) : Resumption → Resumption → Prop
  | again {t v} (h : alike t v) : Paired alike (.again t) (.again v)
  | exit {t v} (h : alike t v) : Paired alike (.exit t) (.exit v)
  | failed {t v} (h : alike t v) : Paired alike (.failed t) (.failed v)

structure Outcome.Relation where
  Holds {β : Type} : Outcome β → Outcome β → Prop
  finish {β γ : Type} {o o' : Outcome β} (h : Holds o o') (f g : β → γ) :
    Holds (o.finish f g) (o'.finish f g)

def Outcome.Relation.paired (sameBound : Prop) (alike : State → State → Prop) :
    Outcome.Relation where
  Holds := Outcome.Paired sameBound alike
  finish h f g := by
    cases h with
    | done h => exact .done h
    | interrupted h => exact .interrupted h
    | panicked => exact .panicked
    | outOfFuel h => exact .outOfFuel fun hSame => by rw [h hSame]; rfl

def Input.Loop.rename (σ : RuleId → RuleId) (loop : Loop α) : Loop α :=
  { loop with key := loop.key.rename σ }

section Loops

variable (σ : RuleId → RuleId) (loop : Input.Loop α)

theorem key_renameLoop : (loop.rename σ).key = loop.key.rename σ := rfl

theorem separator_renameLoop : (loop.rename σ).separator = loop.separator := rfl

theorem body_renameLoop : (loop.rename σ).body = loop.body := rfl

end Loops

/-! ## Rules for two runs -/

namespace Input

variable [Inhabited α] (R : Outcome.Relation) {fuel fuel' occurrence : Nat} {a : α} {s u : State}
  {body : List (Op α)} {label : Option String}

include R

theorem related_consume {token : TypeId} {act : Token → α → α}
    (h : R.Holds (i.consume s occurrence token label) (i'.consume u occurrence token label)) :
    R.Holds (i.runOp (fuel + 1) (.consume occurrence token label act) a s)
      (i'.runOp (fuel' + 1) (.consume occurrence token label act) a u) := by
  rw [runOp_consume, runOp_consume]
  exact R.finish h _ _

theorem related_subrule {rule : String} {act : α → α → α}
    (hNamed : i'.grammar.ruleNamed? rule = (i.grammar.ruleNamed? rule).map σ)
    (hUnknown : R.Holds (.panicked (.unknownRule rule) : Outcome α) (.panicked (.unknownRule rule)))
    (h : ∀ id, i.grammar.ruleNamed? rule = some id →
      R.Holds (i.invoke fuel id occurrence label s) (i'.invoke fuel' (σ id) occurrence label u)) :
    R.Holds (i.runOp (fuel + 1) (.subrule occurrence rule label act) a s)
      (i'.runOp (fuel' + 1) (.subrule occurrence rule label act) a u) := by
  cases hRule : i.grammar.ruleNamed? rule with
  | none =>
    rw [hRule] at hNamed
    rw [runOp_subrule_unknown hRule, runOp_subrule_unknown hNamed]
    exact hUnknown
  | some id =>
    rw [hRule] at hNamed
    rw [runOp_subrule hRule, runOp_subrule hNamed]
    exact R.finish (h id hRule) _ _

theorem related_option {act : Bool → α → α}
    (hSame : i'.enters u (i'.decisionAt? (u.key .option occurrence)) =
      i.enters s (i.decisionAt? (s.key .option occurrence)))
    (hTaken : R.Holds (i.runBody fuel body a s) (i'.runBody fuel' body a u))
    (hSkipped : R.Holds (.done (act false a) s) (.done (act false a) u)) :
    R.Holds (i.runOp (fuel + 1) (.option occurrence body act) a s)
      (i'.runOp (fuel' + 1) (.option occurrence body act) a u) := by
  cases hEnter : i.enters s (i.decisionAt? (s.key .option occurrence)) with
  | true =>
    rw [runOp_option_taken hEnter, runOp_option_taken (hSame.trans hEnter)]
    exact R.finish hTaken _ _
  | false =>
    rw [runOp_option_skipped hEnter, runOp_option_skipped (hSame.trans hEnter)]
    exact hSkipped

theorem related_repetition {mandatory : Bool} {separator : Option TypeId} {act : α → α}
    (hKey : u.key (.ofRepetition mandatory separator) occurrence =
      (s.key (.ofRepetition mandatory separator) occurrence).rename σ)
    (h : ∀ loop : Loop α,
      loop = ⟨s.key (.ofRepetition mandatory separator) occurrence, mandatory, separator, body⟩ →
        R.Holds (i.runLoop fuel loop true a s) (i'.runLoop fuel' (loop.rename σ) true a u)) :
    R.Holds (i.runOp (fuel + 1) (.repetition mandatory separator occurrence body act) a s)
      (i'.runOp (fuel' + 1) (.repetition mandatory separator occurrence body act) a u) := by
  rw [runOp_repetition, runOp_repetition, hKey]
  exact R.finish (h _ rfl) _ _

theorem related_trial {rule : String} {act : Bool → α → α}
    (h : R.Holds (i.runTrial fuel rule s) (i'.runTrial fuel' rule u)) :
    R.Holds (i.runOp (fuel + 1) (.trial rule act) a s)
      (i'.runOp (fuel' + 1) (.trial rule act) a u) := by
  rw [runOp_trial, runOp_trial]
  exact R.finish h _ _

variable {loop : Loop α}

theorem related_runLoop_first
    (hSame : i'.enters u (i'.decisionAt? (loop.key.rename σ)) =
      i.enters s (i.decisionAt? loop.key))
    (hEntered : R.Holds (i.runIteration fuel loop a s) (i'.runIteration fuel' (loop.rename σ) a u))
    (hFails : ∀ cause, R.Holds
      (.interrupted (i.recordError s cause).2 a (i.recordError s cause).1)
      (.interrupted (i'.recordError u cause).2 a (i'.recordError u cause).1))
    (hDecision : i'.decisionAt? (loop.key.rename σ) = i.decisionAt? loop.key)
    (hOmitted : R.Holds (.done a s) (.done a u)) :
    R.Holds (i.runLoop (fuel + 1) loop true a s)
      (i'.runLoop (fuel' + 1) (loop.rename σ) true a u) := by
  have hKind : (loop.key.rename σ).kind = loop.key.kind := rfl
  have hOccurrence : (loop.key.rename σ).occurrence = loop.key.occurrence := rfl
  rw [runLoop, runLoop]
  simp only [Loop.rename, hDecision, hKind, hOccurrence, if_true] at hSame hEntered ⊢
  rw [hSame]
  split
  · exact hEntered
  · split
    · exact hFails _
    · exact hOmitted

theorem related_runLoop_later
    (hDecision : i'.decisionAt? (loop.key.rename σ) = i.decisionAt? loop.key)
    (hSame : i'.continues u (i.decisionAt? loop.key) loop.separator =
      i.continues s (i.decisionAt? loop.key) loop.separator)
    (hAgain : i.continues s (i.decisionAt? loop.key) loop.separator = true →
      R.Holds (i.runIteration fuel loop a (i.consumeSeparator s loop.separator))
        (i'.runIteration fuel' (loop.rename σ) a (i'.consumeSeparator u loop.separator)))
    (hEnd : R.Holds
      (match i.skipToNextIteration s loop.key (i.decisionAt? loop.key) loop.separator with
        | (t, true) => i.runLoop fuel loop false a t
        | (t, false) => .done a t)
      (match i'.skipToNextIteration u (loop.key.rename σ) (i.decisionAt? loop.key)
          loop.separator with
        | (v, true) => i'.runLoop fuel' (loop.rename σ) false a v
        | (v, false) => .done a v)) :
    R.Holds (i.runLoop (fuel + 1) loop false a s)
      (i'.runLoop (fuel' + 1) (loop.rename σ) false a u) := by
  rw [runLoop, runLoop]
  simp only [Loop.rename, hDecision, Bool.false_eq_true, if_false] at hAgain hEnd ⊢
  rw [hSame]
  split
  · next hContinues => exact hAgain hContinues
  · exact hEnd

end Input

/-! ## All functions that run -/

/-- Inputs over which states stay alike, step by step. What is alike may depend on the number of
rules that have been entered. -/
structure Similar (σ : RuleId → RuleId) (i i' : Input α) (alike : Nat → State → State → Prop) :
    Prop where
  tokens : i'.tokens = i.tokens
  ruleNamed? : ∀ name, i'.grammar.ruleNamed? name = (i.grammar.ruleNamed? name).map σ
  body : ∀ id, i'.grammar.body (σ id) = i.grammar.body id
  decisionAt? : ∀ key, i'.decisionAt? (key.rename σ) = i.decisionAt? key
  position : ∀ {d s u}, alike d s u → u.position = s.position
  errors : ∀ {d s u}, alike d s u → u.errors.length = s.errors.length
  ahead : ∀ {d s u}, alike d s u → i'.ahead u = i.ahead s
  enters : ∀ {d s u}, alike d s u → ∀ decision, i'.enters u decision = i.enters s decision
  continues : ∀ {d s u}, alike d s u → ∀ decision separator,
    i'.continues u decision separator = i.continues s decision separator
  chooseBranch : ∀ {d s u}, alike d s u → ∀ key count enabled,
    i'.chooseBranch u (key.rename σ) count enabled = i.chooseBranch s key count enabled
  key : ∀ {d s u}, alike (d + 1) s u → ∀ kind occurrence,
    u.key kind occurrence = (s.key kind occurrence).rename σ
  overrun? : ∀ {d s u}, alike (d + 1) s u → i'.overrun? u = i.overrun? s
  consume : ∀ {d s u}, alike (d + 1) s u → ∀ occurrence expected label,
    (i.consume s occurrence expected label).Paired True (alike (d + 1))
      (i'.consume u occurrence expected label)
  recordError : ∀ {d s u}, alike d s u → ∀ cause,
    alike d (i.recordError s cause).1 (i'.recordError u cause).1
  consumeSeparator : ∀ {d s u}, alike d s u → ∀ separator,
    alike d (i.consumeSeparator s separator) (i'.consumeSeparator u separator)
  skipToNextIteration : ∀ {d s u}, alike d s u → ∀ key decision separator,
    alike d (i.skipToNextIteration s key decision separator).1
        (i'.skipToNextIteration u (key.rename σ) decision separator).1 ∧
      (i'.skipToNextIteration u (key.rename σ) decision separator).2 =
        (i.skipToNextIteration s key decision separator).2
  resumeRepetition : ∀ {d s u}, alike d s u → ∀ key decision separator e,
    (i.resumeRepetition s key decision separator e).Paired (alike d)
      (i'.resumeRepetition u (key.rename σ) decision separator e)
  enter : ∀ {d s u}, alike d s u → ∀ rule occurrence,
    alike (d + 1) (i.enter s rule occurrence) (i'.enter u (σ rule) occurrence)
  recoverRule : ∀ {d s u}, alike (d + 1) s u → ∀ e,
    alike (d + 1) (i.recoverRule s e).1 (i'.recoverRule u e).1 ∧
      (i'.recoverRule u e).2 = (i.recoverRule s e).2
  leave : ∀ {d s u}, alike (d + 1) s u → ∀ rule label,
    alike d (i.leave s rule label) (i'.leave u (σ rule) label)
  beginTrial : ∀ {d s u}, alike d s u → alike d (i.beginTrial s) (i'.beginTrial u)
  endTrial : ∀ {d s u t v}, alike d s u → Frame i (i.beginTrial s) t →
    Frame i' (i'.beginTrial u) v → alike d t v → alike d (t.endTrial s.mark) (v.endTrial u.mark)

/-- All functions that run end alike, within one bound and another one. Bodies are run inside a
rule. -/
structure PairedWithin [Inhabited α] (σ : RuleId → RuleId) (i i' : Input α)
    (alike : Nat → State → State → Prop) (sameBound : Prop) (fuel fuel' : Nat) : Prop where
  body : ∀ {d s u}, alike (d + 1) s u → ∀ ops a,
    (i.runBody fuel ops a s).Paired sameBound (alike (d + 1)) (i'.runBody fuel' ops a u)
  op : ∀ {d s u}, alike (d + 1) s u → ∀ op a,
    (i.runOp fuel op a s).Paired sameBound (alike (d + 1)) (i'.runOp fuel' op a u)
  invoke : ∀ {d s u}, alike d s u → ∀ rule occurrence label,
    (i.invoke fuel rule occurrence label s).Paired sameBound (alike d)
      (i'.invoke fuel' (σ rule) occurrence label u)
  loop : ∀ {d s u}, alike (d + 1) s u → ∀ loop isFirst a,
    (i.runLoop fuel loop isFirst a s).Paired sameBound (alike (d + 1))
      (i'.runLoop fuel' (loop.rename σ) isFirst a u)
  iteration : ∀ {d s u}, alike (d + 1) s u → ∀ loop a,
    (i.runIteration fuel loop a s).Paired sameBound (alike (d + 1))
      (i'.runIteration fuel' (loop.rename σ) a u)
  trial : ∀ {d s u}, alike d s u → ∀ rule,
    (i.runTrial fuel rule s).Paired sameBound (alike d) (i'.runTrial fuel' rule u)
  gate : ∀ {d s u}, alike d s u → ∀ gate,
    (i.askGate fuel gate s).Paired sameBound (alike d) (i'.askGate fuel' gate u)
  gates : ∀ {d s u}, alike d s u → ∀ gates,
    (i.askGates fuel gates s).Paired sameBound (alike d) (i'.askGates fuel' gates u)

namespace Similar

variable [Inhabited α] {alike : Nat → State → State → Prop} {sameBound : Prop}
  {fuel fuel' d : Nat} {s u : State} (h : Similar σ i i' alike)
  (ih : PairedWithin σ i i' alike sameBound fuel fuel')

include ih

theorem body_succ (hs : alike (d + 1) s u) (ops : List (Op α)) (a : α) :
    (i.runBody (fuel + 1) ops a s).Paired sameBound (alike (d + 1))
      (i'.runBody (fuel' + 1) ops a u) := by
  cases ops with
  | nil =>
    rw [Input.runBody, Input.runBody]
    exact .done hs
  | cons op ops =>
    have hOp := ih.op hs op a
    rw [Input.runBody, Input.runBody]
    generalize i.runOp fuel op a s = o at hOp ⊢
    generalize i'.runOp fuel' op a u = o' at hOp ⊢
    cases hOp with
    | done ht => exact ih.body ht ops _
    | interrupted ht => exact .interrupted ht
    | panicked => exact .panicked
    | outOfFuel hOut => exact .outOfFuel fun hSame => by rw [hOut hSame]

include h

theorem choice_succ (hs : alike (d + 1) s u) (occurrence : Nat) (branches : List (Branch (Op α)))
    (act : α → α → α) (a : α) :
    (i.runOp (fuel + 1) (.choice occurrence branches act) a s).Paired sameBound (alike (d + 1))
      (i'.runOp (fuel' + 1) (.choice occurrence branches act) a u) := by
  have hGates := ih.gates hs (branches.map (·.gate))
  simp only [Input.runOp, h.key hs]
  generalize i.askGates fuel (branches.map (·.gate)) s = o at hGates ⊢
  generalize i'.askGates fuel' (branches.map (·.gate)) u = o' at hGates ⊢
  cases hGates with
  | @done mask t v ht =>
    simp only [h.chooseBranch ht, h.decisionAt?]
    cases (i.chooseBranch t (s.key .or occurrence) branches.length
        (if branches.any (·.gate.isSome) then some mask else none)).bind
          fun index => branches[index]? with
    | none =>
      have hIndex : ∀ cause, (i'.recordError v cause).2 = (i.recordError t cause).2 :=
        fun _ => h.errors ht
      simp only [hIndex]
      exact .interrupted (h.recordError ht _)
    | some branch =>
      have hBody := ih.body ht branch.body default
      simp only
      generalize i.runBody fuel branch.body default t = o at hBody ⊢
      generalize i'.runBody fuel' branch.body default v = o' at hBody ⊢
      cases hBody with
      | done ht => exact .done ht
      | interrupted ht => exact .interrupted ht
      | panicked => exact .panicked
      | outOfFuel hOut => exact .outOfFuel fun hSame => by rw [hOut hSame]
  | interrupted ht => exact .interrupted ht
  | panicked => exact .panicked
  | outOfFuel hOut => exact .outOfFuel fun hSame => by rw [hOut hSame]

theorem op_succ (hs : alike (d + 1) s u) (op : Op α) (a : α) :
    (i.runOp (fuel + 1) op a s).Paired sameBound (alike (d + 1))
      (i'.runOp (fuel' + 1) op a u) := by
  let R : Outcome.Relation := .paired sameBound (alike (d + 1))
  cases op with
  | consume occurrence token label act =>
    exact Input.related_consume R ((h.consume hs occurrence token label).mono fun _ => trivial)
  | subrule occurrence rule label act =>
    exact Input.related_subrule R (h.ruleNamed? rule) .panicked fun id _ =>
      ih.invoke hs id occurrence label
  | option occurrence body act =>
    refine Input.related_option R ?_ (ih.body hs body a) (.done hs)
    rw [h.key hs, h.decisionAt?, h.enters hs]
  | repetition mandatory separator occurrence body act =>
    exact Input.related_repetition R (h.key hs _ _) fun loop _ => ih.loop hs loop true a
  | choice occurrence branches act => exact h.choice_succ ih hs occurrence branches act a
  | peek distance act =>
    simp only [Input.runOp, h.ahead hs]
    exact .done hs
  | trial rule act => exact Input.related_trial R (ih.trial hs rule)
  | whenParsing body =>
    simp only [Input.runOp]
    exact ih.body hs body a
  | whenRecording body =>
    simp only [Input.runOp]
    exact .done hs
  | attempt body act =>
    have hBody := ih.body hs body a
    simp only [Input.runOp]
    generalize i.runBody fuel body a s = o at hBody ⊢
    generalize i'.runBody fuel' body a u = o' at hBody ⊢
    cases hBody with
    | done ht => exact .done ht
    | interrupted ht => exact .done ht
    | panicked => exact .panicked
    | outOfFuel hOut => exact .outOfFuel fun hSame => by rw [hOut hSame]

theorem invoke_succ (hs : alike d s u) (rule : RuleId) (occurrence : Nat) (label : Option String) :
    (i.invoke (fuel + 1) rule occurrence label s).Paired sameBound (alike d)
      (i'.invoke (fuel' + 1) (σ rule) occurrence label u) := by
  have hBody := ih.body (h.enter hs rule occurrence) (i.grammar.body rule) default
  rw [Input.invoke, Input.invoke, h.body, h.tokens]
  generalize i.runBody fuel (i.grammar.body rule) default (i.enter s rule occurrence) = o
    at hBody ⊢
  generalize i'.runBody fuel' (i.grammar.body rule) default (i'.enter u (σ rule) occurrence) = o'
    at hBody ⊢
  cases hBody with
  | done ht => exact .done (h.leave ht rule label)
  | @interrupted e _ t v ht =>
    obtain ⟨hRecovered, hSame⟩ := h.recoverRule ht e
    simp only [h.overrun? ht]
    cases i.overrun? t with
    | some index => exact .panicked
    | none =>
      cases hRec : i.recoverRule t e with
      | mk t' resynced =>
        cases hRec' : i'.recoverRule v e with
        | mk v' resynced' =>
          rw [hRec, hRec'] at hRecovered hSame
          obtain rfl : resynced' = resynced := hSame
          cases resynced' with
          | true => exact .done (h.leave hRecovered rule label)
          | false => exact .interrupted (h.leave hRecovered rule label)
  | panicked => exact .panicked
  | outOfFuel hOut => exact .outOfFuel fun hSame => by rw [hOut hSame]

theorem loop_succ (hs : alike (d + 1) s u) (loop : Input.Loop α) (isFirst : Bool) (a : α) :
    (i.runLoop (fuel + 1) loop isFirst a s).Paired sameBound (alike (d + 1))
      (i'.runLoop (fuel' + 1) (loop.rename σ) isFirst a u) := by
  let R : Outcome.Relation := .paired sameBound (alike (d + 1))
  cases isFirst with
  | true =>
    refine Input.related_runLoop_first R ?_ (ih.iteration hs loop a) (fun cause => ?_)
      (h.decisionAt? _) (.done hs)
    · rw [h.decisionAt?, h.enters hs]
    · have hIndex : (i'.recordError u cause).2 = (i.recordError s cause).2 := h.errors hs
      rw [hIndex]
      exact .interrupted (h.recordError hs cause)
  | false =>
    refine Input.related_runLoop_later R (h.decisionAt? _) (h.continues hs _ _)
      (fun _ => ih.iteration (h.consumeSeparator hs _) loop a) ?_
    obtain ⟨ht, hSame⟩ := h.skipToNextIteration hs loop.key (i.decisionAt? loop.key) loop.separator
    cases hSkip : i.skipToNextIteration s loop.key (i.decisionAt? loop.key) loop.separator with
    | mk t again =>
      cases hSkip' : i'.skipToNextIteration u (loop.key.rename σ) (i.decisionAt? loop.key)
          loop.separator with
      | mk v again' =>
        rw [hSkip, hSkip'] at ht hSame
        obtain rfl : again' = again := hSame
        cases again' with
        | true => exact ih.loop ht loop false a
        | false => exact .done ht

theorem iteration_succ (hs : alike (d + 1) s u) (loop : Input.Loop α) (a : α) :
    (i.runIteration (fuel + 1) loop a s).Paired sameBound (alike (d + 1))
      (i'.runIteration (fuel' + 1) (loop.rename σ) a u) := by
  have hGoOn : ∀ {t v : State} (a : α), alike (d + 1) t v →
      (if t.position = s.position then Outcome.done a t
        else i.runLoop fuel loop false a t).Paired sameBound (alike (d + 1))
      (if v.position = u.position then Outcome.done a v
        else i'.runLoop fuel' (loop.rename σ) false a v) := by
    intro t v a ht
    rw [h.position ht, h.position hs]
    split
    · exact .done ht
    · exact ih.loop ht loop false a
  have hBody := ih.body hs loop.body a
  rw [Input.runIteration, Input.runIteration, body_renameLoop, key_renameLoop,
    separator_renameLoop, h.decisionAt?]
  generalize i.runBody fuel loop.body a s = o at hBody ⊢
  generalize i'.runBody fuel' loop.body a u = o' at hBody ⊢
  cases hBody with
  | done ht => exact hGoOn _ ht
  | @interrupted e a t v ht =>
    have hResume := h.resumeRepetition ht loop.key (i.decisionAt? loop.key) loop.separator e
    simp only
    generalize i.resumeRepetition t loop.key (i.decisionAt? loop.key) loop.separator e = r
      at hResume ⊢
    generalize i'.resumeRepetition v (loop.key.rename σ) (i.decisionAt? loop.key)
      loop.separator e = r' at hResume ⊢
    cases hResume with
    | again hAgain => exact hGoOn a hAgain
    | exit hExit => exact .done hExit
    | failed hFailed => exact .interrupted hFailed
  | panicked => exact .panicked
  | outOfFuel hOut => exact .outOfFuel fun hSame => by rw [hOut hSame]

theorem trial_succ (hs : alike d s u) (rule : String) :
    (i.runTrial (fuel + 1) rule s).Paired sameBound (alike d)
      (i'.runTrial (fuel' + 1) rule u) := by
  rw [Input.runTrial, Input.runTrial, h.ruleNamed?]
  cases i.grammar.ruleNamed? rule with
  | none => exact .done hs
  | some id =>
    have hInvoke := ih.invoke (h.beginTrial hs) id 0 none
    have hFrame := (frame_runs i fuel).invoke id 0 none (i.beginTrial s)
    have hFrame' := (frame_runs i' fuel').invoke (σ id) 0 none (i'.beginTrial u)
    simp only [Option.map_some]
    generalize i.invoke fuel id 0 none (i.beginTrial s) = o at hInvoke hFrame ⊢
    generalize i'.invoke fuel' (σ id) 0 none (i'.beginTrial u) = o' at hInvoke hFrame' ⊢
    cases hInvoke with
    | done ht =>
      simp only [h.errors ht, h.errors hs]
      exact .done (h.endTrial hs hFrame hFrame' ht)
    | interrupted ht => exact .done (h.endTrial hs hFrame.1 hFrame'.1 ht)
    | panicked => exact .panicked
    | outOfFuel hOut => exact .outOfFuel fun hSame => by rw [hOut hSame]

theorem gate_succ (hs : alike d s u) (gate : Gate) :
    (i.askGate (fuel + 1) gate s).Paired sameBound (alike d) (i'.askGate (fuel' + 1) gate u) := by
  rw [Input.askGate.eq_def, Input.askGate.eq_def]
  cases gate with
  | parsing => exact .done hs
  | tokens holds =>
    simp only [h.ahead hs]
    exact .done hs
  | trial rule => exact ih.trial hs rule
  | negation g =>
    have hGate := ih.gate hs g
    simp only
    generalize i.askGate fuel g s = o at hGate ⊢
    generalize i'.askGate fuel' g u = o' at hGate ⊢
    cases hGate with
    | done ht => exact .done ht
    | interrupted ht => exact .interrupted ht
    | panicked => exact .panicked
    | outOfFuel hOut => exact .outOfFuel fun hSame => by rw [hOut hSame]
  | both first second =>
    have hFirst := ih.gate hs first
    simp only
    generalize i.askGate fuel first s = o at hFirst ⊢
    generalize i'.askGate fuel' first u = o' at hFirst ⊢
    cases hFirst with
    | @done holds _ _ ht =>
      cases holds with
      | true => exact ih.gate ht second
      | false => exact .done ht
    | interrupted ht => exact .interrupted ht
    | panicked => exact .panicked
    | outOfFuel hOut => exact .outOfFuel fun hSame => by rw [hOut hSame]

omit h in
theorem gates_succ (hs : alike d s u) (gates : List (Option Gate)) :
    (i.askGates (fuel + 1) gates s).Paired sameBound (alike d)
      (i'.askGates (fuel' + 1) gates u) := by
  cases gates with
  | nil =>
    rw [Input.askGates, Input.askGates]
    exact .done hs
  | cons gate gates =>
    cases gate with
    | none =>
      have hGates := ih.gates hs gates
      rw [Input.askGates, Input.askGates]
      generalize i.askGates fuel gates s = o at hGates ⊢
      generalize i'.askGates fuel' gates u = o' at hGates ⊢
      cases hGates with
      | done ht => exact .done ht
      | interrupted ht => exact .interrupted ht
      | panicked => exact .panicked
      | outOfFuel hOut => exact .outOfFuel fun hSame => by rw [hOut hSame]
    | some gate =>
      have hGate := ih.gate hs gate
      rw [Input.askGates, Input.askGates]
      generalize i.askGate fuel gate s = o at hGate ⊢
      generalize i'.askGate fuel' gate u = o' at hGate ⊢
      cases hGate with
      | @done holds t v ht =>
        have hGates := ih.gates ht gates
        simp only
        generalize i.askGates fuel gates t = o at hGates ⊢
        generalize i'.askGates fuel' gates v = o' at hGates ⊢
        cases hGates with
        | done ht => exact .done ht
        | interrupted ht => exact .interrupted ht
        | panicked => exact .panicked
        | outOfFuel hOut => exact .outOfFuel fun hSame => by rw [hOut hSame]
      | interrupted ht => exact .interrupted ht
      | panicked => exact .panicked
      | outOfFuel hOut => exact .outOfFuel fun hSame => by rw [hOut hSame]

omit ih in
theorem within (hLe : fuel ≤ fuel') :
    PairedWithin σ i i' alike (fuel = fuel') fuel fuel' := by
  induction fuel generalizing fuel' with
  | zero =>
    refine ⟨?_, ?_, ?_, ?_, ?_, ?_, ?_, ?_⟩ <;> intros
    · rw [Input.runBody]; exact .outOfFuel fun hSame => by rw [← hSame, Input.runBody]
    · rw [Input.runOp]; exact .outOfFuel fun hSame => by rw [← hSame, Input.runOp]
    · rw [Input.invoke]; exact .outOfFuel fun hSame => by rw [← hSame, Input.invoke]
    · rw [Input.runLoop]; exact .outOfFuel fun hSame => by rw [← hSame, Input.runLoop]
    · rw [Input.runIteration]; exact .outOfFuel fun hSame => by rw [← hSame, Input.runIteration]
    · rw [Input.runTrial]; exact .outOfFuel fun hSame => by rw [← hSame, Input.runTrial]
    · rw [Input.askGate]; exact .outOfFuel fun hSame => by rw [← hSame, Input.askGate]
    · rw [Input.askGates]; exact .outOfFuel fun hSame => by rw [← hSame, Input.askGates]
  | succ fuel ih =>
    cases fuel' with
    | zero => cases hLe
    | succ fuel' =>
      -- The bounds are the same behind a step if they were in front of it.
      rw [Nat.add_right_cancel_iff]
      have ih := ih (Nat.le_of_succ_le_succ hLe)
      exact ⟨body_succ ih, h.op_succ ih, h.invoke_succ ih, h.loop_succ ih, h.iteration_succ ih,
        h.trial_succ ih, h.gate_succ ih, gates_succ ih⟩

end Similar

end PredictiveParsing.Parse
