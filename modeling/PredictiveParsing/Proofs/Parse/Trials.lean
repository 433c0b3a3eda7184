import PredictiveParsing.Proofs.Grammar.Compiled
import PredictiveParsing.Proofs.Parse.Reached
import PredictiveParsing.Proofs.Parse.SettingSteps

/-!
# Trials

A trial leaves no trace, and finds out whether a rule parses without an error. That a trial is under
way switches recovery off, and makes no other difference inside of a rule: the run of a trial is
alike the one from the same state without recovery.
-/

namespace PredictiveParsing

namespace Parse

variable {α : Type} [Inhabited α] {i : Input α} {s t : State} {id : RuleId} {fuel : Nat}
  {rule : String}

/-- Without recovery the rule parses from a state, and no error is recorded. -/
def Parses (i : Input α) (id : RuleId) (s : State) : Prop :=
  ∃ fuel a t, (i.withRecovery false).invoke fuel id 0 none s = .done a t ∧ t.errors = s.errors

theorem Parses.of_invoke (h : Parses i id s)
    (hEnds : (i.withRecovery false).invoke fuel id 0 none s ≠ .outOfFuel) :
    ∃ a t, (i.withRecovery false).invoke fuel id 0 none s = .done a t ∧ t.errors = s.errors := by
  obtain ⟨fuel', a, t, hRun, hErrors⟩ := h
  have hLarge := (invoke_below (i := i.withRecovery false) (Nat.le_max_left fuel' fuel) id 0 none
    s).of_done hRun
  rcases invoke_below (i := i.withRecovery false) (Nat.le_max_right fuel' fuel) id 0 none s with
    hNone | hSame
  · exact absurd hNone hEnds
  · exact ⟨a, t, hSame.trans hLarge, hErrors⟩

omit [Inhabited α] in
theorem alike_beginTrial (hs : s.calls ≠ []) :
    Alike i { i.grammar.config with recovery := false } 0 (i.beginTrial s) s where
  position := rfl
  errors := rfl
  calls := rfl
  terminated := rfl
  recovery := (recoveryEnabled_beginTrial i s).symm
  outermost hNone := absurd (List.eq_nil_of_length_eq_zero (Nat.le_zero.mp hNone)) hs

theorem same_beginTrial (hs : s.calls ≠ []) (id : RuleId) (fuel : Nat) :
    (i.invoke fuel id 0 none (i.beginTrial s)).Paired (fuel = fuel)
      (Alike i { i.grammar.config with recovery := false } 0)
      ((i.withRecovery false).invoke fuel id 0 none s) :=
  ((similar_withConfig i _).within (Nat.le_refl fuel)).invoke (alike_beginTrial hs) id 0 none

theorem runTrial_answer (hs : s.calls ≠ []) {holds : Bool}
    (h : i.runTrial fuel rule s = .done holds t) :
    holds = true ↔ ∃ id, i.grammar.ruleNamed? rule = some id ∧ Parses i id s := by
  cases fuel with
  | zero => rw [Input.runTrial] at h; cases h
  | succ fuel =>
    rw [Input.runTrial] at h
    cases hName : i.grammar.ruleNamed? rule with
    | none =>
      rw [hName] at h
      cases h
      simp
    | some id =>
      have hFrame := (frame_runs i fuel).invoke id 0 none (i.beginTrial s)
      have hSame := same_beginTrial (i := i) hs id fuel
      have hEnds : Parses i id s → (i.withRecovery false).invoke fuel id 0 none s ≠ .outOfFuel →
          ∃ a t, (i.withRecovery false).invoke fuel id 0 none s = .done a t ∧
            t.errors = s.errors := Parses.of_invoke
      rw [hName] at h
      simp only at h
      generalize i.invoke fuel id 0 none (i.beginTrial s) = o at h hFrame hSame
      generalize hRun : (i.withRecovery false).invoke fuel id 0 none s = o' at hSame hEnds
      simp only [Option.some.injEq, exists_eq_left']
      cases hSame with
      | @done a t' u ht =>
        cases h
        rw [beq_iff_eq]
        constructor
        · intro hLength
          have hFound : s.errors <+: t'.errors := hFrame.exact (recoveryEnabled_beginTrial i s)
          exact ⟨fuel, a, u, hRun, by rw [ht.errors, hFound.eq_of_length hLength.symm]⟩
        · intro hParses
          obtain ⟨_, _, hDone, hErrors⟩ := hEnds hParses (by simp)
          cases hDone
          rw [← ht.errors, hErrors]
      | interrupted ht =>
        cases h
        refine iff_of_false Bool.false_ne_true fun hParses => ?_
        obtain ⟨_, _, hDone, -⟩ := hEnds hParses (by simp)
        cases hDone
      | panicked => cases h
      | outOfFuel => cases h

end Parse

variable {α : Type} [Inhabited α]

/-- Wherever a parse has come to, a trial that ends does so in the state it began in, and tells
whether its rule is there and parses from that state without recovery and without an error. -/
theorem trial_leaves_no_trace {i : Parse.Input α} {start : RuleId} {x : Parse.Job α}
    {s : Parse.State} (hReached : Parse.Reached i start x s) (fuel : Nat) (rule : String) :
    (∀ e holds t, i.runTrial fuel rule s ≠ .interrupted e holds t) ∧
      ∀ holds t, i.runTrial fuel rule s = .done holds t → t = s ∧
        (holds = true ↔ ∃ id, i.grammar.ruleNamed? rule = some id ∧ Parse.Parses i id s) := by
  have hInside := hReached.inside
  have hState := Parse.runTrial_state hInside.tidy fuel rule
  refine ⟨fun e holds t hRun => ?_, fun holds t hRun => ⟨?_, Parse.runTrial_answer hInside.calls hRun⟩⟩
  · rw [hRun] at hState
    exact hState
  · rw [hRun] at hState
    exact hState

/-! ## Statements told apart by a trial -/

namespace Statements

def types : List TokenType :=
  [.literal "Name" "x", .literal "Equals" "=", .literal "Number" "1", .literal "Open" "(",
    .literal "Close" ")"]

/-- A statement is an assignment if it parses as one, and a call otherwise. -/
def rules : List (RuleBody Unit) :=
  [ ⟨"statement",
      [.choice 0 [⟨some (.trial "assignment"), [.enter "assignment"], false⟩,
        .plain [.enter "call"]] fun _ a => a]⟩,
    ⟨"assignment", [.token 1, .token 2, .token 3]⟩,
    ⟨"call", [.token 1, .token 4, .token 5]⟩ ]

def tokens : Array Token :=
  #[⟨1, "x", ⟨0, 1⟩, none, none, false⟩, ⟨2, "=", ⟨1, 2⟩, none, none, false⟩,
    ⟨3, "1", ⟨2, 3⟩, none, none, false⟩]

def tries (g : Grammar Unit) : Bool :=
  match (⟨g, tokens⟩ : Parse.Input Unit).runTrial 20 "assignment"
    (Parse.Input.enter ⟨g, tokens⟩ .initial 0 0) with
  | .done holds _ => holds
  | _ => false

end Statements

theorem trial_leaves_no_trace_assignment : ∃ g s id,
    Grammar.compile (.ofTypes Statements.types) Statements.rules { recovery := true } = .ok g ∧
      Parse.Reached (⟨g, Statements.tokens⟩ : Parse.Input Unit) 0 (.body (g.body 0)) s ∧
      (⟨g, Statements.tokens⟩ : Parse.Input Unit).runTrial 20 "assignment" s = .done true s ∧
      g.ruleNamed? "assignment" = some id ∧ Parse.Parses ⟨g, Statements.tokens⟩ id s := by
  obtain ⟨g, hCompile, hTries⟩ := Grammar.exists_compiled (v := .ofTypes Statements.types)
    (p := Statements.tries) (by decide +kernel : (Grammar.compile (.ofTypes Statements.types)
      Statements.rules { recovery := true }).toOption.any _ = true)
  have hReached : Parse.Reached (⟨g, Statements.tokens⟩ : Parse.Input Unit) 0 _ _ := .start
  unfold Statements.tries at hTries
  split at hTries
  · next holds t hRun =>
    obtain ⟨rfl, hAnswer⟩ := (trial_leaves_no_trace hReached 20 "assignment").2 holds t hRun
    obtain ⟨id, hName, hParses⟩ := hAnswer.mp hTries
    exact ⟨g, _, id, hCompile, hReached, hTries ▸ hRun, hName, hParses⟩
  · cases hTries

end PredictiveParsing
