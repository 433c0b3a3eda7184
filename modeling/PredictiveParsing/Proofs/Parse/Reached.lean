import PredictiveParsing.Proofs.Parse.FrameOfRun
import PredictiveParsing.Proofs.Parse.Reading

/-!
# What a parse comes to

A parse is made of jobs: bodies, operations, rules, repetitions, trials and gates. One job, begun
in some state, leads to those that it begins itself, each in the state it finds. What holds of the
body of the start rule and is passed on by every such step holds of everything a parse comes to, also
of a parse that never ends.
-/

namespace PredictiveParsing.Parse

variable {α : Type}

inductive Job (α : Type) where
  | body (ops : List (Op α))
  | op (op : Op α)
  | invoke (rule : RuleId) (occurrence : Nat)
  | loop (loop : Input.Loop α) (isFirst : Bool)
  | iteration (loop : Input.Loop α)
  | trial (rule : String)
  | gate (gate : Gate)
  | gates (gates : List (Option Gate))

variable [Inhabited α]

/-- One job in a state leads to another in the state where that one begins. There is a constructor
for each call between the functions that run. -/
inductive Leads (i : Input α) : Job α → State → Job α → State → Prop
  | firstOp {op : Op α} {ops s} : Leads i (.body (op :: ops)) s (.op op) s
  | laterOps {op : Op α} {ops s fuel a b t} (hRun : i.runOp fuel op a s = .done b t) :
    Leads i (.body (op :: ops)) s (.body ops) t
  | subrule {occurrence rule label act id s} (hName : i.grammar.ruleNamed? rule = some id) :
    Leads i (.op (.subrule occurrence rule label act)) s (.invoke id occurrence) s
  | option {occurrence body act s}
    (hEnter : i.enters s (i.decisionAt? (s.key .option occurrence)) = true) :
    Leads i (.op (.option occurrence body act)) s (.body body) s
  | repetition {mandatory separator occurrence body act s} :
    Leads i (.op (.repetition mandatory separator occurrence body act)) s
      (.loop ⟨s.key (.ofRepetition mandatory separator) occurrence, mandatory, separator, body⟩
        true) s
  | gates {occurrence branches act s} :
    Leads i (.op (.choice occurrence branches act)) s (.gates (branches.map (·.gate))) s
  | branch {occurrence branches act s fuel mask branch t}
    (hGates : i.askGates fuel (branches.map (·.gate)) s = .done mask t)
    (hBranch : i.branchAt? t occurrence branches mask = some branch) :
    Leads i (.op (.choice occurrence branches act)) s (.body branch.body) t
  | trial {rule act s} : Leads i (.op (.trial rule act)) s (.trial rule) s
  | whenParsing {body s} : Leads i (.op (.whenParsing body)) s (.body body) s
  | attempt {body act s} : Leads i (.op (.attempt body act)) s (.body body) s
  | invoke {rule occurrence s} :
    Leads i (.invoke rule occurrence) s (.body (i.grammar.body rule)) (i.enter s rule occurrence)
  | firstIteration {loop : Input.Loop α} {s}
    (hEnter : i.enters s (i.decisionAt? loop.key) = true) :
    Leads i (.loop loop true) s (.iteration loop) s
  | laterIteration {loop : Input.Loop α} {s}
    (hAgain : i.continues s (i.decisionAt? loop.key) loop.separator = true) :
    Leads i (.loop loop false) s (.iteration loop) (i.consumeSeparator s loop.separator)
  | skip {loop : Input.Loop α} {s t}
    (hEnd : i.continues s (i.decisionAt? loop.key) loop.separator = false)
    (hSkip : i.skipToNextIteration s loop.key (i.decisionAt? loop.key) loop.separator =
      (t, true)) : Leads i (.loop loop false) s (.loop loop false) t
  | iteration {loop : Input.Loop α} {s} : Leads i (.iteration loop) s (.body loop.body) s
  | again {loop : Input.Loop α} {s fuel a b t} (hRun : i.runBody fuel loop.body a s = .done b t)
    (hMoved : t.position ≠ s.position) : Leads i (.iteration loop) s (.loop loop false) t
  | resume {loop : Input.Loop α} {s fuel a e b t u}
    (hRun : i.runBody fuel loop.body a s = .interrupted e b t)
    (hResume : i.resumeRepetition t loop.key (i.decisionAt? loop.key) loop.separator e = .again u)
    (hMoved : u.position ≠ s.position) : Leads i (.iteration loop) s (.loop loop false) u
  | tried {rule id s} (hName : i.grammar.ruleNamed? rule = some id) :
    Leads i (.trial rule) s (.invoke id 0) (i.beginTrial s)
  | trialGate {rule s} : Leads i (.gate (.trial rule)) s (.trial rule) s
  | negated {gate s} : Leads i (.gate (.negation gate)) s (.gate gate) s
  | firstGate {first second s} : Leads i (.gate (.both first second)) s (.gate first) s
  | secondGate {first second s fuel t} (hRun : i.askGate fuel first s = .done true t) :
    Leads i (.gate (.both first second)) s (.gate second) t
  | ungated {gates s} : Leads i (.gates (none :: gates)) s (.gates gates) s
  | gated {gate gates s} : Leads i (.gates (some gate :: gates)) s (.gate gate) s
  | laterGates {gate gates s fuel holds t} (hRun : i.askGate fuel gate s = .done holds t) :
    Leads i (.gates (some gate :: gates)) s (.gates gates) t

/-- What a parse from a rule comes to, beginning with the body of that rule. -/
inductive Reached (i : Input α) (start : RuleId) : Job α → State → Prop
  | start : Reached i start (.body (i.grammar.body start)) (i.enter .initial start 0)
  | next {x s y t} (h : Reached i start x s) (hLeads : Leads i x s y t) : Reached i start y t

variable {i : Input α} {start : RuleId} {x y : Job α} {s t : State}

/-- The only steps that do not keep the frame are the beginnings of rules and trials. -/
theorem Leads.cases_frame (h : Leads i x s y t) :
    Frame i s t ∨ (∃ rule occurrence, x = .invoke rule occurrence ∧
      t = i.enter s rule occurrence) ∨ (∃ rule, x = .trial rule ∧ t = i.beginTrial s) := by
  cases h with
  | firstOp | subrule | option | repetition | gates | trial | whenParsing | attempt
  | firstIteration | iteration | trialGate | negated | firstGate | ungated | gated =>
    exact .inl (.refl s)
  | @laterOps op _ _ fuel a _ _ hRun =>
    have hFrame := (frame_runs i fuel).op op a s
    rw [hRun] at hFrame
    exact .inl hFrame
  | @branch _ branches _ _ fuel _ _ _ hGates hBranch =>
    have hFrame := (frame_runs i fuel).gates (branches.map (·.gate)) s
    rw [hGates] at hFrame
    exact .inl hFrame
  | invoke => exact .inr (.inl ⟨_, _, rfl, rfl⟩)
  | laterIteration hAgain => exact .inl (frame_consumeSeparator _)
  | @skip loop _ _ hEnd hSkip =>
    have hFrame := frame_skipToNextIteration (i := i) (s := s) loop.key (i.decisionAt? loop.key)
      loop.separator
    rw [hSkip] at hFrame
    exact .inl hFrame
  | @again loop _ fuel a _ _ hRun hMoved =>
    have hFrame := (frame_runs i fuel).body loop.body a s
    rw [hRun] at hFrame
    exact .inl hFrame
  | @resume loop _ fuel a e _ u _ hRun hResume hMoved =>
    have hFrame := (frame_runs i fuel).body loop.body a s
    rw [hRun] at hFrame
    have hAgain := frame_preserved.resume hFrame loop.key (i.decisionAt? loop.key) loop.separator
    rw [hResume] at hAgain
    exact .inl hAgain
  | tried hName => exact .inr (.inr ⟨_, rfl, rfl⟩)
  | @secondGate first _ _ fuel _ hRun =>
    have hFrame := (frame_runs i fuel).gate first s
    rw [hRun] at hFrame
    exact .inl hFrame
  | @laterGates gate _ _ fuel _ _ hRun =>
    have hFrame := (frame_runs i fuel).gate gate s
    rw [hRun] at hFrame
    exact .inl hFrame

theorem Leads.currentRule (h : Leads i x s y t)
    (hOther : ∀ rule occurrence, x ≠ .invoke rule occurrence) :
    t.currentRule = s.currentRule := by
  rcases h.cases_frame with hFrame | ⟨rule, occurrence, hBegins, -⟩ | ⟨rule, -, rfl⟩
  · exact hFrame.currentRule
  · exact absurd hBegins (hOther rule occurrence)
  · rfl

omit [Inhabited α] in
theorem Inside.beginTrial (h : Inside i s) : Inside i (i.beginTrial s) :=
  ⟨h.tidy.beginTrial, h.calls⟩

theorem Leads.inside (h : Leads i x s y t) (hs : Inside i s) : Inside i t := by
  rcases h.cases_frame with hFrame | ⟨rule, occurrence, -, rfl⟩ | ⟨rule, -, rfl⟩
  · exact hs.of_frame hFrame
  · exact hs.tidy.inside_enter rule occurrence
  · exact hs.beginTrial

theorem Reached.inside (h : Reached i start x s) : Inside i s := by
  induction h with
  | start => exact tidy_initial.inside_enter start 0
  | next h hLeads ih => exact hLeads.inside ih

end PredictiveParsing.Parse
