import PredictiveParsing.Proofs.Parse.Bound

/-!
# Runs that return

Rules for runs that are not interrupted under any bound of nested steps, and that return under some
bound if the trials in the rule bodies do. Whether a trial returns is up to the rule that is tried:
a rule can try itself.
-/

namespace PredictiveParsing

variable {α : Type}

namespace Op

mutual

/-- The rules that an operation tries outside of gates. -/
def tried : Op α → List String
  | .option _ body _ => triedBy body
  | .repetition _ _ _ body _ => triedBy body
  | .choice _ branches _ => triedByBranches branches
  | .trial rule _ => [rule]
  | .whenParsing body => triedBy body
  | .attempt body _ => triedBy body
  | _ => []

def triedBy : List (Op α) → List String
  | [] => []
  | op :: ops => tried op ++ triedBy ops

def triedByBranches : List (Branch (Op α)) → List String
  | [] => []
  | ⟨_, body, _⟩ :: rest => triedBy body ++ triedByBranches rest

end

theorem mem_triedByBranches {branch : Branch (Op α)} {branches : List (Branch (Op α))}
    {name : String} (hBranch : branch ∈ branches) (h : name ∈ triedBy branch.body) :
    name ∈ triedByBranches branches := by
  induction branches with
  | nil => cases hBranch
  | cons other rest ih =>
    rw [triedByBranches, List.mem_append]
    rcases List.mem_cons.mp hBranch with rfl | hBranch
    · exact .inl h
    · exact .inr (ih hBranch)

end Op

namespace Parse

def Input.Tries (i : Input α) (name : String) : Prop :=
  ∃ id, name ∈ Op.triedBy (i.grammar.body id)

variable [Inhabited α]

def Input.TrialsReturn (i : Input α) : Prop :=
  ∀ name, i.Tries name → ∀ s, ∃ fuel succeeded t, i.runTrial fuel name s = .done succeeded t

structure Returns {β : Type} (i : Input α) (run : Nat → Outcome β) (done : State → Prop) :
    Prop where
  ends : ∀ fuel, (run fuel).Ends done fun _ _ => False
  returns : i.TrialsReturn → ∃ fuel b t, run fuel = .done b t

variable {i : Input α} {β γ : Type} {run run' : Nat → Outcome β} {done done' : State → Prop}
  {a : α} {s : State}

namespace Returns

theorem mono (h : Returns i run done) (hDone : ∀ t, done t → done' t) : Returns i run done' :=
  ⟨fun fuel => (h.ends fuel).mono hDone fun _ _ => id, h.returns⟩

theorem and (h : Returns i run done) {stopped : Nat → State → Prop}
    (h' : ∀ fuel, (run fuel).Ends done' stopped) :
    Returns i run fun t => done t ∧ done' t :=
  ⟨fun fuel => ((h.ends fuel).and (h' fuel)).mono (fun _ => id) fun _ _ hBoth => hBoth.1, h.returns⟩

theorem done_of_run (h : Returns i run done) {fuel : Nat} {b : β} {t : State}
    (hRun : run fuel = .done b t) : done t := by
  have hEnds := h.ends fuel
  rw [hRun] at hEnds
  exact hEnds

theorem step (h : Returns i run done) (hZero : run' 0 = .outOfFuel)
    (hSucc : ∀ fuel, run' (fuel + 1) = run fuel) : Returns i run' done := by
  constructor
  · intro fuel
    cases fuel with
    | zero => rw [hZero]; trivial
    | succ fuel => rw [hSucc]; exact h.ends fuel
  · intro hTrials
    obtain ⟨fuel, b, t, hRun⟩ := h.returns hTrials
    exact ⟨fuel + 1, b, t, (hSucc fuel).trans hRun⟩

theorem of_done {b : β} {t : State} (h : done t) : Returns i (fun _ => .done b t) done :=
  ⟨fun _ => h, fun _ => ⟨0, b, t, rfl⟩⟩

theorem finish (h : Returns i run done) (f g : β → γ) :
    Returns i (fun fuel => (run fuel).finish f g) done := by
  constructor
  · exact fun fuel => Outcome.ends_finish.mpr (h.ends fuel)
  · intro hTrials
    obtain ⟨fuel, b, t, hRun⟩ := h.returns hTrials
    exact ⟨fuel, f b, t, by rw [hRun]; rfl⟩

theorem body_nil (h : done s) : Returns i (fun fuel => i.runBody fuel [] a s) done :=
  (of_done h).step (by rw [Input.runBody]) fun fuel => by rw [Input.runBody]

theorem body_cons {op : Op α} {ops : List (Op α)}
    (hOp : Returns i (fun fuel => i.runOp fuel op a s) done)
    (hOps : ∀ b t, done t → Returns i (fun fuel => i.runBody fuel ops b t) done') :
    Returns i (fun fuel => i.runBody fuel (op :: ops) a s) done' := by
  constructor
  · intro fuel
    cases fuel with
    | zero => rw [Input.runBody]; trivial
    | succ fuel =>
      apply Input.ends_runBody_cons
      exact (hOp.ends fuel).mono (fun t ht b => (hOps b t ht).ends fuel) fun _ _ => False.elim
  · intro hTrials
    obtain ⟨n, b, t, hRun⟩ := hOp.returns hTrials
    obtain ⟨n', b', u, hRest⟩ := (hOps b t (hOp.done_of_run hRun)).returns hTrials
    have hFirst := (runOp_below (Nat.le_max_left n n') op a s).of_done hRun
    have hLater := (runBody_below (Nat.le_max_right n n') ops b t).of_done hRest
    refine ⟨max n n' + 1, b', u, ?_⟩
    rw [Input.runBody, hFirst]
    exact hLater

theorem choice {occurrence : Nat} {branches : List (Branch (Op α))} {branch : Branch (Op α)}
    {act : α → α → α} (hTidy : Tidy i s) (hGates : ∀ branch ∈ branches, branch.gate = none)
    (hBranch : ∀ mask, i.branchAt? s occurrence branches mask = some branch)
    (h : Returns i (fun fuel => i.runBody fuel branch.body default s) done) :
    Returns i (fun fuel => i.runOp fuel (.choice occurrence branches act) a s) done := by
  constructor
  · intro fuel
    cases fuel with
    | zero => rw [Input.runOp]; trivial
    | succ fuel =>
      have hState := askGates_state hTidy fuel (branches.map (·.gate))
      cases hr : i.askGates fuel (branches.map (·.gate)) s with
      | done mask t =>
        rw [hr] at hState
        obtain rfl : t = s := hState
        rw [Input.runOp_choice_taken hr (hBranch mask)]
        exact Outcome.ends_finish.mpr (h.ends fuel)
      | interrupted e mask t =>
        rw [hr] at hState
        exact hState.elim
      | panicked why =>
        simp only [Input.runOp, hr]
        trivial
      | outOfFuel =>
        simp only [Input.runOp, hr]
        trivial
  · intro hTrials
    obtain ⟨n, b, t, hRun⟩ := h.returns hTrials
    have hPlain : ∀ gate ∈ branches.map (·.gate), gate = none := by
      intro gate hGate
      obtain ⟨other, hOther, rfl⟩ := List.mem_map.mp hGate
      exact hGates other hOther
    obtain ⟨n', mask, hAsked⟩ : ∃ n' mask, i.askGates n' (branches.map (·.gate)) s =
        .done mask s := ⟨_, _, Input.askGates_plain hPlain⟩
    have hAnswers := (askGates_below (Nat.le_max_left n' n) (branches.map (·.gate)) s).of_done hAsked
    have hBody := (runBody_below (Nat.le_max_right n' n) branch.body default s).of_done hRun
    refine ⟨max n' n + 1, act b a, t, ?_⟩
    rw [Input.runOp_choice_taken hAnswers (hBranch _), hBody]
    rfl

theorem invoke {rule : RuleId} {occurrence : Nat} {label : Option String}
    (h : Returns i (fun fuel => i.runBody fuel (i.grammar.body rule) default
      (i.enter s rule occurrence)) fun t => done (i.leave t rule label)) :
    Returns i (fun fuel => i.invoke fuel rule occurrence label s) done := by
  constructor
  · intro fuel
    cases fuel with
    | zero => rw [Input.invoke]; trivial
    | succ fuel =>
      apply Input.ends_invoke
      exact (h.ends fuel).mono (fun _ => id) fun _ _ => False.elim
  · intro hTrials
    obtain ⟨n, b, t, hRun⟩ := h.returns hTrials
    exact ⟨n + 1, b, i.leave t rule label, by rw [Input.invoke, hRun]⟩

theorem iteration {loop : Input.Loop α}
    (h : Returns i (fun fuel => i.runBody fuel loop.body a s) done)
    (hMoves : ∀ t, done t → t.position ≠ s.position)
    (hLater : ∀ b t, done t → Returns i (fun fuel => i.runLoop fuel loop false b t) done') :
    Returns i (fun fuel => i.runIteration fuel loop a s) done' := by
  constructor
  · intro fuel
    cases fuel with
    | zero => rw [Input.runIteration]; trivial
    | succ fuel =>
      apply Input.ends_runIteration
      refine (h.ends fuel).mono (fun t ht => ?_) fun _ _ => False.elim
      rw [Input.GoesOn, if_neg (hMoves t ht)]
      exact fun b => (hLater b t ht).ends fuel
  · intro hTrials
    obtain ⟨n, b, t, hRun⟩ := h.returns hTrials
    have ht := h.done_of_run hRun
    obtain ⟨n', b', u, hRest⟩ := (hLater b t ht).returns hTrials
    have hFirst := (runBody_below (Nat.le_max_left n n') loop.body a s).of_done hRun
    have hLoop := (runLoop_below (Nat.le_max_right n n') loop false b t).of_done hRest
    refine ⟨max n n' + 1, b', u, ?_⟩
    rw [Input.runIteration, hFirst]
    exact (if_neg (hMoves t ht)).trans hLoop

end Returns

end Parse

end PredictiveParsing
