import PredictiveParsing.Proofs.Parse.InRange
import PredictiveParsing.Proofs.Parse.Termination

/-!
# Recovery without end

With recovery a rule can end in front of the token that it failed at, if that token can follow it.
Nothing has been read then, and the rule around may be entered again at the same place. No bound of
nested steps is enough for such a parse.
-/

namespace PredictiveParsing

namespace Parse

def RunsOut {β : Type} (run : Nat → Outcome β) (n : Nat) : Prop := ∀ fuel ≤ n, run fuel = .outOfFuel

variable {α β : Type} {i : Input α} {s : State} {n : Nat}

theorem Halts.outOfFuel_or_done {run : Nat → Outcome β} {done : State → Prop}
    (h : Halts run done fun _ _ => False)
    (hBelow : ∀ {fuel fuel' : Nat}, fuel ≤ fuel' → (run fuel).Below (run fuel')) (fuel : Nat) :
    run fuel = .outOfFuel ∨ ∃ b t, run fuel = .done b t ∧ done t := by
  obtain ⟨enough, hLands⟩ := h.exists_run
  obtain ⟨b, t, hRun, ht⟩ := hLands.cases.resolve_right fun ⟨_, _, _, _, hNo⟩ => hNo
  have hMax := (hBelow (Nat.le_max_left enough fuel)).of_done hRun
  rcases hBelow (Nat.le_max_right enough fuel) with hOut | hSame
  · exact .inl hOut
  · exact .inr ⟨b, t, hSame.trans hMax, ht⟩

theorem Halts.choice_none [Inhabited α] {occurrence : Nat} {branches : List (Branch (Op α))}
    {act : α → α → α} {a : α} {done : State → Prop} {stopped : Nat → State → Prop}
    (hGates : ∀ gate ∈ branches.map (·.gate), gate = none)
    (hBranch : ∀ mask, i.branchAt? s occurrence branches mask = none) (hFails : i.Fails s stopped) :
    Halts (fun fuel => i.runOp fuel (.choice occurrence branches act) a s) done stopped := by
  refine .of_run ((branches.map (·.gate)).length + 1 + 1) ?_
  rw [Input.runOp_choice_none (Input.askGates_plain hGates) (hBranch _)]
  exact hFails _

namespace RunsOut

theorem of_le {run : Nat → Outcome β} {m : Nat} (h : RunsOut run n) (hLe : m ≤ n) : RunsOut run m :=
  fun fuel hFuel => h fuel (hFuel.trans hLe)

theorem step {γ : Type} {run : Nat → Outcome β} {run' : Nat → Outcome γ} (h : RunsOut run n)
    (hZero : run' 0 = .outOfFuel)
    (hSucc : ∀ fuel, run fuel = .outOfFuel → run' (fuel + 1) = .outOfFuel) :
    RunsOut run' (n + 1) := by
  intro fuel hFuel
  cases fuel with
  | zero => exact hZero
  | succ fuel => exact hSucc fuel (h fuel (Nat.le_of_succ_le_succ hFuel))

variable [Inhabited α] {a : α}

theorem body_first {op : Op α} {ops : List (Op α)} (h : RunsOut (fun fuel => i.runOp fuel op a s) n) :
    RunsOut (fun fuel => i.runBody fuel (op :: ops) a s) (n + 1) :=
  h.step (by rw [Input.runBody]) fun fuel hOut => by rw [Input.runBody, hOut]

theorem body_later {op : Op α} {ops : List (Op α)} {mid : State → Prop}
    (hOp : Halts (fun fuel => i.runOp fuel op a s) mid fun _ _ => False)
    (h : ∀ b t, mid t → RunsOut (fun fuel => i.runBody fuel ops b t) n) :
    RunsOut (fun fuel => i.runBody fuel (op :: ops) a s) (n + 1) := by
  intro fuel hFuel
  cases fuel with
  | zero => simp only [Input.runBody]
  | succ fuel =>
    rcases hOp.outOfFuel_or_done (fun hLe => runOp_below hLe op a s) fuel with hOut | ⟨b, t, hRun, ht⟩
    · simp only [Input.runBody, hOut]
    · simp only [Input.runBody, hRun]
      exact h b t ht fuel (Nat.le_of_succ_le_succ hFuel)

theorem subrule {occurrence : Nat} {rule : String} {label : Option String} {act : α → α → α}
    {id : RuleId} (hName : i.grammar.ruleNamed? rule = some id)
    (h : RunsOut (fun fuel => i.invoke fuel id occurrence label s) n) :
    RunsOut (fun fuel => i.runOp fuel (.subrule occurrence rule label act) a s) (n + 1) :=
  h.step (by rw [Input.runOp]) fun fuel hOut => by
    rw [Input.runOp_subrule hName, hOut]
    rfl

theorem choice {occurrence : Nat} {branches : List (Branch (Op α))} {act : α → α → α}
    {branch : Branch (Op α)} (hGates : ∀ gate ∈ branches.map (·.gate), gate = none)
    (hBranch : ∀ mask, i.branchAt? s occurrence branches mask = some branch)
    (h : RunsOut (fun fuel => i.runBody fuel branch.body default s) n) :
    RunsOut (fun fuel => i.runOp fuel (.choice occurrence branches act) a s) (n + 1) := by
  have hAnswered : Halts (fun fuel => i.askGates fuel (branches.map (·.gate)) s) (· = s)
      fun _ _ => False := .of_run _ (by rw [Input.askGates_plain hGates]; rfl)
  refine h.step (by rw [Input.runOp]) fun fuel hOut => ?_
  rcases hAnswered.outOfFuel_or_done (fun hLe => askGates_below hLe _ s) fuel with
    hNone | ⟨mask, t, hMask, rfl⟩
  · simp only [Input.runOp, hNone]
  · rw [Input.runOp_choice_taken hMask (hBranch mask), hOut]
    rfl

theorem invoke {rule : RuleId} {occurrence : Nat} {label : Option String}
    (h : RunsOut (fun fuel => i.runBody fuel (i.grammar.body rule) default
      (i.enter s rule occurrence)) n) :
    RunsOut (fun fuel => i.invoke fuel rule occurrence label s) (n + 1) :=
  h.step (by rw [Input.invoke]) fun fuel hOut => by rw [Input.invoke, hOut]

end RunsOut

/-- A rule that fails in front of a token that can follow it ends there. -/
theorem recoverRule_here (hOn : i.recoveryEnabled s = true)
    (hFollow : i.inCurrentFollow s (i.kindAt s.position) = true) (error : Nat) :
    i.recoverRule s error = (s.markRecovered.resyncTo i error s.position, true) := by
  have hCalls : s.markRecovered.calls = s.calls := (frame_markRecovered (i := i)).calls
  have hPosition : s.markRecovered.position = s.position := position_updateNode _
  have hPlace : i.resyncPlace? s.markRecovered (i.tokens.size + 1) s.markRecovered.position =
      some s.position := by
    have hHere : i.inCurrentFollow s.markRecovered (i.kindAt s.position) = true := by
      rwa [Input.inCurrentFollow, hCalls]
    rw [Input.resyncPlace?, hPosition, if_pos hHere]
  rcases i.recoverRule_cases s error with ⟨index, -, hFound, hRec⟩ | ⟨hOff, -, -, -⟩ | ⟨hNone, -⟩
  · obtain rfl : index = s.position := Option.some.inj (hFound.symm.trans hPlace)
    exact hRec
  · rw [hOn] at hOff
    cases hOff
  · rw [hNone hOn] at hPlace
    cases hPlace

structure AtStart (s : State) : Prop where
  position : s.position = 0
  trials : s.trials = 0

theorem AtStart.leave (h : AtStart s) (rule : RuleId) (label : Option String) :
    AtStart (i.leave s rule label) := by
  refine ⟨(position_leave rule label).trans h.position, ?_⟩
  rw [Input.leave]
  split <;> exact h.trials

theorem AtStart.resync (h : AtStart s) (error : Nat) : AtStart (s.markRecovered.resyncTo i error 0) :=
  ⟨rfl, (frame_markRecovered (i := i)).trials.trans h.trials⟩

theorem AtStart.branchAt? (h : AtStart s) {branches : List (Branch (Op α))}
    (hGates : branches.any (·.gate.isSome) = false) (occurrence : Nat) (mask : List Bool) :
    i.branchAt? s occurrence branches mask =
      (i.chooseBranch .initial (s.key .or occurrence) branches.length none).bind
        fun index => branches[index]? := by
  have hComing : i.coming s = i.coming .initial := by
    unfold Input.coming
    rw [h.position]
    rfl
  rw [Input.branchAt?, hGates, Input.chooseBranch, hComing]
  rfl

end Parse

/-! ## A grammar with a parse that does not end -/

namespace Chain

def types : List TokenType :=
  [.literal "T" "t", .literal "U" "u", .literal "V" "v", .literal "Z" "z"]

def lists : List (Branch (Op Unit)) := [.plain [.enter "item", .enter "list"], .plain [.token 4]]

def items : List (Branch (Op Unit)) :=
  [.plain [.token 1, .token 2], .plain [.consume 1 1 none fun _ a => a, .token 3]]

def rules : List (RuleBody Unit) :=
  [⟨"list", [.choice 0 lists fun _ a => a]⟩, ⟨"item", [.choice 0 items fun _ a => a]⟩]

theorem isFaithful : ∀ r ∈ rules, r.IsFaithful := by
  intro r hr
  simp only [rules, List.mem_cons, List.not_mem_nil, or_false] at hr
  rcases hr with rfl | rfl
  · exact ⟨rfl, rfl⟩
  · exact ⟨rfl, rfl⟩

def tokens : List Token := [⟨1, "t", ⟨0, 1⟩, none, none, false⟩]

def input (g : Grammar Unit) : Parse.Input Unit := ⟨g, tokens.toArray⟩

/-- In front of the token a list begins, no item can be told from another one, and what follows an
item in a list can begin. -/
def check (g : Grammar Unit) : Bool :=
  g.ruleNamed? "list" == some 0 && g.ruleNamed? "item" == some 1 &&
    (input g).chooseBranch .initial ⟨0, .or, 0⟩ 2 none == some 0 &&
    (input g).chooseBranch .initial ⟨1, .or, 0⟩ 2 none == none &&
    ((g.analysis.callFollows.lookup ⟨0, 1, 0⟩).map (·.contains 1)).getD false

open Parse

section Compiled

variable {g : Grammar Unit} {s : State}

theorem recoveryEnabled (hConfig : g.config = { recovery := true }) (hs : AtStart s) :
    (input g).recoveryEnabled s = true := by
  rw [Input.recoveryEnabled, hs.trials]
  show (g.config.recovery && _) = true
  rw [hConfig]
  rfl

variable (hCompile : Grammar.compile (.ofTypes types) rules { recovery := true } = .ok g)
  (hCheck : check g = true)

include hCompile hCheck

/-- An item within a list fails at the first token and ends there. -/
theorem item_halts (hs : AtStart s) {occurrence : Nat} {calls : List Call}
    (hCalls : s.calls = ⟨0, occurrence⟩ :: calls) {a : Unit} :
    Halts (fun fuel => (input g).runOp fuel (.enter "item") a s) AtStart fun _ _ => False := by
  obtain ⟨hCompiled, -, hConfig⟩ := Grammar.compile_ok hCompile
  simp only [check, Bool.and_eq_true, beq_iff_eq] at hCheck
  obtain ⟨⟨⟨⟨-, hItem⟩, -⟩, hNone⟩, hFollow⟩ := hCheck
  refine .subrule hItem (.invoke ?_)
  have hBody : (input g).grammar.body 1 = _ := congrArg (List.getD · 1 []) hCompiled.bodies
  rw [hBody]
  have hEnter : AtStart ((input g).enter s 1 0) := ⟨hs.position, hs.trials⟩
  have hNoBranch (mask : List Bool) :
      (input g).branchAt? ((input g).enter s 1 0) 0 items mask = none :=
    (hEnter.branchAt? rfl 0 mask).trans (Option.bind_eq_none_iff.mpr fun n hn =>
      nomatch hNone.symm.trans hn)
  have hFails : (input g).Fails ((input g).enter s 1 0) fun error t =>
      (input g).overrun? t = none ∧
        if ((input g).recoverRule t error).2
        then AtStart ((input g).leave ((input g).recoverRule t error).1 1 none) else False := by
    intro cause
    set t := ((input g).recordError ((input g).enter s 1 0) cause).1
    have ht : AtStart t := ⟨hEnter.position, hEnter.trials⟩
    have hHere : (input g).inCurrentFollow t ((input g).kindAt t.position) = true := by
      have hStack : t.calls = ⟨1, 0⟩ :: ⟨0, occurrence⟩ :: calls := congrArg _ hCalls
      rw [Input.inCurrentFollow, hStack, ht.position]
      exact hFollow
    refine ⟨InRange.overrun? (by rw [InRange, ht.position]; exact Nat.zero_le _), ?_⟩
    rw [recoverRule_here (recoveryEnabled hConfig ht) hHere, if_pos rfl, ht.position]
    exact (ht.resync _).leave _ _
  have hChoice : Halts (fun fuel => (input g).runOp fuel (.choice 0 items fun _ a => a) default
      ((input g).enter s 1 0)) (fun _ => False) _ := .choice_none (by decide) hNoBranch hFails
  exact .body_cons hChoice fun _ _ => False.elim

/-- A list never ends in front of the first token: behind an item it comes to itself. -/
theorem list_runsOut (n : Nat) (hs : AtStart s) (occurrence : Nat) (label : Option String) :
    RunsOut (fun fuel => (input g).invoke fuel 0 occurrence label s) n := by
  obtain ⟨hCompiled, -, -⟩ := Grammar.compile_ok hCompile
  have hChecked := hCheck
  simp only [check, Bool.and_eq_true, beq_iff_eq] at hChecked
  obtain ⟨⟨⟨⟨hList, -⟩, hFirst⟩, -⟩, -⟩ := hChecked
  have hBody : (input g).grammar.body 0 = _ := congrArg (List.getD · 0 []) hCompiled.bodies
  induction n generalizing s occurrence label with
  | zero =>
    intro fuel hFuel
    obtain rfl := Nat.le_zero.mp hFuel
    simp only [Input.invoke]
  | succ n ih =>
    have hEnter : AtStart ((input g).enter s 0 occurrence) := ⟨hs.position, hs.trials⟩
    have hBranch (mask : List Bool) :
        (input g).branchAt? ((input g).enter s 0 occurrence) 0 lists mask =
          some (.plain [.enter "item", .enter "list"]) :=
      (hEnter.branchAt? rfl 0 mask).trans (Option.bind_eq_some_iff.mpr ⟨0, hFirst, rfl⟩)
    have hLoop : RunsOut (fun fuel => (input g).runBody fuel ((input g).grammar.body 0) default
        ((input g).enter s 0 occurrence)) n := by
      rw [hBody]
      exact RunsOut.of_le (.body_first (.choice (by decide) hBranch (.body_later
        (item_halts hCompile hCheck hEnter rfl) fun b t ht =>
          .body_first (.subrule hList (ih ht 0 none))))) (by omega)
    exact hLoop.invoke

end Compiled

end Chain

/-- A parse that recovers for ever. Its grammar is accepted, has neither gates nor trials, and asks
for the end of the input nowhere. -/
theorem parse_endless : ∃ g,
    Grammar.compile (.ofTypes Chain.types) Chain.rules { recovery := true } = .ok g ∧
      (∀ r ∈ Chain.rules, r.IsFaithful) ∧ (∀ r ∈ Chain.rules, Op.allTrialFree r.body = true) ∧
      AllRules Production.IsUngated g.rules ∧ ReadsEndLast g.rules ∧
      ∀ fuel, g.parseWithin fuel "list" Chain.tokens = .outOfFuel := by
  obtain ⟨g, hCompile, hChecked⟩ := Grammar.exists_compiled
    (v := .ofTypes Chain.types) (p := fun g => Chain.check g &&
      decide (AllRules Production.IsUngated g.rules) && decide (ReadsEndLast g.rules) &&
      g.ruleNamed? "list" == some 0)
    (by decide +kernel : (Grammar.compile (.ofTypes Chain.types) Chain.rules
      { recovery := true }).toOption.any _ = true)
  simp only [Bool.and_eq_true, decide_eq_true_eq, beq_iff_eq] at hChecked
  obtain ⟨⟨⟨hCheck, hUngated⟩, hEnd⟩, hStart⟩ := hChecked
  refine ⟨g, hCompile, Chain.isFaithful, by decide, hUngated, hEnd, fun fuel => ?_⟩
  have hRun : (Chain.input g).invoke fuel 0 0 none .initial = .outOfFuel :=
    Chain.list_runsOut hCompile hCheck fuel ⟨rfl, rfl⟩ 0 none fuel (Nat.le_refl fuel)
  simp only [Grammar.parseWithin, hStart]
  show (Chain.input g).parseFrom fuel 0 = .outOfFuel
  rw [Parse.Input.parseFrom, hRun]

end PredictiveParsing
