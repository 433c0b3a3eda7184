import PredictiveParsing.Proofs.Parse.Agreement
import PredictiveParsing.Proofs.Parse.InvariantInside

/-!
# Every run agrees with the one without recovery

The induction on the bound of nested steps, which is the same for both runs. Their states need not
stay alike, since recovery goes on where the other run has ended; what is related are outcomes. The
tables of the analysis come in at two places: where a repetition skips tokens, and where a rule is
left.
-/

namespace PredictiveParsing.Parse

open Relation

variable {α : Type} [Inhabited α] {i : Input α} {b : Bool} {r : RuleId} {s t : State}
  {sources : List (RuleBody α)} {k : List Production × Continuation}

structure AgreesWithin (i : Input α) (b : Bool) (fuel : Nat) : Prop where
  body : ∀ {r k} ops a s, Untroubled i r s → Op.propagatesAll ops = true →
    Placed i.grammar r (i.grammar.shape ops) k → Agrees i (inSequence [] k)
      (i.runBody fuel ops a s) ((i.withRecovery b).runBody fuel ops a s)
  op : ∀ {r k} op a s, Untroubled i r s → op.propagates = true →
    Placed i.grammar r (i.grammar.shapeOf op) k → Agrees i (inSequence [] k)
      (i.runOp fuel op a s) ((i.withRecovery b).runOp fuel op a s)
  invoke : ∀ {r name id occurrence after} label s, Untroubled i r s →
    (r, ⟨.nonTerminal name (some id) occurrence, after⟩) ∈ Analysis.sites i.grammar.rules →
    Agrees i after (i.invoke fuel id occurrence label s)
      ((i.withRecovery b).invoke fuel id occurrence label s)
  loop : ∀ {r k loop occurrence} isFirst a s, Untroubled i r s → i.LoopAt r k loop occurrence →
    Agrees i (inSequence [] k) (i.runLoop fuel loop isFirst a s)
      ((i.withRecovery b).runLoop fuel loop isFirst a s)
  iteration : ∀ {r k loop occurrence} a s, Untroubled i r s → i.LoopAt r k loop occurrence →
    Agrees i (inSequence [] k) (i.runIteration fuel loop a s)
      ((i.withRecovery b).runIteration fuel loop a s)

omit [Inhabited α] in
theorem unfolds_nested {rest : Continuation} (rules : List Rule) :
    Unfolds rules (inSequence [] ([], rest)) rest := .single (.head .nil)

omit [Inhabited α] in
theorem agrees_consume (h : i.IsUnaided sources) (hs : Untroubled i r s) {c : Continuation}
    (occurrence : Nat) (token : TypeId) (label : Option String) :
    Agrees i c (i.consume s occurrence token label)
      ((i.withRecovery b).consume s occurrence token label) := by
  cases hMatch : i.isMatch (i.next s).kind token with
  | true =>
    have hSame : (i.withRecovery b).consume s occurrence token label =
        i.consume s occurrence token label := by
      simp only [Input.consume, next_withRecovery, isMatch_withRecovery, addToken_withRecovery,
        hMatch, if_true]
      rfl
    rw [hSame]
    refine .of_eq _ ?_
    simp only [Input.consume, hMatch, if_true]
    trivial
  | false =>
    have hReported : ((i.withRecovery b).consume s occurrence token label).Reports (i.next s) :=
      reports_consume (i := i.withRecovery b) hs.errors hMatch occurrence label
    have hOff : i.recoveryEnabled (i.recordError s (.mismatchedToken token)).1 = false :=
      h.recoveryEnabled _
    simp only [Input.consume, hMatch, hOff, Bool.false_eq_true, if_false] at hReported ⊢
    exact hReported

omit [Inhabited α] in
theorem Stuck.leave (h : i.IsUnaided sources) {name : String} {id : RuleId} {occurrence : Nat}
    {after : Continuation} {label : Option String} (hs : Untroubled i r s)
    (hSite : (r, ⟨.nonTerminal name (some id) occurrence, after⟩) ∈
      Analysis.sites i.grammar.rules) (hFrame : Frame i (i.enter s id occurrence) t)
    (hStuck : Stuck i (inSequence [] ([], [])) t) : Stuck i after (i.leave t id label) := by
  have hOutside := hStuck.outside
  have hCalls : t.calls = ⟨id, occurrence⟩ :: s.calls := hFrame.calls
  rw [hCalls, Input.followsAny, Bool.or_eq_false_iff] at hOutside
  refine Stuck.of_position (s := { t with calls := s.calls }) ⟨hStuck.notEnd, ?_, hOutside.2⟩
    (position_leave _ _) hFrame.leave.calls
  intro hBegins
  have hMem := BeginsWith.mem_follow h.compiled.areSolid (h.compiled.isSolid_after hSite) hBegins
  rw [hs.callFollow? h.compiled hSite] at hOutside
  exact Bool.false_ne_true (hOutside.1.symm.trans (TokenSet.contains_iff.mpr hMem))

omit [Inhabited α] in
theorem stuck_of_skip (h : i.IsUnaided sources) {loop : Input.Loop α} {occurrence : Nat}
    {exits : TokenSet} (hLoop : i.LoopAt r k loop occurrence)
    (hExits : i.grammar.analysis.repetitionExits.lookup loop.key = some exits)
    (hEnd : i.kindAt s.position ≠ Vocabulary.eof)
    (hNot : exits.contains (i.kindAt s.position) = false)
    (hOutside : i.inEnclosingFollows s (i.kindAt s.position) = false) :
    Stuck i (inSequence [] k) s := by
  rw [Input.inEnclosingFollows, Bool.or_eq_false_iff] at hOutside
  refine ⟨hEnd, fun hBegins => ?_, hOutside.2⟩
  have hSite := hLoop.placed.site
  rw [hLoop.key, h.compiled.repetitionExit hSite] at hExits
  cases hExits
  have hMem := BeginsWith.mem_follow h.compiled.areSolid (h.compiled.isSolid_after hSite) hBegins
  exact Bool.false_ne_true (hNot.symm.trans (TokenSet.contains_iff.mpr hMem))

namespace AgreesWithin

variable {fuel : Nat} (h : i.IsUnaided sources) (ih : AgreesWithin i b fuel)

include h ih

theorem body_succ (ops : List (Op α)) (a : α) (s : State) (hs : Untroubled i r s)
    (hOps : Op.propagatesAll ops = true) (hPlaced : Placed i.grammar r (i.grammar.shape ops) k) :
    Agrees i (inSequence [] k) (i.runBody (fuel + 1) ops a s)
      ((i.withRecovery b).runBody (fuel + 1) ops a s) := by
  cases ops with
  | nil =>
    rw [Input.runBody, Input.runBody]
    exact .inl rfl
  | cons op ops =>
    rw [Op.propagatesAll, Bool.and_eq_true] at hOps
    rw [Grammar.shape_cons] at hPlaced
    have hOp := ih.op op a s hs hOps.1 hPlaced.left
    have hFrame := (frame_runs i fuel).op op a s
    have hRead := (h.regular.readWithin fuel).op op a s hs.inside hOps.1
    have hReports : ∀ {x}, ((i.withRecovery b).runOp fuel op a s).Reports x →
        ((i.withRecovery b).runBody (fuel + 1) (op :: ops) a s).Reports x := reports_runBody
    rw [Input.runBody]
    cases hr : i.runOp fuel op a s with
    | done a' t =>
      rw [hr] at hOp hFrame hRead
      have ht := hs.of_frame hFrame (hRead.silent (h.recoveryEnabled s))
      rcases hOp with hSame | ⟨hStuck, hReported⟩
      · rw [Input.runBody, hSame]
        exact ih.body ops a' t ht hOps.2 hPlaced.right
      · exact Stuck.agrees (inSequence (i.grammar.shape ops)) (inSequence []) k hStuck
          (h.recoveryEnabled t) ((frame_runs i fuel).body ops a' t)
          ((h.regular.readWithin fuel).body ops a' t ht.inside hOps.2) (hReports hReported)
    | interrupted e a' t =>
      rw [hr] at hOp
      have hReported := hReports hOp
      exact hReported
    | panicked why => trivial
    | outOfFuel => trivial

omit h in
theorem choice_succ {branches : List (Branch (Op α))} {occurrence : Nat} (act : α → α → α) (a : α)
    (s : State) (hs : Untroubled i r s)
    (hBranches : ∀ branch ∈ branches, Op.propagatesAll branch.body = true)
    (hPlaced : Placed i.grammar r [.alternation (i.grammar.shapeOfBranches branches) occurrence] k) :
    Agrees i (inSequence [] k) (i.runOp (fuel + 1) (.choice occurrence branches act) a s)
      ((i.withRecovery b).runOp (fuel + 1) (.choice occurrence branches act) a s) := by
  have hState := askGates_state hs.inside.tidy fuel (branches.map (·.gate))
  have hGates := askGates_withRecovery i b fuel s (branches.map (·.gate))
  cases hr : i.askGates fuel (branches.map (·.gate)) s with
  | done mask t =>
    rw [hr] at hState hGates
    obtain rfl : t = s := hState
    cases hBranch : i.branchAt? t occurrence branches mask with
    | some branch =>
      have hMem := Input.mem_of_branchAt? hBranch
      rw [Input.runOp_choice_taken hr hBranch,
        Input.runOp_choice_taken (i := i.withRecovery b) hGates hBranch]
      exact ((ih.body branch.body default t hs (hBranches branch hMem)
        (hPlaced.alternative (i.grammar.mem_shapeOfBranches hMem))).unfold (unfolds_nested _)).finish _ _
    | none =>
      rw [Input.runOp_choice_none hr hBranch,
        Input.runOp_choice_none (i := i.withRecovery b) hGates hBranch]
      exact .of_eq _ (firstAt_recordError hs.errors _)
  | interrupted e mask t =>
    rw [hr] at hState
    exact hState.elim
  | panicked why =>
    simp only [Input.runOp, hr]
    trivial
  | outOfFuel =>
    simp only [Input.runOp, hr]
    trivial

theorem op_succ (op : Op α) (a : α) (s : State) (hs : Untroubled i r s) (hOp : op.propagates = true)
    (hPlaced : Placed i.grammar r (i.grammar.shapeOf op) k) : Agrees i (inSequence [] k)
      (i.runOp (fuel + 1) op a s) ((i.withRecovery b).runOp (fuel + 1) op a s) := by
  let R := agreement i (inSequence [] k)
  cases op with
  | consume occurrence token label act =>
    exact Input.related_consume R (agrees_consume h hs occurrence token label)
  | subrule occurrence rule label act =>
    rw [Grammar.shapeOf_subrule] at hPlaced
    refine Input.related_subrule (σ := id) R ?_ trivial fun target hName => ?_
    · rw [ruleNamed?_withRecovery, Option.map_id, id]
    · rw [hName] at hPlaced
      exact ih.invoke label s hs hPlaced.site
  | option occurrence body act =>
    rw [Grammar.shapeOf_option] at hPlaced
    refine Input.related_option R rfl ?_ (.inl rfl)
    exact (ih.body body a s hs hOp hPlaced.option).unfold (unfolds_nested _)
  | repetition mandatory separator occurrence body act =>
    have hBody : Op.propagatesAll body = true := hOp
    rw [Grammar.shapeOf_repetition] at hPlaced
    refine Input.related_repetition (σ := id) R rfl ?_
    rintro _ rfl
    exact ih.loop true a s hs ⟨hs.key _ _, hPlaced, hBody⟩
  | choice occurrence branches act =>
    rw [Op.propagates, Op.propagatesBranches_iff] at hOp
    rw [Grammar.shapeOf_choice] at hPlaced
    exact ih.choice_succ act a s hs hOp hPlaced
  | peek distance act =>
    simp only [Input.runOp, ahead_withRecovery]
    exact .inl rfl
  | trial rule act =>
    refine Input.related_trial R ?_
    rw [runTrial_withRecovery]
    refine Agrees.of_eq _ ?_
    exact (runTrial_state hs.inside.tidy fuel rule).mono (fun _ _ => trivial) fun _ _ => False.elim
  | whenParsing body =>
    rw [Grammar.shapeOf_whenParsing] at hPlaced
    simp only [Input.runOp]
    exact ih.body body a s hs hOp hPlaced
  | whenRecording body =>
    simp only [Input.runOp]
    exact .inl rfl
  | attempt body act => cases hOp

theorem invoke_succ {name : String} {id : RuleId} {occurrence : Nat} {after : Continuation}
    (label : Option String) (s : State) (hs : Untroubled i r s)
    (hSite : (r, ⟨.nonTerminal name (some id) occurrence, after⟩) ∈
      Analysis.sites i.grammar.rules) :
    Agrees i after (i.invoke (fuel + 1) id occurrence label s)
      ((i.withRecovery b).invoke (fuel + 1) id occurrence label s) := by
  have hEnter : Untroubled i id (i.enter s id occurrence) :=
    ⟨hs.inside.tidy.inside_enter id occurrence, rfl, hs.errors⟩
  have hPlaced : Placed i.grammar id (i.grammar.shape (i.grammar.body id)) ([], []) := by
    obtain ⟨_, hEq, hName⟩ := h.compiled.target_of_site hSite
    cases hEq
    rw [← h.regular.faithful.definition]
    exact .definition (Grammar.lt_of_ruleNamed? hName)
  have hBody := ih.body (i.grammar.body id) default (i.enter s id occurrence) hEnter
    (h.regular.faithful.propagates id) hPlaced
  have hFrame := (frame_runs i fuel).body (i.grammar.body id) default (i.enter s id occurrence)
  have hReports : ∀ {x}, ((i.withRecovery b).runBody fuel (i.grammar.body id) default
      (i.enter s id occurrence)).Reports x →
      ((i.withRecovery b).invoke (fuel + 1) id occurrence label s).Reports x := reports_invoke
  rw [Input.invoke]
  cases hr : i.runBody fuel (i.grammar.body id) default (i.enter s id occurrence) with
  | done a t =>
    rw [hr] at hBody hFrame
    rcases hBody with hSame | ⟨hStuck, hReported⟩
    · rw [Input.invoke, body_withRecovery, enter_withRecovery, hSame]
      exact .inl rfl
    · refine .inr ⟨hStuck.leave h hs hSite hFrame, hReports ?_⟩
      rwa [next_congr (position_leave _ _)]
  | interrupted e a t =>
    rw [hr] at hBody hFrame
    rcases i.recoverRule_cases t e with ⟨index, hOn, -, -⟩ | ⟨-, hCalls, -, -⟩ | ⟨-, hRec⟩
    · rw [h.recoveryEnabled] at hOn
      cases hOn
    · exact absurd hCalls (hs.inside.not_outermost hFrame.markRecovered.1)
    · have hPosition : (i.leave t.markRecovered id label).position = t.position := by
        rw [position_leave, State.markRecovered, position_updateNode]
      have hInRange : i.overrun? t = none := by
        rw [Input.overrun?, h.recoveryEnabled, if_neg (by simp)]
      simp only [hInRange, hRec, Agrees, next_congr hPosition]
      exact hReports hBody
  | panicked why => trivial
  | outOfFuel => trivial

theorem loop_succ {loop : Input.Loop α} {occurrence : Nat} (isFirst : Bool) (a : α) (s : State)
    (hs : Untroubled i r s) (hLoop : i.LoopAt r k loop occurrence) :
    Agrees i (inSequence [] k) (i.runLoop (fuel + 1) loop isFirst a s)
      ((i.withRecovery b).runLoop (fuel + 1) loop isFirst a s) := by
  let R := agreement i (inSequence [] k)
  cases isFirst with
  | true =>
    refine Input.related_runLoop_first (σ := id) R rfl (ih.iteration a s hs hLoop) (fun cause => ?_)
      rfl (.inl rfl)
    have hFirst : FirstAt (i.next s) (i.recordError s cause).1 := firstAt_recordError hs.errors cause
    exact hFirst
  | false =>
    refine Input.related_runLoop_later (σ := id) R rfl rfl (fun _ => ?_) ?_
    · rw [consumeSeparator_withRecovery]
      exact ih.iteration a _ (hs.of_frame (frame_consumeSeparator _) (errors_consumeSeparator _))
        hLoop
    · have hStays : i.skipToNextIteration s loop.key (i.decisionAt? loop.key) loop.separator =
          (s, false) := by
        rcases i.skipToNextIteration_cases s loop.key (i.decisionAt? loop.key) loop.separator with
          hSkip | ⟨_, _, _, hOn, -⟩
        · exact hSkip
        · rw [h.recoveryEnabled] at hOn
          cases hOn
      rw [hStays]
      rcases (i.withRecovery b).skipToNextIteration_cases s (loop.key.rename id)
        (i.decisionAt? loop.key) loop.separator with
        hSkip | ⟨exits, index, resumes, -, hExits, hEnd, hNot, hOutside, -, hSkip⟩
      · rw [hSkip]
        exact .inl rfl
      · rw [inEnclosingFollows_withRecovery] at hOutside
        refine .inr ⟨stuck_of_skip h hLoop hExits hEnd hNot hOutside, reports_skipped ?_⟩
        rw [hSkip]
        exact (firstAt_recordError (i := i.withRecovery b) hs.errors _).congr
          (map_bare_resyncTo _ _ _)

theorem iteration_succ {loop : Input.Loop α} {occurrence : Nat} (a : α) (s : State)
    (hs : Untroubled i r s) (hLoop : i.LoopAt r k loop occurrence) :
    Agrees i (inSequence [] k) (i.runIteration (fuel + 1) loop a s)
      ((i.withRecovery b).runIteration (fuel + 1) loop a s) := by
  have hPropagates := hLoop.propagates
  have hBody := ih.body loop.body a s hs hPropagates hLoop.placed.iteration
  have hFrame := (frame_runs i fuel).body loop.body a s
  have hRead := (h.regular.readWithin fuel).body loop.body a s hs.inside hPropagates
  have hReports : ∀ {x}, ((i.withRecovery b).runBody fuel loop.body a s).Reports x →
      ((i.withRecovery b).runIteration (fuel + 1) loop a s).Reports x := reports_runIteration
  rw [Input.runIteration]
  cases hr : i.runBody fuel loop.body a s with
  | done a' t =>
    rw [hr] at hBody hFrame hRead
    have ht := hs.of_frame hFrame (hRead.silent (h.recoveryEnabled s))
    rcases hBody with hSame | ⟨hStuck, hReported⟩
    · rw [Input.runIteration, hSame]
      simp only
      split
      · exact .of_eq _ trivial
      · exact ih.loop false a' t ht hLoop
    · have hAhead : Stuck i (i.furtherIterations loop (inSequence [] k)) t :=
        hStuck.unfold (unfolds_nested _)
      simp only
      split
      · exact .inr ⟨hAhead.unfold (.single (.head .stop)), hReports hReported⟩
      · exact Stuck.agrees (i.furtherIterations loop) id (inSequence [] k) hAhead
          (h.recoveryEnabled t)
          ((frame_runs i fuel).loop loop false a' t)
          ((h.regular.readWithin fuel).laterLoop loop a' t ht.inside hPropagates)
          (hReports hReported)
  | interrupted e a' t =>
    rw [hr] at hBody
    rcases i.resumeRepetition_cases t loop.key (i.decisionAt? loop.key) loop.separator e with
      hRes | ⟨index, hOn, -⟩
    · have hReported := hReports hBody
      simp only [hRes]
      exact hReported
    · rw [h.recoveryEnabled] at hOn
      cases hOn
  | panicked why => trivial
  | outOfFuel => trivial

end AgreesWithin

theorem Input.IsUnaided.agreesWithin (h : i.IsUnaided sources) (b : Bool) (fuel : Nat) :
    AgreesWithin i b fuel := by
  induction fuel with
  | zero =>
    refine ⟨?_, ?_, ?_, ?_, ?_⟩ <;> intros
    · rw [Input.runBody]; trivial
    · rw [Input.runOp]; trivial
    · rw [Input.invoke]; trivial
    · rw [Input.runLoop]; trivial
    · rw [Input.runIteration]; trivial
  | succ fuel ih =>
    exact ⟨ih.body_succ h, ih.op_succ h, ih.invoke_succ h, ih.loop_succ h, ih.iteration_succ h⟩

end PredictiveParsing.Parse
