import PredictiveParsing.Proofs.Grammar.LeftRecursion
import PredictiveParsing.Proofs.Parse.Ahead
import PredictiveParsing.Proofs.Parse.Returns

/-!
# Runs along a derivation

A run with a derivation ahead follows it to its end without an error, and returns. The induction is
on the number of reads ahead, then on the order of the rules, then on the operations of a body: an
operation is run either with fewer reads ahead, or it can be entered before the rule reads anything.
-/

namespace PredictiveParsing.Parse

open Structure

variable {α : Type} {i : Input α} {sources : List (RuleBody α)} {start r : RuleId}
  {outer c after : Continuation} {m n : Nat} {s t : State} {k : List Production × Continuation}
  {p : Production} {d ps qs : List Production}

def Past (i : Input α) (start r : RuleId) (outer c after : Continuation) (m : Nat) (t : State) :
    Prop :=
  ∃ n, Ahead i start r outer after n t ∧ Spent i.grammar.rules c m n

theorem Past.of_nullable (ht : Ahead i start r outer after m t)
    (hNull : Nullable i.grammar.rules c) : Past i start r outer c after m t :=
  ⟨m, ht, .of_nullable hNull⟩

theorem Past.omitted (ht : Ahead i start r outer after m t)
    (hExpands : p.Expands i.grammar.rules []) : Past i start r outer [.sequence [p]] after m t :=
  .of_nullable ht (nullable_sequence_cons.mpr ⟨⟨[], hExpands, nullable_nil⟩, nullable_sequence_nil⟩)

theorem Past.nested (h : Past i start r outer [.sequence d] (inSequence [] ([], after)) m t)
    (hExpands : p.Expands i.grammar.rules [.sequence d]) :
    Past i start r outer [.sequence [p]] after m t := by
  obtain ⟨n, ht, hSpent⟩ := h
  exact ⟨n, ht.of_nested, hSpent.nested hExpands⟩

variable [Inhabited α]

/-- Calls of a rule return if so many reads are ahead. -/
def CallsReturn (i : Input α) (start : RuleId) (m : Nat) (id : RuleId) : Prop :=
  ∀ {r outer name occurrence after} label s,
    (r, ⟨.nonTerminal name (some id) occurrence, after⟩) ∈ Analysis.sites i.grammar.rules →
    Ahead i start r outer (.sequence (definitionOf i.grammar.rules id) :: after) m s →
    Returns i (fun fuel => i.invoke fuel id occurrence label s)
      (Past i start r outer [.sequence (definitionOf i.grammar.rules id)] after m)

structure Supported (i : Input α) (start : RuleId) (m : Nat) (ps : List Production) : Prop where
  fewer : ∀ n < m, ∀ id, CallsReturn i start n id
  first : ∀ id ∈ (openingOf (.ofRules i.grammar.rules) ps).1, CallsReturn i start m id

namespace Supported

theorem mono (h : Supported i start m ps)
    (hFirst : ∀ id ∈ (openingOf (.ofRules i.grammar.rules) qs).1,
      id ∈ (openingOf (.ofRules i.grammar.rules) ps).1) : Supported i start m qs :=
  ⟨h.fewer, fun id hId => h.first id (hFirst id hId)⟩

theorem of_lt (h : Supported i start m ps) (hLt : n < m) : Supported i start n qs :=
  ⟨fun l hl => h.fewer l (Nat.lt_trans hl hLt), fun id _ => h.fewer n hLt id⟩

theorem left (h : Supported i start m (ps ++ qs)) : Supported i start m ps :=
  h.mono fun _ => mem_openingOf_left

theorem right (h : Supported i start m (ps ++ qs))
    (hSpent : Spent i.grammar.rules [.sequence ps] m n) : Supported i start n qs := by
  rcases hSpent with hLt | ⟨rfl, hNull⟩
  · exact h.of_lt hLt
  · have hKnown := hNull.vanishes
    rw [snd_sequence] at hKnown
    exact h.mono fun _ => mem_openingOf_right hKnown

theorem nested (h : Supported i start m [p])
    (hFirst : ∀ id ∈ (openingOf (.ofRules i.grammar.rules) d).1,
      id ∈ (opening (.ofRules i.grammar.rules) p).1) : Supported i start m d :=
  h.mono fun id hId => by
    rw [openingOf_singleton]
    exact hFirst id hId

end Supported

/-- Runs of operations at their place in a rule return behind what they derive. -/
def BodyReturns (i : Input α) (start : RuleId) (ops : List (Op α)) : Prop :=
  ∀ {r outer k m} a s, Op.propagatesAll ops = true → (∀ name ∈ Op.triedBy ops, i.Tries name) →
    Placed i.grammar r (i.grammar.shape ops) k → Supported i start m (i.grammar.shape ops) →
    Ahead i start r outer (inSequence (i.grammar.shape ops) k) m s →
    Returns i (fun fuel => i.runBody fuel ops a s)
      (Past i start r outer [.sequence (i.grammar.shape ops)] (inSequence [] k) m)

def OpReturns (i : Input α) (start : RuleId) (op : Op α) : Prop :=
  ∀ {r outer k m} a s, op.propagates = true → (∀ name ∈ op.tried, i.Tries name) →
    Placed i.grammar r (i.grammar.shapeOf op) k → Supported i start m (i.grammar.shapeOf op) →
    Ahead i start r outer (inSequence (i.grammar.shapeOf op) k) m s →
    Returns i (fun fuel => i.runOp fuel op a s)
      (Past i start r outer [.sequence (i.grammar.shapeOf op)] (inSequence [] k) m)

/-! ## Bodies -/

theorem bodyReturns_nil : BodyReturns i start [] := by
  intro r outer k m a s _ _ _ _ hs
  rw [Grammar.shape_nil] at hs ⊢
  exact .body_nil (.of_nullable hs nullable_sequence_nil)

theorem bodyReturns_cons {op : Op α} {ops : List (Op α)} (hOp : OpReturns i start op)
    (hOps : BodyReturns i start ops) : BodyReturns i start (op :: ops) := by
  intro r outer k m a s hPropagates hTried hPlaced hSupported hs
  rw [Op.propagatesAll, Bool.and_eq_true] at hPropagates
  rw [Op.triedBy, List.forall_mem_append] at hTried
  rw [Grammar.shape_cons] at hPlaced hSupported hs ⊢
  have hFirst : Ahead i start r outer
      (inSequence (i.grammar.shapeOf op) (i.grammar.shape ops ++ k.1, k.2)) m s := by
    rwa [inSequence, ← List.append_assoc]
  refine .body_cons (hOp a s hPropagates.1 hTried.1 hPlaced.left hSupported.left hFirst) ?_
  rintro b t ⟨n, ht, hSpent⟩
  refine (hOps b t hPropagates.2 hTried.2 hPlaced.right (hSupported.right hSpent) ht).mono ?_
  rintro u ⟨l, hu, hSpent'⟩
  exact ⟨l, hu, hSpent.sequence hSpent'⟩

/-! ## Operations -/

section Operations

variable {occurrence : Nat} {label : Option String} {body : List (Op α)}

theorem opReturns_of_none {op : Op α} (hShape : i.grammar.shapeOf op = [])
    (hRun : ∀ a s, ∃ b, ∀ fuel, i.runOp (fuel + 1) op a s = .done b s) : OpReturns i start op := by
  intro r outer k m a s _ _ _ _ hs
  rw [hShape] at hs ⊢
  obtain ⟨b, hDone⟩ := hRun a s
  exact (Returns.of_done (.of_nullable hs nullable_sequence_nil)).step (by rw [Input.runOp]) hDone

theorem opReturns_trial {rule : String} {act : Bool → α → α} :
    OpReturns i start (.trial rule act) := by
  intro r outer k m a s _ hTried _ _ hs
  rw [Grammar.shapeOf_trial] at hs ⊢
  refine Returns.step (Returns.finish ⟨fun fuel => ?_, fun hTrials => ?_⟩ (act · a) fun _ => a)
    (by rw [Input.runOp]) fun fuel => Input.runOp_trial
  · refine (runTrial_state hs.untroubled.inside.tidy fuel rule).mono ?_ fun _ _ => id
    rintro t rfl
    exact .of_nullable hs nullable_sequence_nil
  · exact hTrials rule (hTried rule (List.mem_singleton_self rule)) s

theorem opReturns_whenParsing (hBody : BodyReturns i start body) :
    OpReturns i start (.whenParsing body) := by
  intro r outer k m a s hPropagates hTried hPlaced hSupported hs
  rw [Grammar.shapeOf_whenParsing] at hPlaced hSupported hs ⊢
  exact (hBody a s hPropagates hTried hPlaced hSupported hs).step (by rw [Input.runOp])
    fun fuel => by rw [Input.runOp]

variable (h : i.IsPredictive sources start)

include h

theorem opReturns_consume {token : TypeId} {act : Token → α → α} :
    OpReturns i start (.consume occurrence token label act) := by
  intro r outer k m a s _ _ _ _ hs
  rw [Grammar.shapeOf_consume] at hs ⊢
  obtain ⟨x, t, n, hRun, hLt, ht⟩ := hs.consume h label
  refine (Returns.of_done (b := act x a) ⟨n, ht, .inl hLt⟩).step (by rw [Input.runOp]) fun fuel => ?_
  rw [Input.runOp_consume, hRun]
  rfl

theorem opReturns_subrule {rule : String} {act : α → α → α} :
    OpReturns i start (.subrule occurrence rule label act) := by
  intro r outer k m a s _ _ hPlaced hSupported hs
  rw [Grammar.shapeOf_subrule] at hPlaced hSupported hs ⊢
  obtain ⟨id, hId, hName⟩ := h.compiled.target_of_site hPlaced.site
  rw [hId] at hPlaced hSupported hs ⊢
  obtain ⟨c, hExpands, hc⟩ := hs.production
  have hFirst : id ∈ (openingOf (.ofRules i.grammar.rules)
      [.nonTerminal rule (some id) occurrence]).1 := by
    rw [openingOf_singleton, opening]
    exact List.mem_singleton_self id
  cases hExpands with
  | reference hTarget =>
    have hCall := hSupported.first id hFirst label s hPlaced.site hc
    refine ((hCall.mono ?_).finish (act · a) fun _ => a).step (by rw [Input.runOp])
      fun fuel => Input.runOp_subrule hName
    rintro t ⟨n, ht, hSpent⟩
    exact ⟨n, ht, hSpent.nested (.reference hTarget)⟩

theorem opReturns_option {act : Bool → α → α} (hBody : BodyReturns i start body) :
    OpReturns i start (.option occurrence body act) := by
  intro r outer k m a s hPropagates hTried hPlaced hSupported hs
  rw [Grammar.shapeOf_option] at hPlaced hSupported hs ⊢
  have hNext := hs.option h hPlaced
  cases hEnter : i.enters s (i.decisionAt? (s.key .option occurrence)) with
  | true =>
    rw [hEnter, if_pos rfl] at hNext
    have hRun := hBody a s hPropagates hTried hPlaced.option
      (hSupported.nested fun _ hId => by rwa [opening]) hNext.nested
    exact ((hRun.mono fun t ht => ht.nested .option).finish (act true) fun a => a).step
      (by rw [Input.runOp]) fun fuel => Input.runOp_option_taken hEnter
  | false =>
    rw [hEnter, if_neg (by simp)] at hNext
    exact (Returns.of_done (.omitted hNext .noOption)).step (by rw [Input.runOp])
      fun fuel => Input.runOp_option_skipped hEnter

theorem opReturns_choice {branches : List (Branch (Op α))} {act : α → α → α}
    (hBodies : ∀ branch ∈ branches, BodyReturns i start branch.body) :
    OpReturns i start (.choice occurrence branches act) := by
  intro r outer k m a s hPropagates hTried hPlaced hSupported hs
  rw [Op.propagates, Op.propagatesBranches_iff] at hPropagates
  rw [Grammar.shapeOf_choice] at hPlaced hSupported hs ⊢
  obtain ⟨branch, hMem, hBranch, hNext⟩ := hs.choice h hPlaced
  have hAlternative := i.grammar.mem_shapeOfBranches hMem
  have hFirst : ∀ id ∈ (openingOf (.ofRules i.grammar.rules) (i.grammar.shape branch.body)).1,
      id ∈ (opening (.ofRules i.grammar.rules)
        (.alternation (i.grammar.shapeOfBranches branches) occurrence)).1 := by
    intro id hId
    rw [opening]
    exact mem_openingOfBranches hAlternative hId
  have hRun := hBodies branch hMem default s (hPropagates branch hMem)
    (fun name hName => hTried name (Op.mem_triedByBranches hMem hName))
    (hPlaced.alternative hAlternative) (hSupported.nested hFirst) hNext.nested
  exact .choice hs.untroubled.inside.tidy (hPlaced.gate_eq_none h.ungated) hBranch
    (hRun.mono fun t ht => ht.nested (.alternative _ hAlternative))

/-! ## Repetitions -/

section Loops

variable {loop : Input.Loop α} (hLoop : i.LoopAt r k loop occurrence)
  (hTried : ∀ name ∈ Op.triedBy loop.body, i.Tries name)
  (hBody : BodyReturns i start loop.body)

include hLoop hTried hBody

/-- An iteration returns if further ones with fewer reads ahead do. -/
theorem returns_iteration (hSupported : Supported i start m (i.grammar.shape loop.body))
    (hLater : ∀ n < m, ∀ a t,
      Ahead i start r outer (i.furtherIterations loop (inSequence [] k)) n t →
      Returns i (fun fuel => i.runLoop fuel loop false a t)
        (Past i start r outer (i.furtherIterations loop []) (inSequence [] k) n))
    (a : α) (s : State) (hs : Ahead i start r outer (i.iterationAhead loop (inSequence [] k)) m s) :
    Returns i (fun fuel => i.runIteration fuel loop a s)
      (Past i start r outer (i.iterationAhead loop []) (inSequence [] k) m) := by
  have hRun := hBody a s hLoop.propagates hTried hLoop.placed.iteration hSupported hs.nested
  refine .iteration (hRun.and fun fuel => (h.regular.readWithin fuel).body loop.body a s
    hs.untroubled.inside hLoop.propagates) ?_ ?_
  · rintro t ⟨⟨n, ht, -⟩, hRead⟩
    exact hs.position_ne h hLoop hRead ht.untroubled.errors
  · rintro b t ⟨⟨n, ht, hSpent⟩, -⟩
    have hLt := hSpent.lt (h.compiled.not_nullable_iteration hLoop.placed.site)
    refine (hLater n hLt b t ht.of_nested).mono ?_
    rintro u ⟨l, hu, hSpent'⟩
    exact ⟨l, hu, .inl (Nat.lt_of_le_of_lt hSpent'.le hLt)⟩

theorem returns_later (hSupported : ∀ n ≤ m, Supported i start n (i.grammar.shape loop.body))
    (a : α) (s : State)
    (hs : Ahead i start r outer (i.furtherIterations loop (inSequence [] k)) m s) :
    Returns i (fun fuel => i.runLoop fuel loop false a s)
      (Past i start r outer (i.furtherIterations loop []) (inSequence [] k) m) := by
  induction m using Nat.strong_induction_on generalizing a s with
  | _ m ih =>
    have hNext := hs.iterations h hLoop
    have hEnd : Nullable i.grammar.rules (i.furtherIterations loop []) :=
      nullable_of_expands .stop nullable_nil
    cases hContinue : i.continues s (i.decisionAt? loop.key) loop.separator with
    | true =>
      rw [hContinue, if_pos rfl] at hNext
      obtain ⟨n, hLe, hn⟩ := hNext
      have hRun := returns_iteration h hLoop hTried hBody (hSupported n hLe)
        (fun l hl b t ht => ih l (Nat.lt_of_lt_of_le hl hLe)
          (fun l' hl' => hSupported l' (by omega)) b t ht) a _ hn
      refine (hRun.mono ?_).step (by rw [Input.runLoop]) fun fuel => Input.runLoop_continued hContinue
      rintro t ⟨l, ht, hSpent⟩
      exact ⟨l, ht, .of_le (Nat.le_trans hSpent.le hLe) hEnd⟩
    | false =>
      rw [hContinue, if_neg (by simp)] at hNext
      exact (Returns.of_done (.of_nullable hNext hEnd)).step (by rw [Input.runLoop])
        fun fuel => Input.runLoop_left hContinue (hNext.skips_nothing h hLoop)

end Loops

theorem opReturns_repetition {mandatory : Bool} {separator : Option TypeId} {act : α → α}
    (hBody : BodyReturns i start body) :
    OpReturns i start (.repetition mandatory separator occurrence body act) := by
  intro r outer k m a s hPropagates hTried hPlaced hSupported hs
  rw [Grammar.shapeOf_repetition] at hPlaced hSupported hs ⊢
  let loop : Input.Loop α :=
    ⟨s.key (.ofRepetition mandatory separator) occurrence, mandatory, separator, body⟩
  have hLoop : i.LoopAt r k loop occurrence := ⟨hs.untroubled.key _ _, hPlaced, hPropagates⟩
  have hNested : Supported i start m (i.grammar.shape body) :=
    hSupported.nested fun _ hId => by rwa [opening]
  have hNext := hs.repetition h hLoop
  suffices Returns i (fun fuel => i.runLoop fuel loop true a s)
      (Past i start r outer [.sequence [.repetition mandatory separator (i.grammar.shape body)
        occurrence]] (inSequence [] k) m) from
    (this.finish act fun a => a).step (by rw [Input.runOp]) fun fuel => Input.runOp_repetition
  cases hEnter : i.enters s (i.decisionAt? loop.key) with
  | true =>
    rw [hEnter, if_pos rfl] at hNext
    have hRun := returns_iteration h hLoop hTried hBody hNested
      (fun n hn b t ht => returns_later h hLoop hTried hBody
        (fun l hl => hNested.of_lt (Nat.lt_of_le_of_lt hl hn)) b t ht) a s hNext
    refine (hRun.mono ?_).step (by rw [Input.runLoop]) fun fuel => Input.runLoop_entered hEnter
    rintro t ⟨n, ht, hSpent⟩
    exact ⟨n, ht, hSpent.nested .iteration⟩
  | false =>
    rw [hEnter, if_neg (by simp)] at hNext
    obtain ⟨rfl, hRest⟩ : mandatory = false ∧ Ahead i start r outer (inSequence [] k) m s := hNext
    exact (Returns.of_done (.omitted hRest .noIteration)).step (by rw [Input.runLoop])
      fun fuel => Input.runLoop_omitted hEnter rfl

end Operations

/-! ## Rules -/

mutual

theorem bodyReturns (h : i.IsPredictive sources start) (ops : List (Op α)) :
    BodyReturns i start ops := by
  cases ops with
  | nil => exact bodyReturns_nil
  | cons op ops => exact bodyReturns_cons (opReturns h op) (bodyReturns h ops)

theorem opReturns (h : i.IsPredictive sources start) (op : Op α) : OpReturns i start op := by
  cases op with
  | consume occurrence token label act => exact opReturns_consume h
  | subrule occurrence rule label act => exact opReturns_subrule h
  | option occurrence body act => exact opReturns_option h (bodyReturns h body)
  | repetition mandatory separator occurrence body act =>
    exact opReturns_repetition h (bodyReturns h body)
  | choice occurrence branches act => exact opReturns_choice h (branchesReturn h branches)
  | peek distance act =>
    exact opReturns_of_none (Grammar.shapeOf_peek _ _ _) fun a s => ⟨_, fun _ => by rw [Input.runOp]⟩
  | trial rule act => exact opReturns_trial
  | whenParsing body => exact opReturns_whenParsing (bodyReturns h body)
  | whenRecording body =>
    exact opReturns_of_none (Grammar.shapeOf_whenRecording _ _) fun a s =>
      ⟨_, fun _ => by rw [Input.runOp]⟩
  | attempt body act => exact fun _ _ hPropagates => by cases hPropagates

theorem branchesReturn (h : i.IsPredictive sources start) (branches : List (Branch (Op α))) :
    ∀ branch ∈ branches, BodyReturns i start branch.body := by
  cases branches with
  | nil => exact fun _ hBranch => by cases hBranch
  | cons branch rest =>
    obtain ⟨gate, body, ignore⟩ := branch
    exact List.forall_mem_cons.mpr ⟨bodyReturns h body, branchesReturn h rest⟩

end

end PredictiveParsing.Parse
