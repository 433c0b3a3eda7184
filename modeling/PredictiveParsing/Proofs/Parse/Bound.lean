import PredictiveParsing.Proofs.Parse.SideBySide

/-!
# The bound of nested steps

A run that ends within a bound ends in the same way within every larger one. The same comparison
shows that a setting for recovery makes no difference where recovery is not used.
-/

namespace PredictiveParsing

variable {α : Type}

def Grammar.withRecovery (g : Grammar α) (b : Bool) : Grammar α :=
  { g with config := { g.config with recovery := b } }

namespace Parse

def Input.withRecovery (i : Input α) (b : Bool) : Input α :=
  { i with grammar := i.grammar.withRecovery b }

def Outcome.Below {β : Type} (o o' : Outcome β) : Prop := o = .outOfFuel ∨ o = o'

theorem Outcome.Below.refl {β : Type} (o : Outcome β) : o.Below o := .inr rfl

theorem Outcome.Below.of_done {β : Type} {o o' : Outcome β} {b : β} {t : State} (h : o.Below o')
    (ho : o = .done b t) : o' = .done b t := by
  subst ho
  exact (h.resolve_left nofun).symm

section Setting

variable (i : Input α) (b : Bool) (s : State)

@[simp] theorem next_withRecovery : (i.withRecovery b).next s = i.next s := rfl

@[simp] theorem ahead_withRecovery (distance : Nat) :
    (i.withRecovery b).ahead s distance = i.ahead s distance := rfl

@[simp] theorem kindAt_withRecovery (index : Nat) :
    (i.withRecovery b).kindAt index = i.kindAt index := rfl

@[simp] theorem isMatch_withRecovery (actual expected : TypeId) :
    (i.withRecovery b).isMatch actual expected = i.isMatch actual expected := rfl

@[simp] theorem slice_withRecovery (start stop : Nat) :
    (i.withRecovery b).slice start stop = i.slice start stop := rfl

@[simp] theorem tokens_withRecovery : (i.withRecovery b).tokens = i.tokens := rfl

@[simp] theorem analysis_withRecovery :
    (i.withRecovery b).grammar.analysis = i.grammar.analysis := rfl

@[simp] theorem ruleNamed?_withRecovery (name : String) :
    (i.withRecovery b).grammar.ruleNamed? name = i.grammar.ruleNamed? name := rfl

@[simp] theorem body_withRecovery (rule : RuleId) :
    (i.withRecovery b).grammar.body rule = i.grammar.body rule := rfl

@[simp] theorem recordError_withRecovery (cause : RecognitionCause) :
    (i.withRecovery b).recordError s cause = i.recordError s cause := rfl

@[simp] theorem addToken_withRecovery (label : Option String) (expected : TypeId) (x : Token) :
    (i.withRecovery b).addToken s label expected x = i.addToken s label expected x := rfl

@[simp] theorem enter_withRecovery (rule : RuleId) (occurrence : Nat) :
    (i.withRecovery b).enter s rule occurrence = i.enter s rule occurrence := rfl

@[simp] theorem beginTrial_withRecovery : (i.withRecovery b).beginTrial s = i.beginTrial s := rfl

@[simp] theorem continues_withRecovery (decision : Option Decision) (separator : Option TypeId) :
    (i.withRecovery b).continues s decision separator = i.continues s decision separator := rfl

@[simp] theorem consumeSeparator_withRecovery (separator : Option TypeId) :
    (i.withRecovery b).consumeSeparator s separator = i.consumeSeparator s separator := by
  cases separator <;> rfl

@[simp] theorem recoverToken?_withRecovery (expected : TypeId) (occurrence error : Nat) :
    (i.withRecovery b).recoverToken? s expected occurrence error =
      i.recoverToken? s expected occurrence error := rfl

@[simp] theorem inCurrentFollow_withRecovery (kind : TypeId) :
    (i.withRecovery b).inCurrentFollow s kind = i.inCurrentFollow s kind := rfl

@[simp] theorem followsAny_withRecovery (kind : TypeId) (calls : List Call) :
    (i.withRecovery b).followsAny kind calls = i.followsAny kind calls := by
  induction calls with
  | nil => rfl
  | cons call calls ih =>
    rw [Input.followsAny, Input.followsAny, ih]
    rfl

@[simp] theorem inEnclosingFollows_withRecovery (kind : TypeId) :
    (i.withRecovery b).inEnclosingFollows s kind = i.inEnclosingFollows s kind := by
  simp [Input.inEnclosingFollows]

@[simp] theorem resyncPlace?_withRecovery (fuel index : Nat) :
    (i.withRecovery b).resyncPlace? s fuel index = i.resyncPlace? s fuel index := by
  induction fuel generalizing index with
  | zero => rfl
  | succ fuel ih => simp [Input.resyncPlace?, ih]

@[simp] theorem resumePlace?_withRecovery (exits : Option TokenSet) (decision : Option Decision)
    (separator : Option TypeId) (fuel index : Nat) :
    (i.withRecovery b).resumePlace? s exits decision separator fuel index =
      i.resumePlace? s exits decision separator fuel index := by
  induction fuel generalizing index with
  | zero => rfl
  | succ fuel ih => simp [Input.resumePlace?, ih]

@[simp] theorem skipPlace?_withRecovery (exits : TokenSet) (decision : Option Decision)
    (separator : Option TypeId) (fuel index : Nat) :
    (i.withRecovery b).skipPlace? s exits decision separator fuel index =
      i.skipPlace? s exits decision separator fuel index := by
  induction fuel generalizing index with
  | zero => rfl
  | succ fuel ih => simp [Input.skipPlace?, ih]

end Setting

def SameRecovery (i : Input α) (b : Bool) (s : State) : Prop :=
  (i.withRecovery b).recoveryEnabled s = i.recoveryEnabled s

variable {i : Input α} {b : Bool} {s t : State}

theorem SameRecovery.of_trials (h : SameRecovery i b s) (hTrials : t.trials = s.trials) :
    SameRecovery i b t := by
  have hOther : (i.withRecovery b).recoveryEnabled t = (i.withRecovery b).recoveryEnabled s :=
    recoveryEnabled_congr hTrials
  exact hOther.trans (h.trans (recoveryEnabled_congr hTrials).symm)

theorem SameRecovery.beginTrial (i : Input α) (b : Bool) (s : State) :
    SameRecovery i b (i.beginTrial s) := by
  simp [SameRecovery, Input.recoveryEnabled, Input.beginTrial]

namespace SameRecovery

variable (h : SameRecovery i b s)

include h

theorem consume (occurrence : Nat) (expected : TypeId) (label : Option String) :
    (i.withRecovery b).consume s occurrence expected label =
      i.consume s occurrence expected label := by
  have hFailed : SameRecovery i b (i.recordError s (.mismatchedToken expected)).1 := h
  rw [SameRecovery] at hFailed
  simp only [Input.consume, next_withRecovery, isMatch_withRecovery, addToken_withRecovery,
    recordError_withRecovery, recoverToken?_withRecovery, hFailed]
  rfl

theorem recoverRule (error : Nat) :
    (i.withRecovery b).recoverRule s error = i.recoverRule s error := by
  have hMarked : SameRecovery i b s.markRecovered :=
    h.of_trials (frame_markRecovered (i := i)).trials
  rw [SameRecovery] at hMarked
  simp only [Input.recoverRule, hMarked, resyncPlace?_withRecovery, tokens_withRecovery,
    slice_withRecovery]

theorem overrun? : (i.withRecovery b).overrun? s = i.overrun? s := by
  rw [SameRecovery] at h
  simp only [Input.overrun?, h, resyncPlace?_withRecovery, tokens_withRecovery]
  rfl

theorem resumeRepetition (key : DecisionKey) (decision : Option Decision)
    (separator : Option TypeId) (error : Nat) :
    (i.withRecovery b).resumeRepetition s key decision separator error =
      i.resumeRepetition s key decision separator error := by
  rw [SameRecovery] at h
  simp only [Input.resumeRepetition, h, resumePlace?_withRecovery, tokens_withRecovery,
    slice_withRecovery, analysis_withRecovery]

theorem skipToNextIteration (key : DecisionKey) (decision : Option Decision)
    (separator : Option TypeId) :
    (i.withRecovery b).skipToNextIteration s key decision separator =
      i.skipToNextIteration s key decision separator := by
  rw [SameRecovery] at h
  simp only [Input.skipToNextIteration, h, skipPlace?_withRecovery, tokens_withRecovery,
    slice_withRecovery, analysis_withRecovery, kindAt_withRecovery, recordError_withRecovery,
    inEnclosingFollows_withRecovery]

end SameRecovery

theorem Outcome.Paired.of_ends {β : Type} {o : Outcome β} {p : State → Prop}
    (h : o.Ends p fun _ => p) : o.Paired True (fun s u => u = s ∧ p u) o := by
  cases o with
  | done b t => exact .done ⟨rfl, h⟩
  | interrupted e b t => exact .interrupted ⟨rfl, h⟩
  | panicked why => exact .panicked
  | outOfFuel => exact .outOfFuel fun _ => rfl

theorem Outcome.Paired.below {β : Type} {o o' : Outcome β} {sameBound : Prop} {p : State → Prop}
    (h : o.Paired sameBound (fun s u => u = s ∧ p u) o') : o.Below o' := by
  cases h with
  | done h => exact .inr (by rw [h.1])
  | interrupted h => exact .inr (by rw [h.1])
  | panicked => exact .refl _
  | outOfFuel => exact .inl rfl

theorem Outcome.Paired.eq {β : Type} {o o' : Outcome β} {sameBound : Prop} {p : State → Prop}
    (h : o.Paired sameBound (fun s u => u = s ∧ p u) o') (hSame : sameBound) : o' = o := by
  cases h with
  | done h => rw [h.1]
  | interrupted h => rw [h.1]
  | panicked => rfl
  | outOfFuel h => exact h hSame

/-- Where recovery is used under both settings or under none, the same steps are taken. -/
theorem similar_withRecovery (i : Input α) (b : Bool) :
    Similar id i (i.withRecovery b) fun _ s u => u = s ∧ SameRecovery i b u where
  tokens := rfl
  ruleNamed? _ := (congrFun Option.map_id _).symm
  body _ := rfl
  decisionAt? _ := rfl
  position := by rintro _ _ s ⟨rfl, -⟩; rfl
  errors := by rintro _ _ s ⟨rfl, -⟩; rfl
  ahead := by rintro _ _ s ⟨rfl, -⟩; rfl
  enters := by rintro _ _ s ⟨rfl, -⟩ _; rfl
  continues := by rintro _ _ s ⟨rfl, -⟩ _ _; rfl
  chooseBranch := by rintro _ _ s ⟨rfl, -⟩ _ _ _; rfl
  key := by rintro _ _ s ⟨rfl, -⟩ _ _; rfl
  overrun? := by
    rintro _ _ s ⟨rfl, hs⟩
    exact hs.overrun?
  consume := by
    rintro _ _ s ⟨rfl, hs⟩ occurrence expected label
    rw [hs.consume]
    exact .of_ends ((frame_consume _ occurrence expected label).mono
      (fun _ ht => hs.of_trials ht.trials) fun _ _ ht => hs.of_trials ht.1.trials)
  recordError := by
    rintro _ _ s ⟨rfl, hs⟩ cause
    exact ⟨rfl, hs⟩
  consumeSeparator := by
    rintro _ _ s ⟨rfl, hs⟩ separator
    rw [consumeSeparator_withRecovery]
    exact ⟨rfl, hs.of_trials (frame_consumeSeparator (i := i) separator).trials⟩
  skipToNextIteration := by
    rintro _ _ s ⟨rfl, hs⟩ key decision separator
    have hFrame := frame_skipToNextIteration (i := i) (s := s) key decision separator
    have hSame := hs.skipToNextIteration key decision separator
    exact ⟨⟨congrArg Prod.fst hSame, hSame ▸ hs.of_trials hFrame.trials⟩, congrArg Prod.snd hSame⟩
  resumeRepetition := by
    rintro _ _ s ⟨rfl, hs⟩ key decision separator e
    have hSame : (i.withRecovery b).resumeRepetition s (key.rename id) decision separator e =
        i.resumeRepetition s key decision separator e := hs.resumeRepetition key decision separator e
    rw [hSame]
    rcases i.resumeRepetition_cases s key decision separator e with hRes |
      ⟨index, -, -, ⟨-, hRes⟩ | hRes⟩
    · rw [hRes]; exact .failed ⟨rfl, hs⟩
    · rw [hRes]; exact .again ⟨rfl, hs⟩
    · rw [hRes]; exact .exit ⟨rfl, hs⟩
  enter := by
    rintro _ _ s ⟨rfl, hs⟩ rule occurrence
    exact ⟨rfl, hs⟩
  recoverRule := by
    rintro _ _ s ⟨rfl, hs⟩ e
    rw [hs.recoverRule]
    exact ⟨⟨rfl, hs.of_trials (recoverRule_stays s e).2⟩, rfl⟩
  leave := by
    rintro _ _ s ⟨rfl, hs⟩ rule label
    exact ⟨rfl, hs.of_trials (trials_leave (i := i) rule label)⟩
  beginTrial := by
    rintro _ _ s ⟨rfl, -⟩
    exact ⟨rfl, .beginTrial i b s⟩
  endTrial := by
    rintro _ _ s _ t ⟨rfl, hs⟩ hFrame - ⟨rfl, -⟩
    exact ⟨rfl, hs.of_trials (frame_endTrial hFrame).trials⟩

section Trials

variable [Inhabited α] (i : Input α) (b : Bool) (fuel : Nat) (s : State)

theorem runTrial_withRecovery (rule : String) :
    (i.withRecovery b).runTrial fuel rule s = i.runTrial fuel rule s := by
  cases fuel with
  | zero => rw [Input.runTrial, Input.runTrial]
  | succ fuel =>
    rw [Input.runTrial, Input.runTrial, ruleNamed?_withRecovery, beginTrial_withRecovery]
    cases i.grammar.ruleNamed? rule with
    | none => rfl
    | some id =>
      have hSame := (((similar_withRecovery i b).within (Nat.le_refl fuel)).invoke (d := 0)
        ⟨rfl, .beginTrial i b s⟩ id 0 none).eq rfl
      simp only [id_eq] at hSame
      simp only [hSame]

theorem askGate_withRecovery (gate : Gate) :
    (i.withRecovery b).askGate fuel gate s = i.askGate fuel gate s := by
  induction fuel generalizing gate s with
  | zero => rw [Input.askGate, Input.askGate]
  | succ fuel ih =>
    rw [Input.askGate.eq_def, Input.askGate.eq_def]
    cases gate with
    | parsing | tokens => rfl
    | trial rule => exact runTrial_withRecovery i b fuel s rule
    | negation g => simp only [ih]
    | both first second => simp only [ih]

theorem askGates_withRecovery (gates : List (Option Gate)) :
    (i.withRecovery b).askGates fuel gates s = i.askGates fuel gates s := by
  induction fuel generalizing gates s with
  | zero => rw [Input.askGates, Input.askGates]
  | succ fuel ih =>
    cases gates with
    | nil => rw [Input.askGates, Input.askGates]
    | cons gate gates =>
      cases gate with
      | none => simp only [Input.askGates, ih]
      | some gate => simp only [Input.askGates, askGate_withRecovery, ih]

end Trials

section Bounds

variable [Inhabited α] {fuel fuel' : Nat} (h : fuel ≤ fuel')

include h

theorem pairedWithin_bounds : PairedWithin id i i
    (fun _ s u => u = s ∧ SameRecovery i i.grammar.config.recovery u) (fuel = fuel') fuel fuel' :=
  (similar_withRecovery i i.grammar.config.recovery).within h

theorem runOp_below (op : Op α) (a : α) (s : State) :
    (i.runOp fuel op a s).Below (i.runOp fuel' op a s) :=
  ((pairedWithin_bounds h).op (d := 0) ⟨rfl, rfl⟩ op a).below

theorem runBody_below (ops : List (Op α)) (a : α) (s : State) :
    (i.runBody fuel ops a s).Below (i.runBody fuel' ops a s) :=
  ((pairedWithin_bounds h).body (d := 0) ⟨rfl, rfl⟩ ops a).below

theorem runLoop_below (loop : Input.Loop α) (isFirst : Bool) (a : α) (s : State) :
    (i.runLoop fuel loop isFirst a s).Below (i.runLoop fuel' loop isFirst a s) :=
  ((pairedWithin_bounds h).loop (d := 0) ⟨rfl, rfl⟩ loop isFirst a).below

theorem askGates_below (gates : List (Option Gate)) (s : State) :
    (i.askGates fuel gates s).Below (i.askGates fuel' gates s) :=
  ((pairedWithin_bounds h).gates (d := 0) ⟨rfl, rfl⟩ gates).below

theorem invoke_below (rule : RuleId) (occurrence : Nat) (label : Option String) (s : State) :
    (i.invoke fuel rule occurrence label s).Below (i.invoke fuel' rule occurrence label s) :=
  ((pairedWithin_bounds h).invoke (d := 0) ⟨rfl, rfl⟩ rule occurrence label).below

theorem parseFrom_of_le {rule : RuleId} {o : ParseOutput α}
    (hParse : i.parseFrom fuel rule = .parsed o) : i.parseFrom fuel' rule = .parsed o := by
  unfold Input.parseFrom at hParse ⊢
  rcases invoke_below (i := i) h rule 0 none .initial with hNone | hSame
  · rw [hNone] at hParse
    cases hParse
  · rwa [hSame] at hParse

end Bounds

end Parse

end PredictiveParsing
