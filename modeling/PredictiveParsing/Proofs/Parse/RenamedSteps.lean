import PredictiveParsing.Proofs.Grammar.ReorderedTables
import PredictiveParsing.Proofs.Parse.SideBySide

/-!
# Steps under other numbers

With other numbers for the rules, a state differs in the rules it is in. Whatever a parse reads of a
state and a grammar goes along with the numbers, and no number gets into a tree or an error.
-/

namespace PredictiveParsing.Parse

variable {α : Type} {σ : RuleId → RuleId}

def Call.rename (σ : RuleId → RuleId) (c : Call) : Call := { c with rule := σ c.rule }

def State.rename (σ : RuleId → RuleId) (s : State) : State :=
  { s with calls := s.calls.map (Call.rename σ) }

namespace State

variable {s : State}

theorem updateNode_rename (f : Node → Node) :
    (s.rename σ).updateNode f = (s.updateNode f).rename σ := by
  obtain ⟨position, errors, calls, openNodes, root, trials, terminated⟩ := s
  cases openNodes with
  | nil => rfl
  | cons n rest => rfl

theorem markRecovered_rename : (s.rename σ).markRecovered = s.markRecovered.rename σ :=
  updateNode_rename _

theorem addResynced_rename (error : Nat) (skipped : List Token) :
    (s.rename σ).addResynced error skipped = (s.addResynced error skipped).rename σ := rfl

theorem currentRule_rename (hs : s.calls ≠ []) : (s.rename σ).currentRule = σ s.currentRule := by
  obtain ⟨call, calls, hCalls⟩ := List.exists_cons_of_ne_nil hs
  simp [rename, currentRule, hCalls, Call.rename]

theorem key_rename (hs : s.calls ≠ []) (kind : ProductionKind) (occurrence : Nat) :
    (s.rename σ).key kind occurrence = (s.key kind occurrence).rename σ := by
  rw [key, currentRule_rename hs]
  rfl

theorem endTrial_rename {t : State} :
    (t.rename σ).endTrial (s.rename σ).mark = (t.endTrial s.mark).rename σ := by
  simp [rename, endTrial, restore, mark, keepOutermost]

end State

/-- Inputs of the same tokens over grammars that differ in the numbers of their rules. -/
structure IsRenamed (σ : RuleId → RuleId) (i i' : Input α) : Prop where
  tokens : i'.tokens = i.tokens
  vocabulary : i'.grammar.vocabulary = i.grammar.vocabulary
  config : i'.grammar.config = i.grammar.config
  ruleNamed? : ∀ name, i'.grammar.ruleNamed? name = (i.grammar.ruleNamed? name).map σ
  ruleName : ∀ id, i'.grammar.ruleName (σ id) = i.grammar.ruleName id
  body : ∀ id, i'.grammar.body (σ id) = i.grammar.body id
  decisionAt? : ∀ key, i'.decisionAt? (key.rename σ) = i.decisionAt? key
  terminalFollow : ∀ site, i'.grammar.analysis.terminalFollows.lookup (site.rename σ) =
    i.grammar.analysis.terminalFollows.lookup site
  callFollow : ∀ site, i'.grammar.analysis.callFollows.lookup (site.rename σ) =
    i.grammar.analysis.callFollows.lookup site
  repetitionExit : ∀ key, i'.grammar.analysis.repetitionExits.lookup (key.rename σ) =
    i.grammar.analysis.repetitionExits.lookup key

namespace IsRenamed

variable {i i' : Input α} (h : IsRenamed σ i i') {s : State}

include h

/-! ## Reading -/

theorem kindAt (index : Nat) : i'.kindAt index = i.kindAt index := by
  rw [Input.kindAt, Input.kindAt, h.tokens]

theorem isMatch (actual expected : TypeId) :
    i'.isMatch actual expected = i.isMatch actual expected := by
  rw [Input.isMatch, Input.isMatch, h.vocabulary]

theorem slice (start stop : Nat) : i'.slice start stop = i.slice start stop := by
  rw [Input.slice, Input.slice, h.tokens]

theorem ahead (distance : Nat) : i'.ahead (s.rename σ) distance = i.ahead s distance := by
  rw [Input.ahead, Input.ahead, Input.eof, Input.eof, h.tokens]
  rfl

theorem next : i'.next (s.rename σ) = i.next s := h.ahead 1

theorem coming : i'.coming (s.rename σ) = i.coming s := funext fun _ => h.kindAt _

theorem recoveryEnabled : i'.recoveryEnabled (s.rename σ) = i.recoveryEnabled s := by
  rw [Input.recoveryEnabled, Input.recoveryEnabled, h.config]
  rfl

theorem enters (decision : Option Decision) :
    i'.enters (s.rename σ) decision = i.enters s decision := by
  rw [Input.enters.eq_def, Input.enters.eq_def, h.coming, h.vocabulary]

theorem continues (decision : Option Decision) (separator : Option TypeId) :
    i'.continues (s.rename σ) decision separator = i.continues s decision separator := by
  cases separator with
  | none => exact h.enters decision
  | some separator =>
    rw [Input.continues, Input.continues, h.kindAt, h.isMatch]
    rfl

theorem chooseBranch (key : DecisionKey) (count : Nat) (enabled : Option (List Bool)) :
    i'.chooseBranch (s.rename σ) (key.rename σ) count enabled =
      i.chooseBranch s key count enabled := by
  rw [Input.chooseBranch, Input.chooseBranch, h.decisionAt?, h.vocabulary, h.coming]

/-! ## Building -/

theorem recordError (cause : RecognitionCause) :
    i'.recordError (s.rename σ) cause =
      ((i.recordError s cause).1.rename σ, (i.recordError s cause).2) := by
  have hStack : ((s.rename σ).calls.reverse.map fun c => i'.grammar.ruleName c.rule) =
      s.calls.reverse.map fun c => i.grammar.ruleName c.rule := by
    simp [State.rename, Call.rename, h.ruleName, Function.comp_def]
  rw [Input.recordError, Input.recordError, h.next, h.tokens, hStack]
  rfl

theorem addToken (label : Option String) (expected : TypeId) (t : Token) :
    i'.addToken (s.rename σ) label expected t = (i.addToken s label expected t).rename σ := by
  rw [Input.addToken, Input.addToken, h.config, h.vocabulary, State.updateNode_rename]
  split <;> rfl

theorem consumeSeparator (separator : Option TypeId) :
    i'.consumeSeparator (s.rename σ) separator = (i.consumeSeparator s separator).rename σ := by
  cases separator with
  | none => rfl
  | some separator =>
    rw [Input.consumeSeparator, Input.consumeSeparator, h.next]
    exact h.addToken (s := { s with position := s.position + 1 }) none separator (i.next s)

theorem enter (rule : RuleId) (occurrence : Nat) :
    i'.enter (s.rename σ) (σ rule) occurrence = (i.enter s rule occurrence).rename σ := by
  rw [Input.enter, Input.enter, h.config, h.ruleName]
  rfl

theorem leave (rule : RuleId) (label : Option String) :
    i'.leave (s.rename σ) (σ rule) label = (i.leave s rule label).rename σ := by
  have hCalls : (s.rename σ).calls.tail = s.calls.tail.map (Call.rename σ) := List.map_tail.symm
  have hNodes : (s.rename σ).openNodes = s.openNodes := rfl
  simp only [Input.leave, h.config, h.ruleName, hCalls, hNodes]
  cases i.grammar.config.outputTree with
  | false => rfl
  | true =>
    cases s.openNodes with
    | nil => rfl
    | cons n rest =>
      cases rest with
      | nil => rfl
      | cons parent rest => rfl

theorem beginTrial : i'.beginTrial (s.rename σ) = (i.beginTrial s).rename σ := by
  rw [Input.beginTrial, Input.beginTrial, h.config]
  rfl

/-! ## Recovery -/

theorem callFollow? (calls : List Call) :
    i'.callFollow? (calls.map (Call.rename σ)) = i.callFollow? calls := by
  cases calls with
  | nil => rfl
  | cons callee calls =>
    cases calls with
    | nil => rfl
    | cons caller calls => exact h.callFollow ⟨caller.rule, callee.rule, callee.occurrence⟩

theorem followsAny (kind : TypeId) (calls : List Call) :
    i'.followsAny kind (calls.map (Call.rename σ)) = i.followsAny kind calls := by
  induction calls with
  | nil => rfl
  | cons call calls ih =>
    rw [List.map_cons, Input.followsAny, Input.followsAny, ih, ← List.map_cons, h.callFollow?]

theorem inCurrentFollow (kind : TypeId) :
    i'.inCurrentFollow (s.rename σ) kind = i.inCurrentFollow s kind := by
  simp only [Input.inCurrentFollow, State.rename, List.length_map, h.callFollow?]

theorem inEnclosingFollows (kind : TypeId) :
    i'.inEnclosingFollows (s.rename σ) kind = i.inEnclosingFollows s kind := by
  simp only [Input.inEnclosingFollows, State.rename, h.followsAny]

theorem resyncPlace? (fuel index : Nat) :
    i'.resyncPlace? (s.rename σ) fuel index = i.resyncPlace? s fuel index := by
  induction fuel generalizing index with
  | zero => rfl
  | succ fuel ih =>
    simp only [Input.resyncPlace?, h.kindAt, h.inCurrentFollow, h.inEnclosingFollows, ih]

theorem overrun? : i'.overrun? (s.rename σ) = i.overrun? s := by
  rw [Input.overrun?, Input.overrun?, h.recoveryEnabled, h.resyncPlace?, h.tokens]
  rfl

theorem recoverRule (error : Nat) : i'.recoverRule (s.rename σ) error =
    ((i.recoverRule s error).1.rename σ, (i.recoverRule s error).2) := by
  have hLength : (s.markRecovered.rename σ).calls.length = s.markRecovered.calls.length :=
    List.length_map _
  have hPosition : (s.markRecovered.rename σ).position = s.markRecovered.position := rfl
  have hTrials : (s.markRecovered.rename σ).trials = s.markRecovered.trials := rfl
  simp only [Input.recoverRule, State.markRecovered_rename, h.recoveryEnabled, h.resyncPlace?,
    h.tokens, h.slice, hLength, hPosition, hTrials, State.addResynced_rename]
  cases if i.recoveryEnabled s.markRecovered then
      i.resyncPlace? s.markRecovered (i.tokens.size + 1) s.markRecovered.position else none with
  | some index => rfl
  | none =>
    simp only
    split <;> rfl

theorem recoverToken? (hs : s.calls ≠ []) (expected : TypeId) (occurrence error : Nat) :
    i'.recoverToken? (s.rename σ) expected occurrence error =
      (i.recoverToken? s expected occurrence error).map (Prod.map id (State.rename σ)) := by
  have hFollow : i'.grammar.analysis.terminalFollows.lookup
      ⟨(s.rename σ).currentRule, expected, occurrence⟩ =
        i.grammar.analysis.terminalFollows.lookup ⟨s.currentRule, expected, occurrence⟩ := by
    rw [State.currentRule_rename hs]
    exact h.terminalFollow ⟨s.currentRule, expected, occurrence⟩
  have hSkipped : i'.next { (s.rename σ).addResynced error [i.next s] with
      position := (s.rename σ).position + 1 } =
        i.next { s.addResynced error [i.next s] with position := s.position + 1 } :=
    h.next (s := { s.addResynced error [i.next s] with position := s.position + 1 })
  simp only [Input.recoverToken?, h.next, hFollow, h.kindAt, h.isMatch, hSkipped]
  split
  · rfl
  · change (if (!(i.next s).isEof && i.isMatch (i.kindAt (s.position + 1)) expected) = true then _
      else _) = _
    split <;> rfl

theorem resumePlace? (exits : Option TokenSet) (decision : Option Decision)
    (separator : Option TypeId) (fuel index : Nat) :
    i'.resumePlace? (s.rename σ) exits decision separator fuel index =
      i.resumePlace? s exits decision separator fuel index := by
  induction fuel generalizing index with
  | zero => rfl
  | succ fuel ih =>
    have hContinues : i'.continues { s.rename σ with position := index } decision separator =
        i.continues { s with position := index } decision separator :=
      h.continues (s := { s with position := index }) decision separator
    simp only [Input.resumePlace?, h.kindAt, hContinues, h.inEnclosingFollows, ih]
    rfl

theorem skipPlace? (exits : TokenSet) (decision : Option Decision) (separator : Option TypeId)
    (fuel index : Nat) : i'.skipPlace? (s.rename σ) exits decision separator fuel index =
      i.skipPlace? s exits decision separator fuel index := by
  induction fuel generalizing index with
  | zero => rfl
  | succ fuel ih =>
    have hContinues : i'.continues { s.rename σ with position := index } decision separator =
        i.continues { s with position := index } decision separator :=
      h.continues (s := { s with position := index }) decision separator
    simp only [Input.skipPlace?, h.kindAt, hContinues, h.inEnclosingFollows, ih]

theorem skipToNextIteration (key : DecisionKey) (decision : Option Decision)
    (separator : Option TypeId) :
    i'.skipToNextIteration (s.rename σ) (key.rename σ) decision separator =
      ((i.skipToNextIteration s key decision separator).1.rename σ,
        (i.skipToNextIteration s key decision separator).2) := by
  have hPosition : (s.rename σ).position = s.position := rfl
  simp only [Input.skipToNextIteration, h.repetitionExit, hPosition, h.kindAt, h.recoveryEnabled,
    h.inEnclosingFollows, h.skipPlace?, h.tokens, h.recordError, h.slice]
  cases i.grammar.analysis.repetitionExits.lookup key with
  | none => rfl
  | some exits =>
    simp only
    split
    · rfl
    · cases i.skipPlace? s exits decision separator (i.tokens.size + 1) (s.position + 1) with
      | none => rfl
      | some found => rfl

end IsRenamed

def Input.Resumption.rename (σ : RuleId → RuleId) : Resumption → Resumption
  | .again s => .again (s.rename σ)
  | .exit s => .exit (s.rename σ)
  | .failed s => .failed (s.rename σ)

def Outcome.rename {β : Type} (σ : RuleId → RuleId) : Outcome β → Outcome β
  | .done b s => .done b (s.rename σ)
  | .interrupted error b s => .interrupted error b (s.rename σ)
  | .panicked why => .panicked why
  | .outOfFuel => .outOfFuel

namespace IsRenamed

variable {i i' : Input α} (h : IsRenamed σ i i') {s : State}

include h

theorem resumeRepetition (key : DecisionKey) (decision : Option Decision)
    (separator : Option TypeId) (error : Nat) :
    i'.resumeRepetition (s.rename σ) (key.rename σ) decision separator error =
      (i.resumeRepetition s key decision separator error).rename σ := by
  have hPosition : (s.rename σ).position = s.position := rfl
  simp only [Input.resumeRepetition, h.repetitionExit, hPosition, h.recoveryEnabled,
    h.resumePlace?, h.tokens, h.slice]
  split
  · cases i.resumePlace? s (i.grammar.analysis.repetitionExits.lookup key) decision separator
        (i.tokens.size + 1) s.position with
    | none => rfl
    | some found =>
      obtain ⟨index, resumes⟩ := found
      cases resumes with
      | true => rfl
      | false => rfl
  · rfl

theorem consume (hs : s.calls ≠ []) (occurrence : Nat) (expected : TypeId)
    (label : Option String) : i'.consume (s.rename σ) occurrence expected label =
      (i.consume s occurrence expected label).rename σ := by
  have hFailed : (i.recordError s (.mismatchedToken expected)).1.calls ≠ [] := hs
  have hBuilt : ∀ (t : State) (x : Token),
      Outcome.done x (i'.addToken (t.rename σ) label expected x) =
        (Outcome.done x (i.addToken t label expected x)).rename σ :=
    fun t x => congrArg (Outcome.done x) (h.addToken label expected x)
  simp only [Input.consume, h.next, h.isMatch, h.recordError, h.recoveryEnabled,
    h.recoverToken? hFailed]
  split
  · split
    · exact hBuilt s (i.next s)
    · exact hBuilt { s with position := s.position + 1 } (i.next s)
  · generalize (i.recordError s (.mismatchedToken expected)).2 = error
    generalize (i.recordError s (.mismatchedToken expected)).1 = failed
    cases i.recoveryEnabled failed with
    | false => rfl
    | true =>
      cases i.recoverToken? failed expected occurrence error with
      | none => rfl
      | some found =>
        obtain ⟨x, t⟩ := found
        have hDone := hBuilt t.markRecovered x
        rwa [← State.markRecovered_rename] at hDone

theorem finish [Inhabited α] (value : α) : i'.finish value (s.rename σ) = i.finish value s := by
  have hPosition : (s.rename σ).position = s.position := rfl
  have hTerminated : (s.rename σ).terminated = s.terminated := rfl
  simp only [Input.finish, hPosition, hTerminated, h.tokens, h.recordError]
  split <;> rfl

end IsRenamed

end PredictiveParsing.Parse
