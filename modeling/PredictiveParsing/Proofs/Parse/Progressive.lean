import PredictiveParsing.Proofs.Grammar.EndOfInput
import PredictiveParsing.Proofs.Parse.Reading

/-!
# Bodies that try no rule

What is known of the operations of a rule body that tries no rule while parsing: its gates answer,
its iterations are not empty, and the end of the input is asked for last.
-/

namespace PredictiveParsing

variable {α : Type}

def Gate.isTrialFree : Gate → Bool
  | .trial _ => false
  | .negation gate => gate.isTrialFree
  | .both first second => first.isTrialFree && second.isTrialFree
  | _ => true

namespace Op

mutual

def isTrialFree : Op α → Bool
  | .option _ body _ => allTrialFree body
  | .repetition _ _ _ body _ => allTrialFree body
  | .choice _ branches _ => branchesTrialFree branches
  | .trial _ _ => false
  | .whenParsing body => allTrialFree body
  | .attempt body _ => allTrialFree body
  | _ => true

def allTrialFree : List (Op α) → Bool
  | [] => true
  | op :: ops => isTrialFree op && allTrialFree ops

def branchesTrialFree : List (Branch (Op α)) → Bool
  | [] => true
  | ⟨gate, body, _⟩ :: rest =>
    gate.all Gate.isTrialFree && allTrialFree body && branchesTrialFree rest

end

theorem branchesTrialFree_iff {branches : List (Branch (Op α))} :
    branchesTrialFree branches = true ↔ ∀ branch ∈ branches,
      branch.gate.all Gate.isTrialFree = true ∧ allTrialFree branch.body = true := by
  induction branches with
  | nil => simp [branchesTrialFree]
  | cons branch rest ih => simp [branchesTrialFree, ih]

end Op

/-- What is known of a production: an iteration is not empty, a separator is a token of the text,
and a rule that is called does not ask for the end of the input. -/
structure Production.IsProgressive (g : Grammar α) (p : Production) : Prop where
  solid : p.IsSolid (.ofRules g.rules)
  separator : p.separator ≠ some Vocabulary.eof
  target : ∀ {name target occurrence}, p = .nonTerminal name target occurrence →
    ∃ id, target = some id ∧ g.ruleNamed? name = some id ∧
      Production.endFree (definitionOf g.rules id) = true

namespace Parse

/-- A compiled grammar of faithful bodies that try no rule and ask for the end of the input last. -/
structure Input.IsProgressive (i : Input α) (sources : List (RuleBody α)) : Prop where
  faithful : i.grammar.IsFaithful
  compiled : i.grammar.IsCompiled sources
  trialFree : ∀ id, Op.allTrialFree (i.grammar.body id) = true
  endLast : ReadsEndLast i.grammar.rules
  atEnd : ∀ {token}, i.isMatch Vocabulary.eof token = true → token = Vocabulary.eof

variable {i : Input α} {sources : List (RuleBody α)} {s : State} {p : Production}

theorem Input.IsProgressive.productions (h : i.IsProgressive sources) :
    AllRules (Production.IsProgressive i.grammar) i.grammar.rules := by
  intro r hr p hp
  refine ⟨h.compiled.areSolid r hr p hp, h.endLast.separators r hr p hp, ?_⟩
  rintro name target occurrence rfl
  obtain ⟨id, rfl, hName⟩ := h.compiled.target hr hp
  exact ⟨id, rfl, hName, h.endLast.uncalled r hr _ hp id rfl⟩

theorem Input.IsProgressive.of_compile {types : List TokenType} {config : ParserConfig}
    {g : Grammar α} (hCompile : Grammar.compile (.ofTypes types) sources config = .ok g)
    (hBodies : ∀ r ∈ sources, r.IsFaithful)
    (hTrialFree : ∀ r ∈ sources, Op.allTrialFree r.body = true) (hEnd : ReadsEndLast g.rules)
    (tokens : Array Token) : (⟨g, tokens⟩ : Input α).IsProgressive sources := by
  obtain ⟨hCompiled, hVocabulary, -⟩ := Grammar.compile_ok hCompile
  refine ⟨hCompiled.isFaithful hBodies, hCompiled, fun id => ?_, hEnd, fun {token} hMatch => ?_⟩
  · rw [Grammar.body, hCompiled.bodies, List.getD_eq_getElem?_getD, List.getElem?_map]
    cases hr : sources[id]? with
    | none => rfl
    | some r => exact hTrialFree r (List.mem_of_getElem? hr)
  · rw [Input.isMatch, hVocabulary] at hMatch
    exact (Vocabulary.eof_isMatch_iff types).mp hMatch

structure Input.Admits (i : Input α) (ops : List (Op α)) : Prop where
  propagates : Op.propagatesAll ops = true
  trialFree : Op.allTrialFree ops = true
  endLast : Production.endLast (i.grammar.shape ops) = true
  productions : ∀ p ∈ Production.nodesOf (i.grammar.shape ops), p.IsProgressive i.grammar

namespace Input.Admits

theorem nested {op : Op α} {ops : List (Op α)} (h : i.Admits [op])
    (hShape : i.grammar.shapeOf op = [p]) (hEnd : p.isEnd = false)
    (hPropagates : Op.propagatesAll ops = true) (hTrialFree : Op.allTrialFree ops = true)
    (hNodes : ∀ q ∈ Production.nodesOf (i.grammar.shape ops), q ∈ p.nodes) :
    i.Admits ops ∧ Production.endFree (i.grammar.shape ops) = true := by
  have hEndLast := h.endLast
  have hProductions := h.productions
  rw [Grammar.shape_cons, Grammar.shape_nil, List.append_nil, hShape] at hEndLast hProductions
  rw [Production.nodesOf_singleton] at hProductions
  have hFree : Production.endFree (i.grammar.shape ops) = true :=
    Production.endFree_iff.mpr fun q hq =>
      Production.endFree_of_endLast hEndLast hEnd q (hNodes q hq)
  exact ⟨⟨hPropagates, hTrialFree, Production.endLast_of_endFree hFree,
    fun q hq => hProductions q (hNodes q hq)⟩, hFree⟩

theorem cons {op : Op α} {ops : List (Op α)} (h : i.Admits (op :: ops)) :
    i.Admits [op] ∧ i.Admits ops ∧
      (i.grammar.shape ops = [] ∨ Production.endFree (i.grammar.shapeOf op) = true) := by
  obtain ⟨hPropagates, hTrialFree, hEndLast, hProductions⟩ := h
  rw [Op.propagatesAll, Bool.and_eq_true] at hPropagates
  rw [Op.allTrialFree, Bool.and_eq_true] at hTrialFree
  rw [Grammar.shape_cons] at hEndLast hProductions
  rw [Production.nodesOf_append, List.forall_mem_append] at hProductions
  obtain ⟨hFirst, hRest, hBehind⟩ := Production.endLast_append hEndLast
  refine ⟨⟨?_, ?_, ?_, ?_⟩, ⟨hPropagates.2, hTrialFree.2, hRest, hProductions.2⟩, hBehind⟩
  · rw [Op.propagatesAll, hPropagates.1, Op.propagatesAll, Bool.and_true]
  · rw [Op.allTrialFree, hTrialFree.1, Op.allTrialFree, Bool.and_true]
  · rwa [Grammar.shape_cons, Grammar.shape_nil, List.append_nil]
  · rw [Grammar.shape_cons, Grammar.shape_nil, List.append_nil]
    exact hProductions.1

theorem production {op : Op α} (h : i.Admits [op]) (hShape : i.grammar.shapeOf op = [p]) :
    p.IsProgressive i.grammar := by
  have hProductions := h.productions
  rw [Grammar.shape_cons, Grammar.shape_nil, List.append_nil, hShape,
    Production.nodesOf_singleton] at hProductions
  exact hProductions p p.mem_nodes_self

section Nested

variable {occurrence : Nat} {body : List (Op α)}

theorem whenParsing (h : i.Admits [.whenParsing body]) : i.Admits body := by
  obtain ⟨hPropagates, hTrialFree, hEndLast, hProductions⟩ := h
  rw [Grammar.shape_cons, Grammar.shape_nil, List.append_nil, Grammar.shapeOf_whenParsing]
    at hEndLast hProductions
  simp only [Op.propagatesAll, Op.propagates, Bool.and_true] at hPropagates
  simp only [Op.allTrialFree, Op.isTrialFree, Bool.and_true] at hTrialFree
  exact ⟨hPropagates, hTrialFree, hEndLast, hProductions⟩

theorem option {act : Bool → α → α} (h : i.Admits [.option occurrence body act]) :
    i.Admits body ∧ Production.endFree (i.grammar.shape body) = true := by
  have hPropagates := h.propagates
  have hTrialFree := h.trialFree
  simp only [Op.propagatesAll, Op.propagates, Bool.and_true] at hPropagates
  simp only [Op.allTrialFree, Op.isTrialFree, Bool.and_true] at hTrialFree
  exact h.nested (Grammar.shapeOf_option _ _ _ _) rfl hPropagates hTrialFree
    fun q hq => List.mem_cons_of_mem _ hq

theorem repetition {mandatory : Bool} {separator : Option TypeId} {act : α → α}
    (h : i.Admits [.repetition mandatory separator occurrence body act]) :
    i.Admits body ∧ Production.endFree (i.grammar.shape body) = true := by
  have hPropagates := h.propagates
  have hTrialFree := h.trialFree
  simp only [Op.propagatesAll, Op.propagates, Bool.and_true] at hPropagates
  simp only [Op.allTrialFree, Op.isTrialFree, Bool.and_true] at hTrialFree
  exact h.nested (Grammar.shapeOf_repetition _ _ _ _ _ _) rfl hPropagates hTrialFree
    fun q hq => List.mem_cons_of_mem _ hq

variable {branches : List (Branch (Op α))} {act : α → α → α}

theorem branchesTrialFree (h : i.Admits [.choice occurrence branches act]) :
    Op.branchesTrialFree branches = true := by
  have hTrialFree := h.trialFree
  simpa only [Op.allTrialFree, Op.isTrialFree, Bool.and_true] using hTrialFree

theorem branch {branch : Branch (Op α)} (h : i.Admits [.choice occurrence branches act])
    (hMem : branch ∈ branches) :
    i.Admits branch.body ∧ Production.endFree (i.grammar.shape branch.body) = true := by
  have hPropagates := h.propagates
  simp only [Op.propagatesAll, Op.propagates, Bool.and_true] at hPropagates
  rw [Op.propagatesBranches_iff] at hPropagates
  have hTrialFree := Op.branchesTrialFree_iff.mp h.branchesTrialFree branch hMem
  exact h.nested (Grammar.shapeOf_choice _ _ _ _) rfl (hPropagates branch hMem) hTrialFree.2
    fun q hq => List.mem_cons_of_mem _
      (Production.mem_nodesOfBranches (i.grammar.mem_shapeOfBranches hMem) hq)

end Nested

end Input.Admits

theorem Input.IsProgressive.admits_body (h : i.IsProgressive sources) (id : RuleId) :
    i.Admits (i.grammar.body id) := by
  have hProductions := throughout_sequence.mp (h.productions.definition id)
  have hEndLast := h.endLast.definition id
  rw [h.faithful.definition] at hProductions hEndLast
  exact ⟨h.faithful.propagates id, h.trialFree id, hEndLast, hProductions⟩

/-! ## Gates -/

variable [Inhabited α]

theorem exists_askGate {gate : Gate} (h : gate.isTrialFree = true) (s : State) :
    ∃ n holds, ∀ fuel ≥ n, i.askGate fuel gate s = .done holds s := by
  have hOnce : ∀ {gate holds}, (∀ fuel, i.askGate (fuel + 1) gate s = .done holds s) →
      ∃ n holds, ∀ fuel ≥ n, i.askGate fuel gate s = .done holds s := by
    intro gate holds hAsk
    refine ⟨1, holds, fun fuel hLe => ?_⟩
    obtain ⟨n, rfl⟩ := Nat.exists_eq_add_of_le' hLe
    exact hAsk n
  induction gate with
  | parsing | tokens => exact hOnce fun fuel => by rw [Input.askGate]
  | trial rule => cases h
  | negation gate ih =>
    obtain ⟨n, holds, hAsk⟩ := ih h
    refine ⟨n + 1, !holds, fun fuel hLe => ?_⟩
    obtain ⟨m, rfl⟩ := Nat.exists_eq_add_of_le' (Nat.le_of_add_left_le hLe)
    rw [Input.askGate, hAsk m (by omega)]
  | both first second ihFirst ihSecond =>
    rw [Gate.isTrialFree, Bool.and_eq_true] at h
    obtain ⟨n, holds, hAsk⟩ := ihFirst h.1
    obtain ⟨n', holds', hAsk'⟩ := ihSecond h.2
    refine ⟨max n n' + 1, holds && holds', fun fuel hLe => ?_⟩
    obtain ⟨m, rfl⟩ := Nat.exists_eq_add_of_le' (Nat.le_of_add_left_le hLe)
    rw [Input.askGate, hAsk m (by omega)]
    cases holds with
    | true => exact hAsk' m (by omega)
    | false => rfl

theorem exists_askGates {gates : List (Option Gate)}
    (h : ∀ gate ∈ gates, gate.all Gate.isTrialFree = true) (s : State) :
    ∃ n mask, ∀ fuel ≥ n, i.askGates fuel gates s = .done mask s := by
  induction gates with
  | nil =>
    refine ⟨1, [], fun fuel hLe => ?_⟩
    obtain ⟨n, rfl⟩ := Nat.exists_eq_add_of_le' hLe
    rw [Input.askGates]
  | cons gate gates ih =>
    obtain ⟨hGate, hGates⟩ := List.forall_mem_cons.mp h
    obtain ⟨n, mask, hRest⟩ := ih hGates
    cases gate with
    | none =>
      refine ⟨n + 1, true :: mask, fun fuel hLe => ?_⟩
      obtain ⟨m, rfl⟩ := Nat.exists_eq_add_of_le' (Nat.le_of_add_left_le hLe)
      rw [Input.askGates, hRest m (by omega)]
    | some gate =>
      obtain ⟨n', holds, hAsk⟩ := exists_askGate (i := i) hGate s
      refine ⟨max n n' + 1, holds :: mask, fun fuel hLe => ?_⟩
      obtain ⟨m, rfl⟩ := Nat.exists_eq_add_of_le' (Nat.le_of_add_left_le hLe)
      rw [Input.askGates, hAsk m (by omega)]
      simp only
      rw [hRest m (by omega)]

theorem gates_answer {branches : List (Branch (Op α))} (h : Op.branchesTrialFree branches = true)
    (s : State) : ∃ fuel mask, i.askGates fuel (branches.map (·.gate)) s = .done mask s := by
  rw [Op.branchesTrialFree_iff] at h
  have hGates : ∀ gate ∈ branches.map (·.gate), gate.all Gate.isTrialFree = true :=
    List.forall_mem_map.mpr fun branch hMem => (h branch hMem).1
  obtain ⟨n, mask, hAsk⟩ := exists_askGates (i := i) hGates s
  exact ⟨n, mask, hAsk n (Nat.le_refl n)⟩

end Parse

end PredictiveParsing
