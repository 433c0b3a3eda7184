import PredictiveParsing.Proofs.Grammar.Faithful

/-!
# Compiled grammars

What is known of a grammar that compiling has accepted: where its parts come from, and that the
checks found nothing.
-/

namespace PredictiveParsing

variable {α : Type}

/-- A grammar that compiling made of some rule bodies. -/
structure Grammar.IsCompiled (g : Grammar α) (sources : List (RuleBody α)) : Prop where
  rules : g.rules = Names.resolve (sources.map RuleBody.record)
  bodies : g.bodies = sources.map (·.body)
  named : Grammar.recordingErrors g.vocabulary sources = []
  sound : Structure.errors g.vocabulary g.rules (.ofRules g.rules) = []
  analysed : Analysis.ofRules? g.vocabulary g.rules (.ofRules g.rules) g.config.maxLookahead =
    some g.analysis
  unambiguous : g.config.strict = true →
    Ambiguity.errors g.vocabulary g.rules (.ofRules g.rules) g.analysis = []

namespace Ambiguity

variable {v : Vocabulary} {fs : FirstSets} {r : Rule} {branches : List (Alternative Production)}
  {occurrence : Nat} {checked : List (Nat × List Path)} {e : DefinitionError}

theorem isFatal_of_mem_emptyBranches (h : e ∈ emptyBranches fs r branches occurrence) :
    e.isFatal = false := by
  obtain ⟨_, -, hKept⟩ := List.mem_filterMap.mp h
  rw [Option.ite_none_right_eq_some] at hKept
  cases hKept.2
  rfl

theorem isFatal_of_mem_ambiguousBranches (h : e ∈ ambiguousBranches v r occurrence checked) :
    e.isFatal = false := by
  obtain ⟨_, -, rfl⟩ := List.mem_map.mp h
  rfl

theorem isFatal_of_mem_shadowingPaths (h : e ∈ shadowingPaths v r occurrence checked) :
    e.isFatal = false := by
  obtain ⟨⟨earlier, shorts⟩, -, hEarlier⟩ := List.mem_flatMap.mp h
  obtain ⟨⟨later, longs⟩, -, hLater⟩ := List.mem_flatMap.mp hEarlier
  simp only at hLater
  split at hLater
  · obtain ⟨_, -, hShort⟩ := List.mem_flatMap.mp hLater
    obtain ⟨_, -, hKept⟩ := List.mem_filterMap.mp hShort
    rw [Option.ite_none_right_eq_some] at hKept
    cases hKept.2
    rfl
  · cases hLater

theorem isFatal_of_mem_errors {rules : List Rule} {a : Analysis} (h : e ∈ errors v rules fs a) :
    e.isFatal = false := by
  obtain ⟨_, -, hRule⟩ := List.mem_flatMap.mp h
  obtain ⟨p, -, hNode⟩ := List.mem_flatMap.mp hRule
  cases p with
  | terminal | nonTerminal | option | repetition => cases hNode
  | alternation branches occurrence =>
    rcases List.mem_append.mp hNode with hEmpty | hPaths
    · exact isFatal_of_mem_emptyBranches hEmpty
    · split at hPaths
      · cases hPaths
      · exact (List.mem_append.mp hPaths).elim isFatal_of_mem_ambiguousBranches
          isFatal_of_mem_shadowingPaths

end Ambiguity

namespace Grammar

variable {v : Vocabulary} {bodies : List (RuleBody α)} {config : ParserConfig} {g : Grammar α}

theorem compile_ok (h : compile v bodies config = .ok g) :
    g.IsCompiled bodies ∧ g.vocabulary = v ∧ g.config = config := by
  unfold compile at h
  split at h
  · cases h
  · next hNamed =>
    simp only at h
    split at h
    · cases h
    · next hSound =>
      split at h
      · cases h
      · next analysis hAnalysis =>
        split at h
        · cases h
        · next hAmbiguity =>
          cases h
          refine ⟨⟨rfl, rfl, hNamed, hSound, hAnalysis, fun hStrict => ?_⟩, rfl, rfl⟩
          simp only [Bool.or_eq_true, Bool.and_eq_true, not_or, not_and] at hAmbiguity
          simpa using hAmbiguity.2 hStrict

theorem compile_of_isCompiled (h : g.IsCompiled bodies) :
    compile g.vocabulary bodies g.config = .ok { g with
      warnings := Ambiguity.errors g.vocabulary g.rules (.ofRules g.rules) g.analysis } := by
  have hAnalysed := h.analysed
  have hSound := h.sound
  have hUnambiguous := h.unambiguous
  have hPassed : (Ambiguity.errors g.vocabulary g.rules (.ofRules g.rules) g.analysis).any
      (·.isFatal) = false := by
    rw [List.any_eq_false]
    exact fun e he => by rw [Ambiguity.isFatal_of_mem_errors he]; exact Bool.false_ne_true
  rw [h.rules] at hAnalysed hSound hUnambiguous hPassed
  simp only [compile, h.named, hSound, hAnalysed, hPassed, Bool.false_or]
  rw [if_neg ?_]
  · simp only [h.rules, h.bodies]
  · rw [Bool.and_eq_true, Bool.not_eq_true', List.isEmpty_eq_false_iff]
    exact fun hStrict => hStrict.2 (hUnambiguous hStrict.1)

theorem compile_withConfig (h : compile v bodies config = .ok g) (other : ParserConfig)
    (hLookahead : other.maxLookahead = config.maxLookahead)
    (hStrict : other.strict = config.strict) :
    compile v bodies other = .ok { g with config := other } := by
  unfold compile at h ⊢
  rw [hLookahead, hStrict]
  split at h
  · cases h
  · simp only at h ⊢
    split at h
    · cases h
    · split at h
      · cases h
      · split at h
        · cases h
        · next hAmbiguity =>
          cases h
          simp only [hAmbiguity]
          rfl

theorem exists_compiled {p : Grammar α → Bool}
    (h : (compile v bodies config).toOption.any p = true) :
    ∃ g, compile v bodies config = .ok g ∧ p g = true := by
  cases hCompile : compile v bodies config with
  | error e =>
    rw [hCompile] at h
    cases h
  | ok g =>
    rw [hCompile] at h
    exact ⟨g, rfl, h⟩

theorem lt_of_ruleNamed? {name : String} {id : RuleId} (h : g.ruleNamed? name = some id) :
    id < g.rules.length := by
  rw [ruleNamed?, PredictiveParsing.ruleNamed?, List.findIdx?_eq_some_iff_getElem] at h
  exact h.1

theorem ruleName_of_ruleNamed? {name : String} {id : RuleId} (h : g.ruleNamed? name = some id) :
    g.ruleName id = name := by
  rw [ruleNamed?, PredictiveParsing.ruleNamed?, List.findIdx?_eq_some_iff_getElem] at h
  obtain ⟨hLt, hFound, -⟩ := h
  rw [ruleName, PredictiveParsing.ruleName, List.getElem?_eq_getElem hLt]
  exact beq_iff_eq.mp hFound

theorem ruleNamed?_resolve (rules : List Rule) (name : String) :
    PredictiveParsing.ruleNamed? (Names.resolve rules) name =
      PredictiveParsing.ruleNamed? rules name := by
  rw [PredictiveParsing.ruleNamed?, Names.resolve, List.findIdx?_map]
  rfl

theorem definitionOf_resolve (rules : List Rule) (id : RuleId) :
    definitionOf (Names.resolve rules) id =
      Production.resolveAll (PredictiveParsing.ruleNamed? rules) (definitionOf rules id) := by
  rw [definitionOf, definitionOf, Names.resolve, List.getElem?_map]
  cases rules[id]? with
  | none => simp [Production.resolveAll]
  | some r => rfl

/-- If the bodies call the same operations when they are recorded and when they are parsed, every
rule is the shape of its body. -/
theorem IsCompiled.definition_eq_shape (h : g.IsCompiled bodies)
    (hBodies : ∀ r ∈ bodies, Op.performedBy r.body = (Recording.ofBody r.body).definition)
    (id : RuleId) : definitionOf g.rules id = g.shape (g.body id) := by
  have hNames : g.ruleNamed? = PredictiveParsing.ruleNamed? (bodies.map RuleBody.record) := by
    funext name
    rw [Grammar.ruleNamed?, h.rules, ruleNamed?_resolve]
  rw [h.rules, definitionOf_resolve, shape, hNames, body, h.bodies, List.getD_eq_getElem?_getD,
    definitionOf, List.getElem?_map, List.getElem?_map]
  cases hr : bodies[id]? with
  | none => rfl
  | some r => exact congrArg _ (hBodies r (List.mem_of_getElem? hr)).symm

theorem IsCompiled.forall_body {p : List (Op α) → Prop} (h : g.IsCompiled bodies) (hNone : p [])
    (hAll : ∀ r ∈ bodies, p r.body) (id : RuleId) : p (g.body id) := by
  rw [body, h.bodies, List.getD_eq_getElem?_getD, List.getElem?_map]
  cases hr : bodies[id]? with
  | none => exact hNone
  | some r => exact hAll r (List.mem_of_getElem? hr)

theorem IsCompiled.isFaithful (h : g.IsCompiled bodies) (hBodies : ∀ r ∈ bodies, r.IsFaithful) :
    g.IsFaithful :=
  ⟨h.forall_body (p := fun ops => Op.propagatesAll ops = true) rfl fun r hr =>
      (hBodies r hr).propagates,
    h.definition_eq_shape fun r hr => (hBodies r hr).performed⟩

end Grammar

end PredictiveParsing
