import PredictiveParsing.Proofs.Builtin.JsonText
import PredictiveParsing.Proofs.Grammar.Declared
import PredictiveParsing.Proofs.Parse.RenamedRun

/-!
# The order of rules

The order in which rules are declared makes no difference: rules that compile in one order compile
in any, and parses have the same results.
-/

namespace PredictiveParsing

open Parse

variable {α : Type} {v : Vocabulary} {bodies bodies' : List (RuleBody α)} {config : ParserConfig}

namespace Grammar

variable {g g' : Grammar α}

theorem IsCompiled.exists_isRenamed (h : g.IsCompiled bodies) (h' : g'.IsCompiled bodies')
    (hPerm : bodies.Perm bodies') (hVocabulary : g'.vocabulary = g.vocabulary)
    (hConfig : g'.config = g.config) :
    ∃ σ : Equiv.Perm RuleId, ∀ tokens, IsRenamed σ (⟨g, tokens⟩ : Input α) ⟨g', tokens⟩ := by
  obtain ⟨σ, hPlaces, hReordering⟩ := h.exists_reordering hPerm
  rw [← h'.rules] at hReordering
  have hAnalysed := h'.analysed
  rw [hVocabulary, hConfig] at hAnalysed
  refine ⟨σ, fun tokens =>
    { tokens := rfl
      vocabulary := hVocabulary
      config := hConfig
      ruleNamed? := fun name => ?_
      ruleName := hReordering.name
      body := fun id => ?_
      decisionAt? := hReordering.decisionAt? h.analysed hAnalysed
      terminalFollow := hReordering.terminalFollow h.analysed hAnalysed
      callFollow := hReordering.callFollow h.analysed hAnalysed
      repetitionExit := hReordering.repetitionExit h.analysed hAnalysed }⟩
  · rw [ruleNamed?, ruleNamed?, h.rules, h'.rules, ruleNamed?_resolve, ruleNamed?_resolve]
    refine ruleNamed?_of_places (fun id => ?_) h.names_nodup h'.names_nodup name
    rw [List.getElem?_map, List.getElem?_map, hPlaces]
  · rw [body, body, h.bodies, h'.bodies, List.getD_eq_getElem?_getD, List.getD_eq_getElem?_getD,
      List.getElem?_map, List.getElem?_map, hPlaces]

variable [Inhabited α]

theorem IsCompiled.parseWithin_eq (h : g.IsCompiled bodies) (h' : g'.IsCompiled bodies')
    (hPerm : bodies.Perm bodies') (hVocabulary : g'.vocabulary = g.vocabulary)
    (hConfig : g'.config = g.config) (fuel : Nat) (rule : String) (tokens : List Token) :
    g'.parseWithin fuel rule tokens = g.parseWithin fuel rule tokens := by
  obtain ⟨σ, hRenamed⟩ := h.exists_isRenamed h' hPerm hVocabulary hConfig
  have hNamed := (hRenamed tokens.toArray).ruleNamed? rule
  rw [parseWithin, parseWithin, hNamed]
  cases g.ruleNamed? rule with
  | none => rfl
  | some id => exact (hRenamed tokens.toArray).parseFrom fuel id

end Grammar

variable [Inhabited α]

/-- Rules compile in all orders or in none, and a parse has the same result in each order, or comes
to no end in any. -/
theorem parse_rule_order (hPerm : bodies.Perm bodies') :
    ((∃ g, Grammar.compile v bodies config = .ok g) ↔
      ∃ g', Grammar.compile v bodies' config = .ok g') ∧
    ∀ g g', Grammar.compile v bodies config = .ok g → Grammar.compile v bodies' config = .ok g' →
      ∀ fuel rule tokens,
        g'.parseWithin fuel rule tokens = g.parseWithin fuel rule tokens := by
  refine ⟨⟨?_, ?_⟩, fun g g' h h' fuel rule tokens => ?_⟩
  · rintro ⟨g, h⟩
    exact Grammar.exists_compile_of_perm hPerm h
  · rintro ⟨g', h'⟩
    exact Grammar.exists_compile_of_perm hPerm.symm h'
  · obtain ⟨hCompiled, hVocabulary, hConfig⟩ := Grammar.compile_ok h
    obtain ⟨hCompiled', hVocabulary', hConfig'⟩ := Grammar.compile_ok h'
    exact hCompiled.parseWithin_eq hCompiled' hPerm (hVocabulary'.trans hVocabulary.symm)
      (hConfig'.trans hConfig.symm) fuel rule tokens

/-- A text with two errors, by rules in the opposite order. -/
theorem parse_rule_order_broken : ∃ g g' output,
    Grammar.compile (.ofTypes JsonText.types) JsonText.rules { recovery := true } = .ok g ∧
      Grammar.compile (.ofTypes JsonText.types) JsonText.rules.reverse { recovery := true } =
        .ok g' ∧
      g.parseWithin 100 "json" JsonText.broken = .parsed output ∧
      g'.parseWithin 100 "json" JsonText.broken = .parsed output ∧ output.errors.length = 2 := by
  have hPerm : JsonText.rules.Perm JsonText.rules.reverse := (List.reverse_perm _).symm
  obtain ⟨g, output, hCompile, hParse, hErrors⟩ :=
    JsonText.exists_parsed { recovery := true } JsonText.broken
      (p := fun result => result.2.errors.length == 2) (by decide +kernel)
  obtain ⟨g', hCompile'⟩ := (parse_rule_order hPerm).1.mp ⟨g, hCompile⟩
  have hSame := (parse_rule_order hPerm).2 g g' hCompile hCompile' 100 "json" JsonText.broken
  exact ⟨g, g', output, hCompile, hCompile', hParse, hSame.trans hParse, beq_iff_eq.mp hErrors⟩

end PredictiveParsing
