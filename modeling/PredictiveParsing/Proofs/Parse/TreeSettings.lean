import PredictiveParsing.Proofs.Builtin.JsonText
import PredictiveParsing.Proofs.Parse.SettingSteps

/-!
# Parses with and without trees

Whether a parse builds a tree, and which locations the nodes get, is seen in the tree only: the same
tokens are read, with the same value and the same errors, also where the parse recovers or tries
rules.
-/

namespace PredictiveParsing

namespace Parse

def ParseOutput.withoutTree {α : Type} (output : ParseOutput α) : ParseOutput α :=
  { output with tree := none }

def ParseResult.withoutTree {α : Type} : ParseResult α → ParseResult α
  | .parsed output => .parsed output.withoutTree
  | other => other

variable {α : Type} [Inhabited α] {i : Input α} {config : ParserConfig} {depth : Nat} {s u : State}

omit [Inhabited α] in
theorem alike_initial (h : config.recovery = i.grammar.config.recovery) :
    Alike i config depth .initial .initial :=
  ⟨rfl, rfl, rfl, rfl, congrArg (· && true) h, fun _ => Iff.rfl⟩

omit [Inhabited α] in
theorem Alike.finish (h : Alike i config depth s u) (a : α) :
    ((i.withConfig config).finish a u).withoutTree = (i.finish a s).withoutTree := by
  obtain ⟨hRecord, -⟩ := h.recordError .notAllInputParsed
  simp only [Input.finish, ParseOutput.withoutTree, h.terminated, h.position, tokens_withConfig]
  split
  · rw [hRecord.errors]
  · rw [h.errors]

theorem Input.parseFrom_withConfig (h : config.recovery = i.grammar.config.recovery) (fuel : Nat)
    (rule : RuleId) :
    ((i.withConfig config).parseFrom fuel rule).withoutTree =
      (i.parseFrom fuel rule).withoutTree := by
  have hStart : Alike i config 0 .initial .initial := alike_initial h
  have hRun : (i.invoke fuel rule 0 none .initial).Paired (fuel = fuel) (Alike i config 0)
      ((i.withConfig config).invoke fuel rule 0 none .initial) :=
    ((similar_withConfig i config).within (Nat.le_refl fuel)).invoke hStart rule 0 none
  rw [Input.parseFrom, Input.parseFrom]
  generalize i.invoke fuel rule 0 none .initial = o at hRun ⊢
  generalize (i.withConfig config).invoke fuel rule 0 none .initial = o' at hRun ⊢
  cases hRun with
  | done ht => exact congrArg ParseResult.parsed (ht.finish _)
  | interrupted ht => exact congrArg ParseResult.parsed (ht.finish _)
  | panicked => rfl
  | outOfFuel hOut => rw [hOut rfl]

theorem Input.tree_of_parsed (h : i.grammar.config.outputTree = false) {fuel : Nat} {rule : RuleId}
    {output : ParseOutput α} (hParse : i.parseFrom fuel rule = .parsed output) :
    output.tree = none := by
  have hFrame := (frame_runs i fuel).invoke rule 0 none .initial
  have hRoot : ∀ {t : State}, Frame i .initial t → ∀ a, (i.finish a t).tree = none := by
    intro t ht a
    have hNone : t.root = none := ht.root (.inl h)
    unfold Input.finish
    simp only
    split
    · exact hNone
    · exact hNone
  rw [Input.parseFrom] at hParse
  cases hRun : i.invoke fuel rule 0 none .initial with
  | done a t =>
    rw [hRun] at hFrame hParse
    cases hParse
    exact hRoot hFrame a
  | interrupted e a t =>
    rw [hRun] at hFrame hParse
    cases hParse
    exact hRoot hFrame.1 default
  | panicked why => rw [hRun] at hParse; cases hParse
  | outOfFuel => rw [hRun] at hParse; cases hParse

end Parse

namespace Grammar

variable {α : Type} [Inhabited α] {g : Grammar α} {fuel : Nat} {start : String}
  {tokens : List Token}

theorem parseWithin_withConfig (config : ParserConfig) (h : config.recovery = g.config.recovery)
    (fuel : Nat) (start : String) (tokens : List Token) :
    (parseWithin { g with config } fuel start tokens).withoutTree =
      (g.parseWithin fuel start tokens).withoutTree := by
  have hName : ruleNamed? { g with config } start = g.ruleNamed? start := rfl
  rw [parseWithin, parseWithin, hName]
  cases g.ruleNamed? start with
  | none => rfl
  | some id =>
    exact Parse.Input.parseFrom_withConfig (i := ⟨g, tokens.toArray⟩) h fuel id

theorem tree_of_parsed (h : g.config.outputTree = false) {output : Parse.ParseOutput α}
    (hParse : g.parseWithin fuel start tokens = .parsed output) : output.tree = none := by
  unfold parseWithin at hParse
  split at hParse
  · cases hParse
  · exact Parse.Input.tree_of_parsed h hParse

end Grammar

variable {α : Type} [Inhabited α]

/-- With other settings for trees a grammar compiles as well, and every parse by it comes to the
same value and the same errors, or to the same end without an output. A tree that is not asked for
is absent. -/
theorem parse_apart_from_tree {v : Vocabulary} {bodies : List (RuleBody α)} {config : ParserConfig}
    {g : Grammar α} (hCompile : Grammar.compile v bodies config = .ok g) (outputTree : Bool)
    (positionTracking : LocationTracking) :
    ∃ g', Grammar.compile v bodies { config with outputTree, positionTracking } = .ok g' ∧
      ∀ fuel start tokens,
        (g'.parseWithin fuel start tokens).withoutTree =
            (g.parseWithin fuel start tokens).withoutTree ∧
          (outputTree = false → ∀ output,
            g'.parseWithin fuel start tokens = .parsed output → output.tree = none) := by
  obtain ⟨-, -, rfl⟩ := Grammar.compile_ok hCompile
  refine ⟨_, Grammar.compile_withConfig hCompile _ rfl rfl, fun fuel start tokens => ⟨?_, ?_⟩⟩
  · exact Grammar.parseWithin_withConfig { g.config with outputTree, positionTracking } rfl fuel
      start tokens
  · exact fun hNone _ => Grammar.tree_of_parsed hNone

/-- A text with errors, parsed with recovery, with a tree and without one. -/
theorem parse_apart_from_tree_broken : ∃ g g' output output',
    Grammar.compile (.ofTypes JsonText.types) JsonText.rules { recovery := true } = .ok g ∧
      Grammar.compile (.ofTypes JsonText.types) JsonText.rules
        { recovery := true, outputTree := false, positionTracking := .none } = .ok g' ∧
      g.parseWithin 100 "json" JsonText.broken = .parsed output ∧
      g'.parseWithin 100 "json" JsonText.broken = .parsed output' ∧
      output.tree.isSome = true ∧ output'.tree = none ∧ output.errors.length = 2 ∧
      output'.errors = output.errors := by
  obtain ⟨g, output, hCompile, hParse, hSeen⟩ :=
    JsonText.exists_parsed { recovery := true } JsonText.broken
      (p := fun result => result.2.errors.length == 2 && result.2.tree.isSome) (by decide +kernel)
  rw [Bool.and_eq_true, beq_iff_eq] at hSeen
  obtain ⟨g', hCompile', hSame⟩ := parse_apart_from_tree hCompile false .none
  obtain ⟨hResult, hNone⟩ := hSame 100 "json" JsonText.broken
  rw [hParse] at hResult
  cases hParse' : g'.parseWithin 100 "json" JsonText.broken with
  | parsed output' =>
    rw [hParse'] at hResult
    have hOutput : output'.withoutTree = output.withoutTree := Parse.ParseResult.parsed.inj hResult
    have hErrors : output'.withoutTree.errors = output.withoutTree.errors := by rw [hOutput]
    exact ⟨g, g', output, output', hCompile, hCompile', hParse, hParse', hSeen.2,
      hNone rfl output' hParse', hSeen.1, hErrors⟩
  | unknownStartRule name => rw [hParse'] at hResult; cases hResult
  | panicked why => rw [hParse'] at hResult; cases hResult
  | outOfFuel => rw [hParse'] at hResult; cases hResult

end PredictiveParsing
