import PredictiveParsing.Proofs.Builtin.JsonText
import PredictiveParsing.Proofs.Grammar.Deciding
import PredictiveParsing.Proofs.Parse.Placed
import PredictiveParsing.Proofs.Parse.Reached

/-!
# What a parse looks up

If bodies call the same operations when they are recorded and when they are parsed, every operation
that a parse comes to stands for a production in its place of the rule being parsed. Places have
pairwise different keys, so what the operation finds in the tables of the analysis was computed for
just this place.
-/

namespace PredictiveParsing

namespace Parse

variable {α : Type}

def Stands (g : Grammar α) (r : RuleId) : Job α → Prop
  | .body ops => ∃ k, Placed g r (g.shape ops) k
  | .op op => ∃ k, Placed g r (g.shapeOf op) k
  | .invoke rule _ => rule < g.rules.length
  | .loop loop _ | .iteration loop => ∃ k occurrence, Placed g r [.repetition loop.mandatory
      loop.separator (g.shape loop.body) occurrence] k
  | .trial _ | .gate _ | .gates _ => True

/-- What an operation finds in the tables. Each entry is the one computed for the production that the
operation stands for, at a place of the rule being parsed. -/
def FindsOwn (i : Input α) (s : State) (op : Op α) : Prop :=
  let g := i.grammar
  let isPlace (p : Production) (after : Continuation) : Prop :=
    (s.currentRule, ⟨p, after⟩) ∈ Analysis.sites g.rules
  let follow (after : Continuation) : TokenSet :=
    (FirstSets.ofRules g.rules).follow g.vocabulary after
  let decides (p : Production) (after : Continuation) (d : Decision) : Prop :=
    Analysis.decision? g.vocabulary g.rules g.config.maxLookahead ⟨p, after⟩ = some (some d)
  match op with
  | .consume occurrence token _ _ =>
    ∃ after, isPlace (.terminal token occurrence) after ∧
      g.analysis.terminalFollows.lookup ⟨s.currentRule, token, occurrence⟩ = some (follow after)
  | .subrule occurrence rule _ _ =>
    ∃ id after, g.ruleNamed? rule = some id ∧
      isPlace (.nonTerminal rule (some id) occurrence) after ∧
      i.callFollow? (i.enter s id occurrence).calls = some (follow after)
  | .option occurrence body _ =>
    ∃ after d, isPlace (.option (g.shape body) occurrence) after ∧
      decides (.option (g.shape body) occurrence) after d ∧
      i.decisionAt? (s.key .option occurrence) = some d
  | .repetition mandatory separator occurrence body _ =>
    ∃ after d, isPlace (.repetition mandatory separator (g.shape body) occurrence) after ∧
      decides (.repetition mandatory separator (g.shape body) occurrence) after d ∧
      i.decisionAt? (s.key (.ofRepetition mandatory separator) occurrence) = some d ∧
      g.analysis.repetitionExits.lookup (s.key (.ofRepetition mandatory separator) occurrence) =
        some (follow after)
  | .choice occurrence branches _ =>
    ∃ after d, isPlace (.alternation (g.shapeOfBranches branches) occurrence) after ∧
      decides (.alternation (g.shapeOfBranches branches) occurrence) after d ∧
      i.decisionAt? (s.key .or occurrence) = some d ∧ d.alternatives.length = branches.length
  | .peek _ _ | .trial _ _ | .whenParsing _ | .whenRecording _ | .attempt _ _ => True

variable [Inhabited α] {i : Input α} {start : RuleId} {x y : Job α} {s t : State}
  {sources : List (RuleBody α)}

theorem Leads.stands
    (hShape : ∀ id, definitionOf i.grammar.rules id = i.grammar.shape (i.grammar.body id))
    (h : Leads i x s y t) (hs : Stands i.grammar s.currentRule x) :
    Stands i.grammar t.currentRule y := by
  have hRule := h.currentRule
  cases h with
  | firstOp =>
    obtain ⟨k, hPlaced⟩ := hs
    rw [Grammar.shape_cons] at hPlaced
    exact ⟨_, hPlaced.left⟩
  | laterOps =>
    obtain ⟨k, hPlaced⟩ := hs
    rw [Grammar.shape_cons] at hPlaced
    rw [hRule nofun]
    exact ⟨k, hPlaced.right⟩
  | subrule hName => exact Grammar.lt_of_ruleNamed? hName
  | option =>
    obtain ⟨k, hPlaced⟩ := hs
    rw [Grammar.shapeOf_option] at hPlaced
    exact ⟨_, hPlaced.option⟩
  | repetition =>
    obtain ⟨k, hPlaced⟩ := hs
    rw [Grammar.shapeOf_repetition] at hPlaced
    exact ⟨k, _, hPlaced⟩
  | branch hGates hBranch =>
    obtain ⟨k, hPlaced⟩ := hs
    rw [Grammar.shapeOf_choice] at hPlaced
    rw [hRule nofun]
    have hMem := Input.mem_of_branchAt? hBranch
    exact ⟨_, hPlaced.alternative (i.grammar.mem_shapeOfBranches hMem)⟩
  | whenParsing =>
    obtain ⟨k, hPlaced⟩ := hs
    rw [Grammar.shapeOf_whenParsing] at hPlaced
    exact ⟨k, hPlaced⟩
  | attempt =>
    obtain ⟨k, hPlaced⟩ := hs
    rw [Grammar.shapeOf_attempt] at hPlaced
    exact ⟨k, hPlaced⟩
  | @invoke rule =>
    refine ⟨([], []), ?_⟩
    rw [← hShape]
    exact .definition hs
  | iteration =>
    obtain ⟨k, occurrence, hPlaced⟩ := hs
    exact ⟨_, hPlaced.iteration⟩
  | firstIteration => exact hs
  | laterIteration | skip | again | resume =>
    rw [hRule nofun]
    exact hs
  | tried hName => exact Grammar.lt_of_ruleNamed? hName
  | gates | trial | trialGate | negated | firstGate | secondGate | ungated | gated | laterGates =>
    trivial

theorem Reached.stands
    (hShape : ∀ id, definitionOf i.grammar.rules id = i.grammar.shape (i.grammar.body id))
    (hStart : start < i.grammar.rules.length) (h : Reached i start x s) :
    Stands i.grammar s.currentRule x := by
  induction h with
  | start =>
    refine ⟨([], []), ?_⟩
    rw [← hShape]
    exact .definition hStart
  | next h hLeads ih => exact hLeads.stands hShape ih

omit [Inhabited α] in
theorem findsOwn (hCompiled : i.grammar.IsCompiled sources) (hs : s.calls ≠ []) {op : Op α}
    (hStands : Stands i.grammar s.currentRule (.op op)) : FindsOwn i s op := by
  obtain ⟨k, hPlaced⟩ := hStands
  cases op with
  | consume occurrence token label act =>
    rw [Grammar.shapeOf_consume] at hPlaced
    exact ⟨_, hPlaced.site, hCompiled.terminalFollow hPlaced.site⟩
  | subrule occurrence rule label act =>
    rw [Grammar.shapeOf_subrule] at hPlaced
    obtain ⟨id, hTarget, hName⟩ := hCompiled.target_of_site hPlaced.site
    rw [hTarget] at hPlaced
    exact ⟨id, _, hName, hPlaced.site, callFollow?_eq_some hCompiled hs hPlaced.site⟩
  | option occurrence body act =>
    rw [Grammar.shapeOf_option] at hPlaced
    obtain ⟨d?, hDecision⟩ := hCompiled.exists_decision hPlaced.site
    obtain ⟨paths, -, rfl⟩ := Option.map_eq_some_iff.mp hDecision
    exact ⟨_, _, hPlaced.site, hDecision, hCompiled.decisionAt? hPlaced.site hDecision⟩
  | repetition mandatory separator occurrence body act =>
    rw [Grammar.shapeOf_repetition] at hPlaced
    obtain ⟨d?, hDecision⟩ := hCompiled.exists_decision hPlaced.site
    obtain ⟨paths, -, rfl⟩ := Option.map_eq_some_iff.mp hDecision
    exact ⟨_, _, hPlaced.site, hDecision, hCompiled.decisionAt? hPlaced.site hDecision,
      hCompiled.repetitionExit hPlaced.site⟩
  | choice occurrence branches act =>
    rw [Grammar.shapeOf_choice] at hPlaced
    obtain ⟨d?, hDecision⟩ := hCompiled.exists_decision hPlaced.site
    obtain ⟨paths, hPaths, rfl⟩ := Option.map_eq_some_iff.mp hDecision
    have hLength := Lookahead.length_paths? hPaths
    rw [List.length_map, Grammar.shapeOfBranches, List.length_map] at hLength
    exact ⟨_, _, hPlaced.site, hDecision, hCompiled.decisionAt? hPlaced.site hDecision, hLength⟩
  | peek | trial | whenParsing | whenRecording | attempt => trivial

end Parse

variable {α : Type}

/-- Every reference leads to the rule of its name, no table has two entries for one key, and
whatever a parse looks up is what was computed for the production that looks it up. -/
theorem lookups_find_own [Inhabited α] {v : Vocabulary} {bodies : List (RuleBody α)}
    {config : ParserConfig} {g : Grammar α} (hCompile : Grammar.compile v bodies config = .ok g)
    (hBodies : ∀ r ∈ bodies, Op.performedBy r.body = (Recording.ofBody r.body).definition) :
    (∀ r ∈ g.rules, ∀ name target occurrence, .nonTerminal name target occurrence ∈ r.nodes →
      ∃ id callee, target = some id ∧ g.ruleNamed? name = some id ∧ g.rules[id]? = some callee ∧
        callee.name = name) ∧
    ((g.analysis.decisions.map Prod.fst).Nodup ∧ (g.analysis.repetitionExits.map Prod.fst).Nodup ∧
      (g.analysis.terminalFollows.map Prod.fst).Nodup ∧
      (g.analysis.callFollows.map Prod.fst).Nodup) ∧
    ∀ (tokens : List Token) (name : String) (start : RuleId), g.ruleNamed? name = some start →
      ∀ op s, Parse.Reached ⟨g, tokens.toArray⟩ start (.op op) s →
        Parse.FindsOwn ⟨g, tokens.toArray⟩ s op := by
  obtain ⟨hCompiled, -, -⟩ := Grammar.compile_ok hCompile
  refine ⟨fun r hr name target occurrence hNode => ?_, ⟨hCompiled.nodup_decisions,
    hCompiled.nodup_repetitionExits, hCompiled.nodup_terminalFollows,
    hCompiled.nodup_callFollows⟩, fun tokens name start hStart op s hReached => ?_⟩
  · obtain ⟨id, rfl, hName⟩ := hCompiled.target hr hNode
    have hFound := hName
    rw [Grammar.ruleNamed?, ruleNamed?, List.findIdx?_eq_some_iff_getElem] at hFound
    obtain ⟨hLt, hSame, -⟩ := hFound
    exact ⟨id, g.rules[id], rfl, hName, List.getElem?_eq_getElem hLt, beq_iff_eq.mp hSame⟩
  · exact Parse.findsOwn hCompiled hReached.inside.calls (hReached.stands
      (hCompiled.definition_eq_shape hBodies) (Grammar.lt_of_ruleNamed? hStart))

/-- The first choice of a JSON text. -/
theorem lookups_find_own_json : ∃ g,
    Grammar.compile (.ofTypes JsonText.types) JsonText.rules { recovery := true } = .ok g ∧
      g.ruleNamed? "json" = some 0 ∧
      ∃ d, g.analysis.decisionAt? ⟨0, .or, 0⟩ = some d ∧ d.alternatives.length = 2 := by
  obtain ⟨g, hCompile, hStart⟩ := Grammar.exists_compiled (v := .ofTypes JsonText.types)
    (p := fun g => g.ruleNamed? "json" == some 0)
    (by decide +kernel : (Grammar.compile (.ofTypes JsonText.types) JsonText.rules
      { recovery := true }).toOption.any _ = true)
  rw [beq_iff_eq] at hStart
  have hBody : g.body 0 = [JsonText.oneOf [[.enter "object"], [.enter "array"]]] := by
    rw [Grammar.body, (Grammar.compile_ok hCompile).1.bodies]
    rfl
  have hReached : Parse.Reached (⟨g, JsonText.pair.toArray⟩ : Parse.Input Unit) 0
      (.body (g.body 0)) (Parse.Input.enter ⟨g, JsonText.pair.toArray⟩ .initial 0 0) := .start
  rw [hBody] at hReached
  obtain ⟨_, d, -, -, hFound, hLength⟩ := (lookups_find_own hCompile
    (fun r hr => (JsonText.isFaithful r hr).performed)).2.2 JsonText.pair "json" 0 hStart _ _
      (hReached.next .firstOp)
  exact ⟨g, hCompile, hStart, d, hFound, hLength⟩

end PredictiveParsing
