import PredictiveParsing.Proofs.Grammar.Unambiguous

/-!
# No branch shadows a later one

A branch shadows a later one if some kinds of tokens match a path of it and the beginning of a path
of the later one, which is never picked then. A strict grammar has no such branches, as long as no
type of token is in two categories of which neither is in the other.
-/

namespace PredictiveParsing

/-- Of two types that tokens of one kind match, one matches the other. -/
def Vocabulary.IsNested (v : Vocabulary) : Prop :=
  ∀ kind ∈ v.ids, ∀ a ∈ v.matching kind, ∀ b ∈ v.matching kind,
    v.isMatch a b = true ∨ v.isMatch b a = true

instance (v : Vocabulary) : Decidable v.IsNested :=
  inferInstanceAs (Decidable (∀ kind ∈ v.ids, ∀ a ∈ v.matching kind, ∀ b ∈ v.matching kind,
    v.isMatch a b = true ∨ v.isMatch b a = true))

/-- Some kinds of tokens match a path and the beginning of another one that is no shorter. -/
def Shadows (v : Vocabulary) (p q : Path) : Prop :=
  p ≠ [] ∧ p.length ≤ q.length ∧ ∃ kinds : Nat → TypeId, (∀ n, v.isRegistered (kinds n) = true) ∧
    Decision.matchesPath v kinds 0 p = true ∧
    Decision.matchesPath v kinds 0 (q.take p.length) = true

def Alternative.IsChecked (a : Alternative Production) : Prop :=
  a.ignoreAmbiguities = false ∧ a.hasGate = false

/-- Every alternation has a decision, in which no branch shadows a later one. -/
def Grammar.IsUnshadowed {α : Type} (g : Grammar α) : Prop :=
  ∀ id r, g.rules[id]? = some r → ∀ branches occurrence,
    .alternation branches occurrence ∈ r.nodes →
      ∃ d, g.analysis.decisionAt? ⟨id, .or, occurrence⟩ = some d ∧
        d.alternatives.length = branches.length ∧
        ∀ (i j : Nat) (a b : Alternative Production), branches[i]? = some a →
          branches[j]? = some b → i < j → a.IsChecked → b.IsChecked → ∀ ps qs,
            d.alternatives[i]? = some ps → d.alternatives[j]? = some qs →
              ∀ p ∈ ps, ∀ q ∈ qs, ¬ Shadows g.vocabulary p q

variable {α : Type} {v : Vocabulary} {bodies : List (RuleBody α)} {config : ParserConfig}
  {g : Grammar α}

theorem Vocabulary.IsNested.isMatch (h : v.IsNested) {kind a b : TypeId}
    (ha : v.isMatch kind a = true) (hb : v.isMatch kind b = true) :
    v.isMatch a b = true ∨ v.isMatch b a = true := by
  rcases isMatch_iff.mp ha with rfl | ha'
  · exact .inl hb
  · rcases isMatch_iff.mp hb with rfl | hb'
    · exact .inr ha
    · exact h kind (List.mem_range.mpr (lt_size_of_mem_matching ha')) a ha' b hb'

theorem pathsOverlap_of_matchesPath (h : v.IsNested) {kinds : Nat → TypeId} {p q : Path} {n : Nat}
    (hLength : p.length = q.length) (hp : Decision.matchesPath v kinds n p = true)
    (hq : Decision.matchesPath v kinds n q = true) : Ambiguity.pathsOverlap v p q = true := by
  induction p generalizing q n with
  | nil =>
    obtain rfl := List.eq_nil_of_length_eq_zero hLength.symm
    rfl
  | cons a p ih =>
    cases q with
    | nil => cases hLength
    | cons b q =>
      rw [Decision.matchesPath, Bool.and_eq_true] at hp hq
      rw [Ambiguity.pathsOverlap, Bool.and_eq_true, Bool.or_eq_true]
      exact ⟨h.isMatch hp.1 hq.1, ih (Nat.succ.inj hLength) hp.2 hq.2⟩

theorem Ambiguity.Apart.not_shadows {checked : List (Nat × List Path)} (h : Apart v checked)
    (hNested : v.IsNested) {m n : Nat} {ps qs : List Path} (hm : (m, ps) ∈ checked)
    (hn : (n, qs) ∈ checked) (hLt : m < n) {p q : Path} (hp : p ∈ ps) (hq : q ∈ qs) :
    ¬ Shadows v p q := by
  rintro ⟨hSome, hLe, kinds, -, hMatch, hMatch'⟩
  have hLength : p.length = (q.take p.length).length := by
    rw [List.length_take, Nat.min_eq_left hLe]
  have hOverlap := pathsOverlap_of_matchesPath hNested hLength hMatch hMatch'
  rcases Nat.eq_or_lt_of_le hLe with hSame | hShorter
  · have hApart := h.unshared m ps hm n qs hn (Nat.ne_of_gt hLt) p hp hSome q hq
    rw [hSame, List.take_length, pathsOverlap_comm, hApart] at hOverlap
    cases hOverlap
  · rw [h.unshadowed m ps hm n qs hn hLt p hp hSome q hq hShorter] at hOverlap
    cases hOverlap

/-- In a strict grammar over nested categories no branch shadows a later one. -/
theorem compile_unshadowed (hCompile : Grammar.compile v bodies config = .ok g)
    (hStrict : config.strict = true) (hNested : v.IsNested) : g.IsUnshadowed := by
  obtain ⟨hCompiled, hVocabulary, hConfig⟩ := Grammar.compile_ok hCompile
  intro id r hr branches occurrence hNode
  obtain ⟨paths, hPaths, hDecision⟩ := hCompiled.exists_paths hr hNode
  refine ⟨_, hDecision, ?_, ?_⟩
  · exact (Lookahead.length_paths? hPaths).trans (List.length_map _)
  · intro i j a b ha hb hLt hChecked hChecked' ps qs hps hqs p hp q hq
    have hNone := Ambiguity.errors_eq_nil.mp (hCompiled.unambiguous (hConfig ▸ hStrict)) id r hr
      branches occurrence hNode
    have hApart := ((Ambiguity.alternationErrors_eq_nil hDecision).mp hNone).2
    exact hApart.not_shadows (hVocabulary ▸ hNested)
      (Ambiguity.mem_checkedPaths.mpr ⟨i, a, rfl, ha, hps, hChecked⟩)
      (Ambiguity.mem_checkedPaths.mpr ⟨j, b, rfl, hb, hqs, hChecked'⟩)
      (Nat.succ_lt_succ hLt) hp hq

namespace Nested

def types : List TokenType :=
  [.category "Value", (TokenType.literal "Word" "w").inCategory 1,
    (TokenType.literal "Number" "n").inCategory 1, .literal "Comma" ","]

def rules : List (RuleBody Unit) :=
  [⟨"start", [.choice 0 [.plain [.token 2, .token 4], .plain [.token 1]] fun _ a => a]⟩]

end Nested

theorem compile_unshadowed_nested :
    ∃ g, Grammar.compile (.ofTypes Nested.types) Nested.rules {} = .ok g ∧ g.IsUnshadowed := by
  have hAccepted : (Grammar.compile (.ofTypes Nested.types) Nested.rules {}).toOption.any
      (fun _ => true) = true := by decide +kernel
  obtain ⟨g, hCompile, -⟩ := Grammar.exists_compiled hAccepted
  exact ⟨g, hCompile, compile_unshadowed hCompile rfl (by decide +kernel)⟩

namespace Crossing

/-- Tokens of one type that is in two categories. -/
def types : List TokenType :=
  [.category "A", .category "B", ((TokenType.literal "T" "t").inCategory 1).inCategory 2]

def rules : List (RuleBody Unit) :=
  [⟨"start", [.choice 0 [.plain [.token 1], .plain [.token 2]] fun _ a => a]⟩]

def branches : List (Alternative Production) :=
  [⟨[.terminal 1 0], false, false⟩, ⟨[.terminal 2 0], false, false⟩]

end Crossing

/-- A strict grammar in which the first branch shadows the second one: tokens of one type match
both, though neither of the two categories matches the other. -/
theorem compile_shadowed : ∃ g, Grammar.compile (.ofTypes Crossing.types) Crossing.rules {} = .ok g ∧
    g.config.strict = true ∧ ¬ g.IsUnshadowed := by
  have hAccepted : (Grammar.compile (.ofTypes Crossing.types) Crossing.rules {}).toOption.any
      (fun g => (g.analysis.decisionAt? ⟨0, .or, 0⟩).map (·.alternatives) == some [[[1]], [[2]]]) =
        true := by
    decide +kernel
  obtain ⟨g, hCompile, hPaths⟩ := Grammar.exists_compiled hAccepted
  obtain ⟨hCompiled, hVocabulary, hConfig⟩ := Grammar.compile_ok hCompile
  refine ⟨g, hCompile, by rw [hConfig], fun hUnshadowed => ?_⟩
  have hRule : g.rules[0]? = some ⟨"start", [.alternation Crossing.branches 0], []⟩ := by
    rw [hCompiled.rules]
    rfl
  obtain ⟨d, hDecision, -, hNone⟩ :=
    hUnshadowed 0 _ hRule Crossing.branches 0 List.mem_cons_self
  rw [hDecision] at hPaths
  have hAlternatives : d.alternatives = [[[1]], [[2]]] := Option.some.inj (beq_iff_eq.mp hPaths)
  rw [hAlternatives, hVocabulary] at hNone
  have hKind : (Vocabulary.ofTypes Crossing.types).isRegistered 3 = true := by decide
  refine hNone 0 1 _ _ rfl rfl Nat.zero_lt_one ⟨rfl, rfl⟩ ⟨rfl, rfl⟩ [[1]] [[2]] rfl rfl [1]
    List.mem_cons_self [2] List.mem_cons_self ?_
  exact ⟨List.cons_ne_nil _ _, Nat.le_refl _, fun _ => 3, fun _ => hKind, by decide, by decide⟩

end PredictiveParsing
