import PredictiveParsing.Proofs.Builtin.Expressions
import PredictiveParsing.Proofs.Grammar.Reads

/-!
# Derived expressions

What the rules of the calculator derive are the tokens of expressions, and so is what they parse
without an error. A derivation reads the token with which an atom begins before it comes to the
expressions within, so the induction is on the number of tokens that are read.
-/

namespace PredictiveParsing.Arithmetic

open Parse

/-- Tokens none of which has the type of a category for its own. -/
def IsPlain (xs : List Token) : Prop := ∀ t ∈ xs, t.kind ∉ categories

def IsExpression (xs : List Token) : Prop := ∃ e : Expression, e.tokens = xs

def IsProduct (xs : List Token) : Prop := ∃ p : Product, p.tokens = xs

def IsAtom (xs : List Token) : Prop := ∃ a : Atom, a.tokens = xs

variable {i : Input Calculation} {m n : Nat} {x : Token} {xs ys : List Token}

theorem isPlain_nil : IsPlain [] := List.forall_mem_nil _

theorem isPlain_append : IsPlain (xs ++ ys) ↔ IsPlain xs ∧ IsPlain ys := List.forall_mem_append

theorem isPlain_cons : IsPlain (x :: xs) ↔ x.kind ∉ categories ∧ IsPlain xs := List.forall_mem_cons

theorem isPlain_around {kind : TypeId} (t : TokenOf kind) (hKind : kind ∉ categories)
    (hxs : IsPlain xs) (hys : IsPlain ys) : IsPlain (xs ++ t.val :: ys) := by
  refine isPlain_append.mpr ⟨hxs, isPlain_cons.mpr ⟨?_, hys⟩⟩
  rwa [t.property]

mutual

theorem Expression.isPlain : (e : Expression) → IsPlain e.tokens
  | .product p => p.isPlain
  | .sum e operator p => isPlain_around operator (by decide) e.isPlain p.isPlain
  | .difference e operator p => isPlain_around operator (by decide) e.isPlain p.isPlain

theorem Product.isPlain : (p : Product) → IsPlain p.tokens
  | .atom a => a.isPlain
  | .times p operator a => isPlain_around operator (by decide) p.isPlain a.isPlain
  | .quotient p operator a => isPlain_around operator (by decide) p.isPlain a.isPlain

theorem Atom.isPlain : (a : Atom) → IsPlain a.tokens
  | .number t => isPlain_around t (by decide) isPlain_nil isPlain_nil
  | .parenthesis opening e closing => by
    have hOpened := isPlain_around opening (by decide) isPlain_nil e.isPlain
    exact isPlain_around closing (by decide) hOpened isPlain_nil
  | .power name opening base separator exponent closing => by
    have hOpened := isPlain_around opening (by decide) isPlain_nil base.isPlain
    have hNamed := isPlain_around name (by decide) isPlain_nil hOpened
    have hSeparated := isPlain_around separator (by decide) hNamed exponent.isPlain
    exact isPlain_around closing (by decide) hSeparated isPlain_nil

end

abbrev DerivedIn (i : Input Calculation) (n : Nat) (ps : List Production) (xs : List Token) :
    Prop := DerivesIn i.grammar.rules i.grammar.vocabulary n [.sequence ps] xs

/-- What a rule derives by reading so many times are the tokens of trees of a kind. -/
def Makes (i : Input Calculation) (rule : RuleId) (tree : List Token → Prop) (n : Nat) : Prop :=
  ∀ xs, IsPlain xs → DerivedIn i n (definitionOf i.grammar.rules rule) xs → tree xs

theorem DerivedIn.eq_nil (h : DerivedIn i n [] xs) : xs = [] := (DerivesIn.of_nil h).eq_nil

/-! ## Levels -/

section Levels

variable {l : Level} {operand tree : List Token → Prop}

def Level.repeated (l : Level) : List Production :=
  [.terminal l.operator 0, .nonTerminal l.operandName (some l.operand) 1]

theorem Level.of_repeated (hLevel : l.IsBuilt i) (hOperand : ∀ m ≤ n, Makes i l.operand operand m)
    (hPlain : IsPlain xs) (h : DerivedIn i n l.repeated xs) :
    0 < n ∧ ∃ x ys, xs = x :: ys ∧ x.kind ∈ l.signs ∧ operand ys := by
  have hEof : l.operator ≠ Vocabulary.eof := by
    intro hEof
    exact absurd (hEof ▸ hLevel.category) (by decide)
  obtain ⟨m, x, ys, rfl, rfl, hMatch, hBehind⟩ := h.of_terminal hEof
  obtain ⟨j, hLe, hDerived⟩ := hBehind.of_last_reference
  obtain ⟨hKind, hPlain⟩ := isPlain_cons.mp hPlain
  refine ⟨Nat.succ_pos _, x, ys, rfl, ?_, hOperand j (by omega) ys hPlain hDerived⟩
  have hBegins : x.kind ∈ l.begins := hLevel.isMatch.mp hMatch
  exact (List.mem_cons.mp hBegins).resolve_left fun hSame => hKind (hSame ▸ hLevel.category)

theorem Level.of_again (hLevel : l.IsBuilt i) (hOperand : ∀ m ≤ n, Makes i l.operand operand m)
    (hAgain : ∀ xs x ys, tree xs → x.kind ∈ l.signs → operand ys → tree (xs ++ x :: ys))
    (hLe : m ≤ n) (hFirst : tree xs) (hPlain : IsPlain ys)
    (h : DerivesIn i.grammar.rules i.grammar.vocabulary m
      [.again l.repeated none, .sequence []] ys) : tree (xs ++ ys) := by
  induction m using Nat.strong_induction_on generalizing xs ys with
  | _ m ih =>
    obtain ⟨c, hExpands, h⟩ := h.of_again
    cases hExpands with
    | stop =>
      obtain rfl : ys = [] := DerivedIn.eq_nil h
      rwa [List.append_nil]
    | another =>
      obtain ⟨j, k, ys, zs, rfl, rfl, hIteration, hLater⟩ := DerivesIn.of_append (c := [_]) h
      obtain ⟨hPlain, hPlainLater⟩ := isPlain_append.mp hPlain
      have hBelow : ∀ m ≤ j, Makes i l.operand operand m := fun m hm => hOperand m (by omega)
      obtain ⟨hReads, x, ys, rfl, hSign, hys⟩ := l.of_repeated hLevel hBelow hPlain hIteration
      rw [← List.append_assoc]
      exact ih k (by omega) (by omega) (hAgain xs x ys hFirst hSign hys) hPlainLater hLater

/-- A level makes trees if its operands do and a tree can be continued by one more operand. -/
theorem Level.IsBuilt.makes (hLevel : l.IsBuilt i) (hFaithful : i.grammar.IsFaithful)
    (hOperand : ∀ m ≤ n, Makes i l.operand operand m) (hFirst : ∀ xs, operand xs → tree xs)
    (hAgain : ∀ xs x ys, tree xs → x.kind ∈ l.signs → operand ys → tree (xs ++ x :: ys)) :
    Makes i l.rule tree n := by
  intro xs hPlain hDerived
  have hDefinition : definitionOf i.grammar.rules l.rule =
      [.nonTerminal l.operandName (some l.operand) 0, .repetition false none l.repeated 0] := by
    rw [hFaithful.definition, hLevel.body]
    simp [operands, hLevel.name, Level.repeated]
  rw [hDefinition] at hDerived
  obtain ⟨j, k, xs, ys, rfl, rfl, hOne, hMore⟩ := hDerived.of_reference
  obtain ⟨hPlainOne, hPlainMore⟩ := isPlain_append.mp hPlain
  have hTree := hFirst xs (hOperand j (by omega) xs hPlainOne hOne)
  exact l.of_again hLevel hOperand hAgain (by omega) hTree hPlainMore hMore.of_repetition

end Levels

/-! ## Atoms -/

def singles : List TypeId := [lparen, rparen, number, power, comma]

theorem kind_eq (h : IsCalculator i) {token kind : TypeId} (hToken : token ∈ singles)
    (hMatch : i.grammar.vocabulary.isMatch kind token = true) : kind = token := by
  have hMembers : ∀ token ∈ singles, (Vocabulary.ofTypes types).members token = [token] := by
    decide +kernel
  have hMem := h.isMatch_iff.mp hMatch
  rwa [hMembers token hToken, List.mem_singleton] at hMem

theorem IsCalculator.of_terminal (h : IsCalculator i) {token : TypeId} (hToken : token ∈ singles)
    {occurrence : Nat} {ps : List Production}
    (hDerived : DerivedIn i n (.terminal token occurrence :: ps) xs) :
    ∃ m ys, n = m + 1 ∧ ∃ t : TokenOf token, xs = t.val :: ys ∧ DerivedIn i m ps ys := by
  have hEof : ∀ token ∈ singles, token ≠ Vocabulary.eof := by decide
  obtain ⟨m, x, ys, rfl, rfl, hMatch, hRest⟩ := hDerived.of_terminal (hEof token hToken)
  exact ⟨m, ys, rfl, ⟨x, kind_eq h hToken hMatch⟩, rfl, hRest⟩

theorem IsCalculator.of_inner (h : IsCalculator i) (hInner : ∀ k ≤ n, Makes i 0 IsExpression k)
    {token : TypeId} (hToken : token ∈ singles) {name : String} {occurrence later : Nat}
    {ps : List Production} (hPlain : IsPlain xs)
    (hDerived : DerivedIn i n
      (.nonTerminal name (some 0) occurrence :: .terminal token later :: ps) xs) :
    ∃ (e : Expression) (t : TokenOf token) (m : Nat) (ys : List Token), m ≤ n ∧
      xs = e.tokens ++ t.val :: ys ∧ IsPlain ys ∧ DerivedIn i m ps ys := by
  obtain ⟨j, k, xs, ys, rfl, rfl, hOne, hBehind⟩ := hDerived.of_reference
  obtain ⟨hPlainOne, hPlainBehind⟩ := isPlain_append.mp hPlain
  obtain ⟨e, rfl⟩ := hInner j (by omega) xs hPlainOne hOne
  obtain ⟨m, zs, rfl, t, rfl, hRest⟩ := h.of_terminal hToken hBehind
  exact ⟨e, t, m, zs, by omega, rfl, (isPlain_cons.mp hPlainBehind).2, hRest⟩

theorem IsCalculator.of_call (h : IsCalculator i) {named : String × RuleId}
    (hNamed : named ∈ ruleIds) {tree : List Token → Prop}
    (hRule : ∀ m ≤ n, Makes i named.2 tree m) (hPlain : IsPlain xs)
    (hDerived : DerivedIn i n (i.grammar.shape [.subrule 0 named.1 none takeValue]) xs) :
    tree xs := by
  have hShape : i.grammar.shape [.subrule 0 named.1 none takeValue] =
      [.nonTerminal named.1 (some named.2) 0] := by
    simp [h.names named hNamed]
  rw [hShape] at hDerived
  obtain ⟨m, hLe, hCalled⟩ := hDerived.of_last_reference
  exact hRule m hLe xs hPlain hCalled

section Atoms

variable (h : IsCalculator i) (hFaithful : i.grammar.IsFaithful)

include h hFaithful

theorem makes_parenthesis (hInner : ∀ k < n, Makes i 0 IsExpression k) : Makes i 4 IsAtom n := by
  intro xs hPlain hDerived
  have hDefinition : definitionOf i.grammar.rules 4 =
      [.terminal lparen 0, .nonTerminal "expression" (some 0) 0, .terminal rparen 0] := by
    rw [hFaithful.definition, h.body]
    simp [rules, Op.token, h.names ("expression", 0) (by decide)]
  rw [hDefinition] at hDerived
  obtain ⟨m, xs, rfl, opening, rfl, hBehind⟩ := h.of_terminal (by decide) hDerived
  have hWithin : ∀ k ≤ m, Makes i 0 IsExpression k := fun k hk => hInner k (by omega)
  obtain ⟨e, closing, k, ys, -, rfl, -, hNothing⟩ :=
    h.of_inner hWithin (by decide) (isPlain_cons.mp hPlain).2 hBehind
  obtain rfl := DerivedIn.eq_nil hNothing
  exact ⟨.parenthesis opening e closing, rfl⟩

theorem makes_power (hInner : ∀ k < n, Makes i 0 IsExpression k) : Makes i 5 IsAtom n := by
  intro xs hPlain hDerived
  have hDefinition : definitionOf i.grammar.rules 5 =
      [.terminal power 0, .terminal lparen 0, .nonTerminal "expression" (some 0) 0,
        .terminal comma 0, .nonTerminal "expression" (some 0) 1, .terminal rparen 0] := by
    rw [hFaithful.definition, h.body]
    simp [rules, Op.token, h.names ("expression", 0) (by decide)]
  rw [hDefinition] at hDerived
  obtain ⟨m, xs, rfl, name, rfl, hOpening⟩ := h.of_terminal (by decide) hDerived
  obtain ⟨m, xs, rfl, opening, rfl, hBase⟩ := h.of_terminal (by decide) hOpening
  have hWithin : ∀ k ≤ m, Makes i 0 IsExpression k := fun k hk => hInner k (by omega)
  have hPlainBase := (isPlain_cons.mp (isPlain_cons.mp hPlain).2).2
  obtain ⟨base, separator, k, xs, hLe, rfl, hPlainExponent, hExponent⟩ :=
    h.of_inner hWithin (by decide) hPlainBase hBase
  have hWithin : ∀ j ≤ k, Makes i 0 IsExpression j := fun j hj => hWithin j (by omega)
  obtain ⟨exponent, closing, j, ys, -, rfl, -, hNothing⟩ :=
    h.of_inner hWithin (by decide) hPlainExponent hExponent
  obtain rfl := DerivedIn.eq_nil hNothing
  exact ⟨.power name opening base separator exponent closing, by simp [Atom.tokens]⟩

theorem makes_atom (hInner : ∀ k < n, Makes i 0 IsExpression k) : Makes i 3 IsAtom n := by
  intro xs hPlain hDerived
  have hDefinition : definitionOf i.grammar.rules 3 =
      [.alternation (i.grammar.shapeOfBranches atomBranches) 0] := by
    have hBody : i.grammar.body 3 = [.choice 0 atomBranches takeValue] := h.body 3
    rw [hFaithful.definition, hBody]
    simp
  rw [hDefinition] at hDerived
  obtain ⟨branch, hBranch, j, k, xs, ys, rfl, rfl, hDerived, hNothing⟩ := hDerived.of_alternation
  obtain rfl := DerivedIn.eq_nil hNothing
  rw [List.append_nil] at hPlain ⊢
  have hWithin : ∀ m ≤ j, ∀ k < m, Makes i 0 IsExpression k :=
    fun m hm k hk => hInner k (by omega)
  simp only [Grammar.shapeOfBranches, atomBranches, List.map_cons, List.map_nil, List.mem_cons,
    List.not_mem_nil, or_false] at hBranch
  rcases hBranch with rfl | rfl | rfl
  · have hNamed : ("parenthesisExpression", 4) ∈ ruleIds := by decide
    have hRule : ∀ m ≤ j, Makes i 4 IsAtom m :=
      fun m hm => makes_parenthesis h hFaithful (hWithin m hm)
    exact h.of_call hNamed hRule hPlain hDerived
  · have hShape : DerivedIn i j [.terminal number 0] xs := by
      simpa [Branch.plain] using hDerived
    obtain ⟨m, ys, rfl, t, rfl, hNothing⟩ := h.of_terminal (by decide) hShape
    obtain rfl := DerivedIn.eq_nil hNothing
    exact ⟨.number t, rfl⟩
  · have hNamed : ("powerFunction", 5) ∈ ruleIds := by decide
    have hRule : ∀ m ≤ j, Makes i 5 IsAtom m := fun m hm => makes_power h hFaithful (hWithin m hm)
    exact h.of_call hNamed hRule hPlain hDerived

/-! ## Sums and products -/

theorem makes_product (hInner : ∀ k < n, Makes i 0 IsExpression k) : Makes i 2 IsProduct n := by
  have hOperand : ∀ m ≤ n, Makes i 3 IsAtom m := fun m hm =>
    makes_atom h hFaithful fun k hk => hInner k (by omega)
  refine h.products.makes hFaithful hOperand ?_ ?_
  · rintro _ ⟨a, rfl⟩
    exact ⟨.atom a, rfl⟩
  · rintro _ x _ ⟨p, rfl⟩ hSign ⟨a, rfl⟩
    simp only [Level.products, List.mem_cons, List.not_mem_nil, or_false] at hSign
    rcases hSign with hKind | hKind
    · exact ⟨.times p ⟨x, hKind⟩ a, rfl⟩
    · exact ⟨.quotient p ⟨x, hKind⟩ a, rfl⟩

theorem makes_sum (hInner : ∀ k < n, Makes i 0 IsExpression k) : Makes i 1 IsExpression n := by
  have hOperand : ∀ m ≤ n, Makes i 2 IsProduct m := fun m hm =>
    makes_product h hFaithful fun k hk => hInner k (by omega)
  refine h.sums.makes hFaithful hOperand ?_ ?_
  · rintro _ ⟨p, rfl⟩
    exact ⟨.product p, rfl⟩
  · rintro _ x _ ⟨e, rfl⟩ hSign ⟨p, rfl⟩
    simp only [Level.sums, List.mem_cons, List.not_mem_nil, or_false] at hSign
    rcases hSign with hKind | hKind
    · exact ⟨.sum e ⟨x, hKind⟩ p, rfl⟩
    · exact ⟨.difference e ⟨x, hKind⟩ p, rfl⟩

theorem makes_expression (n : Nat) : Makes i 0 IsExpression n := by
  induction n using Nat.strong_induction_on with
  | _ n ih =>
    intro xs hPlain hDerived
    rw [hFaithful.definition, h.body] at hDerived
    have hNamed : ("additionExpression", 1) ∈ ruleIds := by decide
    have hRule : ∀ m ≤ n, Makes i 1 IsExpression m := fun m hm =>
      makes_sum h hFaithful fun k hk => ih k (by omega)
    exact h.of_call hNamed hRule hPlain hDerived

end Atoms

/-! ## Parses -/

theorem isFaithful : ∀ r ∈ rules, r.IsFaithful := by
  intro r hr
  simp only [rules, List.mem_cons, List.not_mem_nil, or_false] at hr
  rcases hr with rfl | rfl | rfl | rfl | rfl | rfl
  · exact ⟨rfl, rfl⟩
  · exact ⟨rfl, rfl⟩
  · exact ⟨rfl, rfl⟩
  · exact ⟨rfl, rfl⟩
  · exact ⟨rfl, rfl⟩
  · exact ⟨rfl, rfl⟩

def hasTables (g : Grammar Calculation) : Bool :=
  let i : Input Calculation := ⟨g, #[]⟩
  ruleIds.all (fun named => g.ruleNamed? named.1 == some named.2) &&
    Level.all.all (fun l =>
      (i.decisionAt? ⟨l.rule, .many, 0⟩).bind (·.table) == some l.table) &&
    (i.decisionAt? ⟨3, .or, 0⟩).bind (·.table) == some atomTable

theorem IsCalculator.of_compile {g : Grammar Calculation}
    (hCompile : Grammar.compile (.ofTypes types) rules {} = .ok g) (hTables : hasTables g = true)
    (tokens : Array Token) : IsCalculator ⟨g, tokens⟩ := by
  obtain ⟨hCompiled, hVocabulary, hConfig⟩ := Grammar.compile_ok hCompile
  simp only [hasTables, Bool.and_eq_true, List.all_eq_true, beq_iff_eq] at hTables
  obtain ⟨⟨hNames, hLevels⟩, hAtoms⟩ := hTables
  exact ⟨hVocabulary, hCompiled.bodies, congrArg ParserConfig.recovery hConfig, hNames, hLevels,
    hAtoms⟩

/-- The rules compile. Every expression is parsed from its tokens without an error, to its value by
its tree; and what is parsed without an error, and has neither a category nor the end of the input
for a token, are the tokens of an expression. -/
theorem parse_calculates : ∃ g, Grammar.compile (.ofTypes types) rules {} = .ok g ∧
    (∀ e : Expression, ∃ n output, output.errors = [] ∧ output.value.value = e.eval ∧
      ∀ fuel ≥ n, g.parseWithin fuel "expression" e.tokens = .parsed output) ∧
    ∀ tokens fuel output, (∀ t ∈ tokens, t.kind ∉ Vocabulary.eof :: categories) →
      g.parseWithin fuel "expression" tokens = .parsed output → output.errors = [] →
        ∃ e : Expression, e.tokens = tokens := by
  obtain ⟨g, hCompile, hTables⟩ := Grammar.exists_compiled (p := hasTables)
    (show (Grammar.compile (.ofTypes types) rules {}).toOption.any hasTables = true by
      decide +kernel)
  have hStart : g.ruleNamed? "expression" = some 0 :=
    (IsCalculator.of_compile hCompile hTables #[]).names ("expression", 0) (by decide)
  refine ⟨g, hCompile, fun e => ?_, fun tokens fuel output hTokens hParse hErrors => ?_⟩
  · obtain ⟨n, output, hErrors, hValue, hParsed⟩ :=
      e.parsed (IsCalculator.of_compile hCompile hTables e.tokens.toArray) rfl
    refine ⟨n, output, hErrors, hValue, fun fuel hLe => ?_⟩
    rw [Grammar.parseWithin, hStart]
    exact hParsed fuel hLe
  · have hEof : ∀ t ∈ tokens, t.kind ≠ Vocabulary.eof :=
      fun t ht hKind => hTokens t ht (hKind ▸ List.mem_cons_self)
    have hPlain : IsPlain tokens :=
      fun t ht hCategory => hTokens t ht (List.mem_cons_of_mem _ hCategory)
    have h := IsCalculator.of_compile hCompile hTables tokens.toArray
    have hRegular : (⟨g, tokens.toArray⟩ : Input Calculation).IsRegular :=
      .of_compile hCompile isFaithful hEof
    rw [Grammar.parseWithin, hStart] at hParse
    obtain ⟨n, hDerived⟩ := (hRegular.derives_of_parsed hParse hErrors).reads
    exact makes_expression h hRegular.faithful n tokens hPlain hDerived

def categorized : List Token :=
  [⟨number, "1", ⟨0, 1⟩, none, none, false⟩, ⟨additive, "+", ⟨1, 2⟩, none, none, false⟩,
    ⟨number, "2", ⟨2, 3⟩, none, none, false⟩]

def takesCategorized (g : Grammar Calculation) : Bool :=
  match g.parseWithin 100 "expression" categorized with
  | .parsed output => output.errors.isEmpty
  | _ => false

/-- A category is read where one of its operators is expected. -/
theorem parse_reads_categories : ∃ g output,
    Grammar.compile (.ofTypes types) rules {} = .ok g ∧
      (∀ t ∈ categorized, t.kind ≠ Vocabulary.eof) ∧
      g.parseWithin 100 "expression" categorized = .parsed output ∧ output.errors = [] ∧
      ∀ e : Expression, e.tokens ≠ categorized := by
  obtain ⟨g, hCompile, hChecked⟩ := Grammar.exists_compiled (p := takesCategorized)
    (show (Grammar.compile (.ofTypes types) rules {}).toOption.any takesCategorized = true by
      decide +kernel)
  unfold takesCategorized at hChecked
  split at hChecked
  · next output hParse =>
    refine ⟨g, output, hCompile, by decide, hParse, List.isEmpty_iff.mp hChecked, fun e hSame => ?_⟩
    have hCategory : ¬ IsPlain categorized := by
      intro hPlain
      exact hPlain ⟨additive, "+", ⟨1, 2⟩, none, none, false⟩ (by decide) (by decide)
    exact hCategory (hSame ▸ e.isPlain)
  · cases hChecked

end PredictiveParsing.Arithmetic
