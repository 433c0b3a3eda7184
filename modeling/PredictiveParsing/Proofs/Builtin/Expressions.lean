import PredictiveParsing.Builtin.Arithmetic
import PredictiveParsing.Proofs.Parse.Giving
import PredictiveParsing.Proofs.Parse.Soundness

/-!
# Expressions and their values

Expressions as trees whose leaves are tokens, and what the rules of the calculator make of their
tokens. The operands of a sum or a product are read one after the other, and the value so far is
carried along: the induction on a tree that leans to the left goes up to its last operand, and says
what holds wherever the repetition goes on from there.
-/

namespace PredictiveParsing.Arithmetic

/-! ## Trees -/

abbrev TokenOf (kind : TypeId) := { t : Token // t.kind = kind }

mutual

/-- A sum of products, built up from left to right. -/
inductive Expression where
  | product (p : Product)
  | sum (e : Expression) (operator : TokenOf plus) (p : Product)
  | difference (e : Expression) (operator : TokenOf minus) (p : Product)

/-- A product of atoms, built up from left to right. -/
inductive Product where
  | atom (a : Atom)
  | times (p : Product) (operator : TokenOf multi) (a : Atom)
  | quotient (p : Product) (operator : TokenOf div) (a : Atom)

inductive Atom where
  | number (t : TokenOf number)
  | parenthesis (opening : TokenOf lparen) (e : Expression) (closing : TokenOf rparen)
  | power (name : TokenOf power) (opening : TokenOf lparen) (base : Expression)
      (separator : TokenOf comma) (exponent : Expression) (closing : TokenOf rparen)

end

mutual

def Expression.tokens : Expression → List Token
  | .product p => p.tokens
  | .sum e operator p => e.tokens ++ operator.val :: p.tokens
  | .difference e operator p => e.tokens ++ operator.val :: p.tokens

def Product.tokens : Product → List Token
  | .atom a => a.tokens
  | .times p operator a => p.tokens ++ operator.val :: a.tokens
  | .quotient p operator a => p.tokens ++ operator.val :: a.tokens

def Atom.tokens : Atom → List Token
  | .number t => [t.val]
  | .parenthesis opening e closing => opening.val :: e.tokens ++ [closing.val]
  | .power name opening base separator exponent closing =>
    name.val :: opening.val :: base.tokens ++ separator.val :: exponent.tokens ++ [closing.val]

end

mutual

def Expression.eval : Expression → Float
  | .product p => p.eval
  | .sum e _ p => e.eval + p.eval
  | .difference e _ p => e.eval - p.eval

def Product.eval : Product → Float
  | .atom a => a.eval
  | .times p _ a => p.eval * a.eval
  | .quotient p _ a => p.eval / a.eval

def Atom.eval : Atom → Float
  | .number t => numberValue t.val.image
  | .parenthesis _ e _ => e.eval
  | .power _ _ base _ exponent _ => Float.pow base.eval exponent.eval

end

/-! ## The compiled rules -/

def categories : List TypeId := [additive, multiplicative]

/-- A level of operators: sums of products, or products of atoms. -/
structure Level where
  rule : RuleId
  operand : RuleId
  operandName : String
  /-- The category of the operators. -/
  operator : TypeId
  signs : List TypeId
  apply : Calculation → Calculation → Calculation

namespace Level

def sums : Level := ⟨1, 2, "multiplicationExpression", additive, [plus, minus], addOperand⟩

def products : Level := ⟨2, 3, "atomicExpression", multiplicative, [multi, div], multiplyOperand⟩

def all : List Level := [sums, products]

def iteration (l : Level) : List (Op Calculation) :=
  [.consume 0 l.operator none takeOperator, .subrule 1 l.operandName none l.apply]

def loop (l : Level) : Parse.Input.Loop Calculation :=
  ⟨⟨l.rule, .many, 0⟩, false, none, l.iteration⟩

def begins (l : Level) : List TypeId := l.operator :: l.signs

def table (l : Level) : List (Option Nat) :=
  (List.range 13).map fun kind => if kind ∈ l.begins then some 0 else none

end Level

def atomTable : List (Option Nat) :=
  (List.range 13).map fun kind => [lparen, number, power].idxOf? kind

def ruleIds : List (String × RuleId) := (rules.map (·.name)).zipIdx

open Parse

/-- The compiled rules, run without recovery. -/
structure IsCalculator (i : Input Calculation) : Prop where
  vocabulary : i.grammar.vocabulary = .ofTypes types
  bodies : i.grammar.bodies = rules.map (·.body)
  unaided : i.grammar.config.recovery = false
  names : ∀ named ∈ ruleIds, i.grammar.ruleNamed? named.1 = some named.2
  levels : ∀ l ∈ Level.all,
    (i.decisionAt? ⟨l.rule, .many, 0⟩).bind (·.table) = some l.table
  atoms : (i.decisionAt? ⟨3, .or, 0⟩).bind (·.table) = some atomTable

variable {α : Type} {i : Input α} {s t : State} {x y z : Float} {xs ys rest : List Token}

theorem choose_of_table {decision : Option Decision} {table : List (Option Nat)}
    (h : decision.bind (·.table) = some table) (v : Vocabulary) (kinds : Nat → TypeId) :
    decision.bind (fun d => d.choose v kinds none) = (table[kinds 0]?).join := by
  obtain ⟨d, rfl, hTable⟩ := Option.bind_eq_some_iff.mp h
  simp only [Option.bind_some, Decision.choose, hTable]

theorem enters_of_table {decision : Option Decision} {table : List (Option Nat)}
    (h : decision.bind (·.table) = some table) (s : State) :
    i.enters s decision = ((table[i.kindAt s.position]?).join).isSome := by
  have hPick := choose_of_table h i.grammar.vocabulary (i.coming s)
  obtain ⟨d, rfl, -⟩ := Option.bind_eq_some_iff.mp h
  exact congrArg Option.isSome hPick

theorem branchAt?_of_table {occurrence index : Nat} {branches : List (Branch (Op α))}
    {branch : Branch (Op α)} {table : List (Option Nat)}
    (h : (i.decisionAt? (s.key .or occurrence)).bind (·.table) = some table)
    (hGates : branches.any (·.gate.isSome) = false)
    (hPick : (table[i.kindAt s.position]?).join = some index)
    (hBranch : branches[index]? = some branch) (mask : List Bool) :
    i.branchAt? s occurrence branches mask = some branch := by
  have hChoose := (choose_of_table h i.grammar.vocabulary (i.coming s)).trans hPick
  have hLt : decide (index < branches.length) = true :=
    decide_eq_true (List.getElem?_eq_some_iff.mp hBranch).1
  rw [Input.branchAt?, hGates, if_neg Bool.false_ne_true, Input.chooseBranch, hChoose,
    Option.filter_some, if_pos hLt, Option.bind_some, hBranch]

theorem join_table (pick : TypeId → Option Nat) {kind : TypeId} (h : kind < 13) :
    (((List.range 13).map pick)[kind]?).join = pick kind := by
  rw [List.getElem?_map, List.getElem?_range h, Option.map_some, Option.join_some]

theorem Level.isSome_table {l : Level} (h : ∀ kind ∈ l.begins, kind < 13) (kind : TypeId) :
    ((l.table[kind]?).join).isSome = decide (kind ∈ l.begins) := by
  by_cases hIn : kind < 13
  · rw [Level.table, join_table _ hIn]
    split
    · next hMem => exact (decide_eq_true hMem).symm
    · next hMem => exact (decide_eq_false hMem).symm
  · have hNone : l.table[kind]? = none := by
      rw [Level.table, List.getElem?_map, List.getElem?_eq_none (by simpa using hIn),
        Option.map_none]
    rw [hNone, decide_eq_false fun hMem => hIn (h kind hMem)]
    rfl

namespace IsCalculator

variable {i : Input Calculation} (h : IsCalculator i)

include h

theorem recoveryEnabled (s : State) : i.recoveryEnabled s = false := by
  rw [Input.recoveryEnabled, h.unaided, Bool.false_and]

theorem body (id : RuleId) : i.grammar.body id = (rules.map (·.body)).getD id [] := by
  rw [Grammar.body, h.bodies]

theorem isMatch_iff {kind token : TypeId} :
    i.isMatch kind token = true ↔ kind ∈ (Vocabulary.ofTypes types).members token := by
  rw [Input.isMatch, h.vocabulary, Vocabulary.mem_members]

end IsCalculator

structure Level.IsBuilt (l : Level) (i : Input Calculation) : Prop where
  name : i.grammar.ruleNamed? l.operandName = some l.operand
  body : i.grammar.body l.rule = operands l.operandName l.operator l.apply
  enters : ∀ s, i.enters s (i.decisionAt? ⟨l.rule, .many, 0⟩) =
    decide (i.kindAt s.position ∈ l.begins)
  isMatch : ∀ {kind}, i.isMatch kind l.operator = true ↔ kind ∈ l.begins
  category : l.operator ∈ categories
  /-- The end of the input is no operator. -/
  signs : Vocabulary.eof ∉ l.signs

theorem Level.isBuilt_of_mem {i : Input Calculation} (h : IsCalculator i) {l : Level}
    (hl : l ∈ Level.all) : l.IsBuilt i := by
  have hNames : ∀ l ∈ Level.all, (l.operandName, l.operand) ∈ ruleIds := by decide
  have hKinds : ∀ l ∈ Level.all, ∀ kind ∈ l.begins, kind < 13 := by decide
  have hMembers : ∀ l ∈ Level.all, (Vocabulary.ofTypes types).members l.operator = l.begins := by
    decide +kernel
  have hCategory : ∀ l ∈ Level.all, l.operator ∈ categories := by decide
  have hSigns : ∀ l ∈ Level.all, Vocabulary.eof ∉ l.signs := by decide
  refine ⟨h.names _ (hNames l hl), ?_, fun s => ?_, ?_, hCategory l hl, hSigns l hl⟩
  · simp only [Level.all, List.mem_cons, List.not_mem_nil, or_false] at hl
    rcases hl with rfl | rfl
    · exact h.body 1
    · exact h.body 2
  · exact (enters_of_table (h.levels l hl) s).trans (Level.isSome_table (hKinds l hl) _)
  · intro kind
    rw [h.isMatch_iff, hMembers l hl]

theorem IsCalculator.sums {i : Input Calculation} (h : IsCalculator i) : Level.sums.IsBuilt i :=
  Level.isBuilt_of_mem h (by simp [Level.all])

theorem IsCalculator.products {i : Input Calculation} (h : IsCalculator i) :
    Level.products.IsBuilt i := Level.isBuilt_of_mem h (by simp [Level.all])

/-! ## Runs of the rules -/

variable {i : Input Calculation}

/-- A rule that is called in front of some tokens reads them and comes to a value, unless a token
behind them goes on with what they are. -/
def ReadsAs (i : Input Calculation) (rule : RuleId) (goesOn : List TypeId) (xs : List Token)
    (x : Float) : Prop :=
  ∀ (s : State) (rest : List Token) (occurrence : Nat), i.rest s = xs ++ rest →
    headKind rest ∉ goesOn →
      Gives (fun fuel => i.invoke fuel rule occurrence none s)
        fun c t => c.value = x ∧ Advances i s rest t

/-- The body of a level reads some tokens up to an operand, and comes to a value there: it gives
what the repetition gives that goes on from there. -/
def LeadsTo (i : Input Calculation) (l : Level) (goesOn : List TypeId) (xs : List Token)
    (x : Float) : Prop :=
  ∀ (s : State) (rest : List Token) (post : Calculation → State → Prop),
    s.currentRule = l.rule → i.rest s = xs ++ rest → headKind rest ∉ goesOn →
      (∀ c t, c.value = x → Advances i s rest t →
        Gives (fun fuel => i.runLoop fuel l.loop false c t) post) →
      Gives (fun fuel => i.runBody fuel (operands l.operandName l.operator l.apply) default s) post

section Levels

variable {l : Level} {goesOn : List TypeId}

theorem LeadsTo.first (h : IsCalculator i) (hLevel : l.IsBuilt i)
    (hOperand : ReadsAs i l.operand goesOn xs x) : LeadsTo i l goesOn xs x := by
  intro s rest post hs hAhead hRest hThen
  have hFirst : Gives
      (fun fuel => i.runOp fuel (.subrule 0 l.operandName none takeValue) default s)
      fun c t => c.value = x ∧ Advances i s rest t :=
    .subrule hLevel.name (hOperand s rest 0 hAhead hRest)
  refine .body_cons hFirst fun c t ⟨hc, ht⟩ => .body_last (.repetition ?_)
  have hKey : t.key (.ofRepetition false none) 0 = ⟨l.rule, .many, 0⟩ := by
    rw [State.key, ht.frame.currentRule, hs]
    rfl
  rw [hKey]
  exact .loop_first rfl rfl (h.recoveryEnabled t) (hThen c t hc ht)

theorem LeadsTo.again (hLevel : l.IsBuilt i) (hFirst : LeadsTo i l goesOn xs x) {kind : TypeId}
    (operator : TokenOf kind) (hSign : kind ∈ l.signs) (hApart : kind ∉ goesOn)
    (hOperand : ReadsAs i l.operand goesOn ys y)
    (hApply : ∀ c d, c.value = x → c.operator = kind → d.value = y → (l.apply d c).value = z) :
    LeadsTo i l goesOn (xs ++ operator.val :: ys) z := by
  obtain ⟨operator, rfl⟩ := operator
  intro s rest post hs hAhead hRest hThen
  rw [List.append_assoc] at hAhead
  refine hFirst s _ post hs hAhead hApart fun c t hc ht => ?_
  have hBegins : operator.kind ∈ l.begins := List.mem_cons_of_mem _ hSign
  have hEof : operator.kind ≠ Vocabulary.eof := fun hEof => hLevel.signs (hEof ▸ hSign)
  have hEnters : i.enters t (i.decisionAt? l.loop.key) = true := by
    refine (hLevel.enters t).trans (decide_eq_true ?_)
    rw [← headKind_rest, ht.ahead]
    exact hBegins
  have hIteration : Gives (fun fuel => i.runBody fuel l.iteration c t)
      fun d u => d.value = z ∧ Advances i t rest u := by
    refine .body_cons (gives_consume ht.ahead (hLevel.isMatch.mpr hBegins) hEof 0 none _) ?_
    rintro _ u ⟨rfl, hu⟩
    refine .body_last (.subrule hLevel.name ((hOperand u rest 1 hu.ahead hRest).mono ?_))
    exact fun d w ⟨hd, hw⟩ => ⟨hApply _ d hc rfl hd, hu.trans hw⟩
  refine .loop_again rfl hEnters (.iteration hIteration ?_ ?_)
  · exact fun d u ⟨_, hu⟩ => hu.position_ne ht.ahead
  · exact fun d u ⟨hd, hu⟩ => hThen d u hd (ht.trans hu)

theorem LeadsTo.close (h : IsCalculator i) (hLevel : l.IsBuilt i) (hAll : LeadsTo i l goesOn xs x) :
    ReadsAs i l.rule (l.begins ++ goesOn) xs x := by
  intro s rest occurrence hAhead hRest
  rw [List.mem_append, not_or] at hRest
  refine gives_invoke occurrence none ?_
  rw [hLevel.body]
  refine hAll _ rest _ rfl hAhead hRest.2 fun c t hc ht => ?_
  have hLeft : i.enters t (i.decisionAt? l.loop.key) = false := by
    refine (hLevel.enters t).trans (decide_eq_false ?_)
    rw [← headKind_rest, ht.ahead]
    exact hRest.1
  exact .loop_left rfl hLeft (h.recoveryEnabled t) ⟨hc, ht⟩

end Levels

/-! ## Atoms -/

def atomBranches : List (Branch (Op Calculation)) :=
  [ .plain [.subrule 0 "parenthesisExpression" none takeValue],
    .plain [.consume 0 number none fun t c => { c with value := numberValue t.image }],
    .plain [.subrule 0 "powerFunction" none takeValue] ]

section Atoms

variable {kind : TypeId} {first : TokenOf kind}

theorem readsAs_atom (h : IsCalculator i) {index : Nat} {body : List (Op Calculation)}
    (hKind : kind < 13) (hPick : [lparen, number, power].idxOf? kind = some index)
    (hBranch : atomBranches[index]? = some (.plain body))
    (hBody : ∀ {s rest}, i.rest s = first.val :: xs ++ rest →
      Gives (fun fuel => i.runBody fuel body default s)
        fun c t => c.value = x ∧ Advances i s rest t) : ReadsAs i 3 [] (first.val :: xs) x := by
  obtain ⟨first, rfl⟩ := first
  intro s rest occurrence hAhead _
  have hNext : (i.enter s 3 occurrence).position = s.position := rfl
  have hPicked : (atomTable[i.kindAt (i.enter s 3 occurrence).position]?).join = some index := by
    rw [hNext, ← headKind_rest, hAhead]
    exact (join_table _ hKind).trans hPick
  refine gives_invoke occurrence none ?_
  rw [show i.grammar.body 3 = [.choice 0 atomBranches takeValue] from h.body 3]
  refine .body_last (.choice (by decide) (branchAt?_of_table h.atoms rfl hPicked hBranch) ?_)
  exact hBody ((rest_congr hNext).trans hAhead)

theorem ReadsAs.atom (h : IsCalculator i) (index : Nat) {named : String × RuleId}
    (hNamed : named ∈ ruleIds) (hKind : kind < 13)
    (hPick : [lparen, number, power].idxOf? kind = some index)
    (hBranch : atomBranches[index]? = some (.plain [.subrule 0 named.1 none takeValue]))
    (hRule : ReadsAs i named.2 [] (first.val :: xs) x) : ReadsAs i 3 [] (first.val :: xs) x := by
  refine readsAs_atom h hKind hPick hBranch fun hAhead => ?_
  exact .body_last (.subrule (h.names named hNamed) (hRule _ _ 0 hAhead (List.not_mem_nil)))

end Atoms

theorem readsAs_number (h : IsCalculator i) (t : TokenOf number) :
    ReadsAs i 3 [] [t.val] (numberValue t.val.image) := by
  refine readsAs_atom h (by decide) rfl rfl fun hAhead => .body_last ?_
  have hMatch : i.isMatch t.val.kind number = true := by
    rw [t.property]
    exact Vocabulary.isMatch_self
  have hEof : t.val.kind ≠ Vocabulary.eof := by
    rw [t.property]
    decide
  refine (gives_consume hAhead hMatch hEof 0 none _).mono ?_
  rintro _ u ⟨rfl, hu⟩
  exact ⟨rfl, hu⟩

theorem gives_token {kind : TypeId} {c : Calculation} (t : TokenOf kind)
    (hEof : kind ≠ Vocabulary.eof) (hAhead : i.rest s = t.val :: rest) :
    Gives (fun fuel => i.runOp fuel (.token kind) c s) fun d u => d = c ∧ Advances i s rest u := by
  obtain ⟨t, rfl⟩ := t
  exact gives_consume hAhead Vocabulary.isMatch_self hEof 0 none _

def operators : List TypeId := Level.sums.begins ++ Level.products.begins

theorem readsAs_expression (h : IsCalculator i) {goesOn : List TypeId}
    (hSum : ReadsAs i 1 goesOn xs x) : ReadsAs i 0 goesOn xs x := by
  intro s rest occurrence hAhead hRest
  refine gives_invoke occurrence none ?_
  rw [h.body]
  exact .body_last (.subrule (h.names (_, 1) (by decide)) (hSum _ rest 0 hAhead hRest))

theorem gives_inner (h : IsCalculator i) (hInner : ReadsAs i 0 operators xs x) {kind : TypeId}
    (closing : TokenOf kind) (hKind : kind ∉ operators) (hEof : kind ≠ Vocabulary.eof)
    (hAhead : i.rest s = xs ++ closing.val :: rest) {occurrence : Nat}
    {act : Calculation → Calculation → Calculation} {c : Calculation} {ops : List (Op Calculation)}
    {post : Calculation → State → Prop}
    (hThen : ∀ d t, d.value = x → Advances i s rest t →
      Gives (fun fuel => i.runBody fuel ops (act d c) t) post) :
    Gives (fun fuel => i.runBody fuel
      (.subrule occurrence "expression" none act :: .token kind :: ops) c s) post := by
  have hBehind : headKind (closing.val :: rest) ∉ operators := by
    rwa [headKind, List.head?_cons, Option.map_some, Option.getD_some, closing.property]
  have hExpression : Gives
      (fun fuel => i.runOp fuel (.subrule occurrence "expression" none act) c s)
      fun c' t => ∃ d, c' = act d c ∧ d.value = x ∧ Advances i s (closing.val :: rest) t :=
    .subrule (h.names (_, 0) (by decide))
      ((hInner s _ occurrence hAhead hBehind).mono fun d t hd => ⟨d, rfl, hd⟩)
  refine .body_cons hExpression ?_
  rintro _ t ⟨d, rfl, hd, ht⟩
  refine .body_cons (gives_token closing hEof ht.ahead) ?_
  rintro _ u ⟨rfl, hu⟩
  exact hThen d u hd (ht.trans hu)

theorem readsAs_parenthesis (h : IsCalculator i) (opening : TokenOf lparen)
    (closing : TokenOf rparen) (hInner : ReadsAs i 0 operators xs x) :
    ReadsAs i 4 [] (opening.val :: xs ++ [closing.val]) x := by
  intro s rest occurrence hAhead _
  refine gives_invoke occurrence none ?_
  rw [h.body]
  have hAhead : i.rest (i.enter s 4 occurrence) = opening.val :: (xs ++ closing.val :: rest) :=
    (rest_congr rfl).trans (hAhead.trans (by simp))
  refine .body_cons (gives_token opening (by decide) hAhead) ?_
  rintro _ t ⟨rfl, ht⟩
  refine gives_inner h hInner closing (by decide) (by decide) ht.ahead fun d u hd hu => ?_
  exact .body_nil ⟨hd, ht.trans hu⟩

theorem readsAs_power (h : IsCalculator i) (name : TokenOf power) (opening : TokenOf lparen)
    (separator : TokenOf comma) (closing : TokenOf rparen) (hBase : ReadsAs i 0 operators xs x)
    (hExponent : ReadsAs i 0 operators ys y) :
    ReadsAs i 5 [] (name.val :: opening.val :: xs ++ separator.val :: ys ++ [closing.val])
      (Float.pow x y) := by
  intro s rest occurrence hAhead _
  refine gives_invoke occurrence none ?_
  rw [h.body]
  have hAhead : i.rest (i.enter s 5 occurrence) =
      name.val :: opening.val :: (xs ++ separator.val :: (ys ++ closing.val :: rest)) :=
    (rest_congr rfl).trans (hAhead.trans (by simp))
  refine .body_cons (gives_token name (by decide) hAhead) ?_
  rintro _ t ⟨rfl, ht⟩
  refine .body_cons (gives_token opening (by decide) ht.ahead) ?_
  rintro _ u ⟨rfl, hu⟩
  refine gives_inner h hBase separator (by decide) (by decide) hu.ahead fun c v hc hv => ?_
  refine gives_inner h hExponent closing (by decide) (by decide) hv.ahead fun d w hd hw => ?_
  refine .body_nil ⟨?_, ((ht.trans hu).trans hv).trans hw⟩
  rw [← hc, ← hd]

/-! ## Trees along runs -/

section Trees

variable (h : IsCalculator i)

include h

theorem readsAs_of_sum (hSum : LeadsTo i .sums Level.products.begins xs x) :
    ReadsAs i 0 operators xs x :=
  readsAs_expression h (hSum.close h h.sums)

theorem readsAs_of_product (hProduct : LeadsTo i .products [] xs x) :
    ReadsAs i 2 Level.products.begins xs x :=
  hProduct.close h h.products

mutual

theorem Expression.leadsTo :
    (e : Expression) → LeadsTo i .sums Level.products.begins e.tokens e.eval
  | .product p => .first h h.sums (readsAs_of_product h p.leadsTo)
  | .sum e operator p => by
    refine e.leadsTo.again h.sums operator (by decide) (by decide)
      (readsAs_of_product h p.leadsTo) ?_
    intro c d hc hOperator hd
    simp only [Level.sums, addOperand, hOperator, hc, hd, if_true, Expression.eval]
  | .difference e operator p => by
    refine e.leadsTo.again h.sums operator (by decide) (by decide)
      (readsAs_of_product h p.leadsTo) ?_
    intro c d hc hOperator hd
    have hNot : minus ≠ plus := by decide
    simp only [Level.sums, addOperand, hOperator, hc, hd, if_neg hNot, Expression.eval]

theorem Product.leadsTo : (p : Product) → LeadsTo i .products [] p.tokens p.eval
  | .atom a => .first h h.products a.readsAs
  | .times p operator a => by
    refine p.leadsTo.again h.products operator (by decide) List.not_mem_nil a.readsAs ?_
    intro c d hc hOperator hd
    simp only [Level.products, multiplyOperand, hOperator, hc, hd, if_true, Product.eval]
  | .quotient p operator a => by
    refine p.leadsTo.again h.products operator (by decide) List.not_mem_nil a.readsAs ?_
    intro c d hc hOperator hd
    have hNot : div ≠ multi := by decide
    simp only [Level.products, multiplyOperand, hOperator, hc, hd, if_neg hNot, Product.eval]

theorem Atom.readsAs : (a : Atom) → ReadsAs i 3 [] a.tokens a.eval
  | .number t => readsAs_number h t
  | .parenthesis opening e closing => by
    have hNamed : ("parenthesisExpression", 4) ∈ ruleIds := by decide
    refine .atom h 0 hNamed (by decide) rfl rfl ?_
    exact readsAs_parenthesis h opening closing (readsAs_of_sum h e.leadsTo)
  | .power name opening base separator exponent closing => by
    have hNamed : ("powerFunction", 5) ∈ ruleIds := by decide
    refine .atom h 2 hNamed (by decide) rfl rfl ?_
    exact readsAs_power h name opening separator closing (readsAs_of_sum h base.leadsTo)
      (readsAs_of_sum h exponent.leadsTo)

end

theorem Expression.parsed (e : Expression) (hTokens : i.tokens.toList = e.tokens) :
    ∃ n output, output.errors = [] ∧ output.value.value = e.eval ∧
      ∀ fuel ≥ n, i.parseFrom fuel 0 = .parsed output := by
  have hStart : i.rest .initial = e.tokens ++ [] := hTokens.trans (List.append_nil _).symm
  have hEnd : headKind [] ∉ operators := by decide
  obtain ⟨n, c, t, hRun, hc, ht⟩ :=
    (readsAs_of_sum h (e.leadsTo h) .initial [] 0 hStart hEnd).exists_run
  have hAll : i.tokens.size ≤ t.position := by
    have hRest := ht.ahead
    rwa [Input.rest, List.drop_eq_nil_iff, Array.length_toList] at hRest
  refine ⟨n, i.finish c t, (Input.errors_finish c t).mpr ⟨ht.errors, .inr hAll⟩, hc, ?_⟩
  intro fuel hLe
  refine parseFrom_of_le hLe ?_
  rw [Input.parseFrom, hRun]

end Trees

end PredictiveParsing.Arithmetic
