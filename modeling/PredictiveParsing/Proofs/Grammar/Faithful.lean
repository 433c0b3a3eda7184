import Mathlib.Tactic.Common
import PredictiveParsing.Grammar.Compile

/-!
# Faithful rule bodies

A body can do other things while it is parsed than while it is recorded. It is faithful if it calls
the same operations both times and does not go on behind an interruption.
-/

namespace PredictiveParsing

variable {α : Type}

namespace Op

mutual

def performed : Op α → List Production
  | .consume occurrence token _ _ => [.terminal token occurrence]
  | .subrule occurrence rule _ _ => [.nonTerminal rule none occurrence]
  | .option occurrence body _ => [.option (performedBy body) occurrence]
  | .repetition mandatory separator occurrence body _ =>
    [.repetition mandatory separator (performedBy body) occurrence]
  | .choice occurrence branches _ => [.alternation (performedByBranches branches) occurrence]
  | .peek _ _ => []
  | .trial _ _ => []
  | .whenParsing body => performedBy body
  | .whenRecording _ => []
  | .attempt body _ => performedBy body

def performedBy : List (Op α) → List Production
  | [] => []
  | op :: ops => performed op ++ performedBy ops

def performedByBranches : List (Branch (Op α)) → List (Alternative Production)
  | [] => []
  | ⟨gate, body, ignore⟩ :: rest =>
    ⟨performedBy body, ignore, gate.isSome⟩ :: performedByBranches rest

end

mutual

/-- Whether an interruption of an operation always interrupts what is around it. -/
def propagates : Op α → Bool
  | .option _ body _ => propagatesAll body
  | .repetition _ _ _ body _ => propagatesAll body
  | .choice _ branches _ => propagatesBranches branches
  | .whenParsing body => propagatesAll body
  | .attempt _ _ => false
  | _ => true

def propagatesAll : List (Op α) → Bool
  | [] => true
  | op :: ops => propagates op && propagatesAll ops

def propagatesBranches : List (Branch (Op α)) → Bool
  | [] => true
  | ⟨_, body, _⟩ :: rest => propagatesAll body && propagatesBranches rest

end

theorem propagatesBranches_iff {branches : List (Branch (Op α))} :
    propagatesBranches branches = true ↔ ∀ branch ∈ branches, propagatesAll branch.body = true := by
  induction branches with
  | nil => simp [propagatesBranches]
  | cons branch rest ih => simp [propagatesBranches, ih]

end Op

/-- The same operations are called while recording and while parsing, and interruptions are passed
on. -/
structure RuleBody.IsFaithful (r : RuleBody α) : Prop where
  propagates : Op.propagatesAll r.body = true
  performed : Op.performedBy r.body = (Recording.ofBody r.body).definition

namespace Grammar

def shape (g : Grammar α) (ops : List (Op α)) : List Production :=
  Production.resolveAll g.ruleNamed? (Op.performedBy ops)

def shapeOf (g : Grammar α) (op : Op α) : List Production :=
  Production.resolveAll g.ruleNamed? op.performed

/-- Every rule is the shape of its body. -/
structure IsFaithful (g : Grammar α) : Prop where
  propagates : ∀ id, Op.propagatesAll (g.body id) = true
  definition : ∀ id, definitionOf g.rules id = g.shape (g.body id)

theorem resolveAll_append (find? : String → Option RuleId) (ps qs : List Production) :
    Production.resolveAll find? (ps ++ qs) =
      Production.resolveAll find? ps ++ Production.resolveAll find? qs := by
  induction ps with
  | nil => rfl
  | cons p ps ih => rw [List.cons_append, Production.resolveAll, ih, Production.resolveAll,
      List.cons_append]

variable (g : Grammar α)

section Shapes

attribute [local simp] Op.performed Op.performedBy Op.performedByBranches Production.resolve
  Production.resolveAll Production.resolveBranches

@[simp] theorem shape_nil : g.shape [] = [] := by
  simp [shape]

@[simp] theorem shape_cons (op : Op α) (ops : List (Op α)) :
    g.shape (op :: ops) = g.shapeOf op ++ g.shape ops := by
  rw [shape, Op.performedBy, resolveAll_append, shapeOf, shape]

@[simp] theorem shapeOf_consume (occurrence : Nat) (token : TypeId) (label : Option String)
    (act : Token → α → α) :
    g.shapeOf (.consume occurrence token label act) = [.terminal token occurrence] := by
  simp [shapeOf]

@[simp] theorem shapeOf_subrule (occurrence : Nat) (rule : String) (label : Option String)
    (act : α → α → α) :
    g.shapeOf (.subrule occurrence rule label act) =
      [.nonTerminal rule (g.ruleNamed? rule) occurrence] := by
  simp [shapeOf]

@[simp] theorem shapeOf_option (occurrence : Nat) (body : List (Op α)) (act : Bool → α → α) :
    g.shapeOf (.option occurrence body act) = [.option (g.shape body) occurrence] := by
  simp [shapeOf, shape]

@[simp] theorem shapeOf_repetition (mandatory : Bool) (separator : Option TypeId)
    (occurrence : Nat) (body : List (Op α)) (act : α → α) :
    g.shapeOf (.repetition mandatory separator occurrence body act) =
      [.repetition mandatory separator (g.shape body) occurrence] := by
  simp [shapeOf, shape]

def shapeOfBranches (branches : List (Branch (Op α))) : List (Alternative Production) :=
  branches.map fun branch => ⟨g.shape branch.body, branch.ignoreAmbiguities, branch.gate.isSome⟩

theorem mem_shapeOfBranches {branches : List (Branch (Op α))} {branch : Branch (Op α)}
    (h : branch ∈ branches) : ⟨g.shape branch.body, branch.ignoreAmbiguities, branch.gate.isSome⟩ ∈
      g.shapeOfBranches branches := List.mem_map_of_mem h

@[simp] theorem shapeOf_choice (occurrence : Nat) (branches : List (Branch (Op α)))
    (act : α → α → α) :
    g.shapeOf (.choice occurrence branches act) =
      [.alternation (g.shapeOfBranches branches) occurrence] := by
  have hBranches : Production.resolveBranches g.ruleNamed? (Op.performedByBranches branches) =
      g.shapeOfBranches branches := by
    induction branches with
    | nil => simp [shapeOfBranches]
    | cons branch rest ih =>
      rw [Op.performedByBranches, Production.resolveBranches, ih]
      rfl
  simp [shapeOf, hBranches]

@[simp] theorem shapeOf_peek (distance : Nat) (act : Token → α → α) :
    g.shapeOf (.peek distance act) = [] := by
  simp [shapeOf]

@[simp] theorem shapeOf_trial (rule : String) (act : Bool → α → α) :
    g.shapeOf (.trial rule act) = [] := by
  simp [shapeOf]

@[simp] theorem shapeOf_whenParsing (body : List (Op α)) :
    g.shapeOf (.whenParsing body) = g.shape body := by
  simp [shapeOf, shape]

@[simp] theorem shapeOf_whenRecording (body : List (Op α)) :
    g.shapeOf (.whenRecording body) = [] := by
  simp [shapeOf]

@[simp] theorem shapeOf_attempt (body : List (Op α)) (act : Bool → α → α) :
    g.shapeOf (.attempt body act) = g.shape body := by
  simp [shapeOf, shape]

end Shapes

end Grammar

end PredictiveParsing
