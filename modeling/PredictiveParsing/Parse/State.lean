import PredictiveParsing.Grammar.Compile
import PredictiveParsing.Parse.Error
import PredictiveParsing.Tree.Basic

/-!
# The state of a parse

A parse reads tokens from left to right. Its state holds the place reached, the errors found, the
rules that are being parsed and the tree nodes that are being built, innermost first.
-/

namespace PredictiveParsing.Parse

/-- A rule being parsed, and the occurrence it was entered with. -/
structure Call where
  rule : RuleId
  occurrence : Nat
deriving DecidableEq, Repr

structure State where
  position : Nat
  errors : List RecognitionError
  calls : List Call
  openNodes : List Node
  root : Option Node
  /-- How many trials are under way. -/
  trials : Nat
  /-- Whether an error ended the parse. -/
  terminated : Bool

structure Input (α : Type) where
  grammar : Grammar α
  tokens : Array Token

namespace State

def initial : State := ⟨0, [], [], [], none, 0, false⟩

def currentRule (s : State) : RuleId := ((s.calls.head?).map (·.rule)).getD 0

def updateNode (s : State) (f : Node → Node) : State :=
  match s.openNodes with
  | [] => s
  | n :: rest => { s with openNodes := f n :: rest }

def markRecovered (s : State) : State := s.updateNode fun n => { n with recovered := true }

def addResynced (s : State) (error : Nat) (skipped : List Token) : State :=
  { s with errors := s.errors.modify error fun e => { e with resynced := e.resynced ++ skipped } }

def key (s : State) (kind : ProductionKind) (occurrence : Nat) : DecisionKey :=
  ⟨s.currentRule, kind, occurrence⟩

structure Mark where
  position : Nat
  errors : Nat
  calls : Nat
  openNodes : Nat
deriving DecidableEq, Repr

def mark (s : State) : Mark :=
  ⟨s.position, s.errors.length, s.calls.length, s.openNodes.length⟩

def keepOutermost {β : Type} (n : Nat) (stack : List β) : List β := stack.drop (stack.length - n)

def restore (s : State) (m : Mark) : State :=
  { s with
    position := m.position
    errors := s.errors.take m.errors
    calls := keepOutermost m.calls s.calls
    openNodes := keepOutermost m.openNodes s.openNodes }

def endTrial (s : State) (m : Mark) : State := { s with trials := s.trials - 1 }.restore m

end State

namespace Input

variable {α : Type} (i : Input α)

def eof : Token := .eof ((i.tokens.back?.map (·.span.stop)).getD 0)

def kindAt (index : Nat) : TypeId := ((i.tokens[index]?).map (·.kind)).getD Vocabulary.eof

/-- The token that many places ahead; the next one is one place ahead. -/
def ahead (s : State) (distance : Nat) : Token :=
  (i.tokens[s.position + max distance 1 - 1]?).getD i.eof

def next (s : State) : Token := i.ahead s 1

def coming (s : State) : Nat → TypeId := fun distance => i.kindAt (s.position + distance)

def isMatch (actual expected : TypeId) : Bool := i.grammar.vocabulary.isMatch actual expected

def slice (start stop : Nat) : List Token := (i.tokens.extract start stop).toList

def recoveryEnabled (s : State) : Bool := i.grammar.config.recovery && s.trials == 0

def decisionAt? (key : DecisionKey) : Option Decision := i.grammar.analysis.decisionAt? key

/-- Records an error at the next token; the second result is its index. -/
def recordError (s : State) (cause : RecognitionCause) : State × Nat :=
  let error : RecognitionError :=
    { cause, token := i.next s
      previous := if 0 < s.position then i.tokens[s.position - 1]? else none
      resynced := []
      ruleStack := s.calls.reverse.map fun c => i.grammar.ruleName c.rule }
  ({ s with errors := s.errors ++ [error] }, s.errors.length)

/-- Adds a token to the tree under its label, or else the name of the expected type. -/
def addToken (s : State) (label : Option String) (expected : TypeId) (t : Token) : State :=
  if i.grammar.config.outputTree then
    s.updateNode (·.add i.grammar.config.positionTracking
      (label.getD (i.grammar.vocabulary.name expected)) (.leaf t))
  else s

def enter (s : State) (rule : RuleId) (occurrence : Nat) : State :=
  { s with
    calls := ⟨rule, occurrence⟩ :: s.calls
    openNodes :=
      if i.grammar.config.outputTree then .new (i.grammar.ruleName rule) :: s.openNodes
      else s.openNodes }

/-- Leaves a rule, whose node becomes a child of the one around it, or the root. -/
def leave (s : State) (rule : RuleId) (label : Option String) : State :=
  let calls := s.calls.tail
  match i.grammar.config.outputTree, s.openNodes with
  | true, n :: parent :: rest =>
    { s with
      calls
      openNodes := parent.add i.grammar.config.positionTracking
        (label.getD (i.grammar.ruleName rule)) (.node n) :: rest }
  | true, [n] => { s with calls, openNodes := [], root := some n }
  | _, _ => { s with calls }

def enters (s : State) (decision : Option Decision) : Bool :=
  match decision with
  | some d => (d.choose i.grammar.vocabulary (i.coming s) none).isSome
  | none => false

def continues (s : State) (decision : Option Decision) (separator : Option TypeId) : Bool :=
  match separator with
  | some sep => i.isMatch (i.kindAt s.position) sep
  | none => i.enters s decision

def expectedPaths (decision : Option Decision) : List (List Path) :=
  (decision.map (·.alternatives)).getD []

end Input

end PredictiveParsing.Parse
