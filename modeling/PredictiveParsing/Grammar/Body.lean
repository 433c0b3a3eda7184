import PredictiveParsing.Vocabulary.Token

/-!
# Rule bodies

A rule is written as a list of operations. Running them over tokens parses the rule, and recording
them gives its productions. Operations compute a value along the way: each changes the value so far
by what it has read.

Which operations come next is fixed, but for gates and looks at the tokens ahead. A gate is any
condition on these, on trials, or on both; gates that read tokens are left out.
-/

namespace PredictiveParsing

inductive Gate where
  /-- Holds while parsing, not while recording. -/
  | parsing
  /-- Any condition on the tokens ahead, which are numbered from one. -/
  | tokens (holds : (Nat → Token) → Bool)
  /-- Holds if a rule parses at the current place. -/
  | trial (rule : String)
  | negation (gate : Gate)
  /-- The second gate is asked only if the first one holds. -/
  | both (first second : Gate)
deriving Inhabited

namespace Gate

def always : Gate := .tokens fun _ => true

def never : Gate := .tokens fun _ => false

/-- Holds if the token that many places ahead is of exactly this type. -/
def ahead (distance : Nat) (kind : TypeId) : Gate := .tokens fun la => (la distance).kind == kind

end Gate

structure Branch (O : Type) where
  gate : Option Gate
  body : List O
  ignoreAmbiguities : Bool

/-- One operation of a rule body with values in `α`. -/
inductive Op (α : Type) where
  | consume (occurrence : Nat) (token : TypeId) (label : Option String) (act : Token → α → α)
  /-- Another rule, whose value comes first. -/
  | subrule (occurrence : Nat) (rule : String) (label : Option String) (act : α → α → α)
  | option (occurrence : Nat) (body : List (Op α)) (act : Bool → α → α)
  | repetition (mandatory : Bool) (separator : Option TypeId) (occurrence : Nat)
      (body : List (Op α)) (act : α → α)
  /-- One of some branches, each with a value of its own, which comes first. -/
  | choice (occurrence : Nat) (branches : List (Branch (Op α))) (act : α → α → α)
  /-- Looks at the token that many places ahead. -/
  | peek (distance : Nat) (act : Token → α → α)
  /-- Tries whether a rule parses at the current place. -/
  | trial (rule : String) (act : Bool → α → α)
  | whenParsing (body : List (Op α))
  | whenRecording (body : List (Op α))
  /-- Goes on behind the body even if it is interrupted. -/
  | attempt (body : List (Op α)) (act : Bool → α → α)
deriving Inhabited

namespace Op

variable {α : Type}

def token (kind : TypeId) : Op α := .consume 0 kind none fun _ a => a

def enter (rule : String) : Op α := .subrule 0 rule none fun _ a => a

def manySeparated (separator : TypeId) (body : List (Op α)) : Op α :=
  .repetition false (some separator) 0 body id

end Op

def Branch.plain {O : Type} (body : List O) : Branch O := ⟨none, body, false⟩

structure RuleBody (α : Type) where
  name : String
  body : List (Op α)

end PredictiveParsing
