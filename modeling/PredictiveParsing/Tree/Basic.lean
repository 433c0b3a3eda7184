import PredictiveParsing.Vocabulary.Token
import PredictiveParsing.Grammar.Config

/-!
# Concrete syntax trees

A node stands for one invocation of a rule. Its children carry labels, and those of one label form
a group. The location of a node covers the tokens below it that were read from the text.
-/

namespace PredictiveParsing

structure Location where
  startOffset : Nat
  stopOffset : Option Nat
  start : Option LineCol
  stop : Option LineCol
deriving DecidableEq, Repr

namespace Location

def ofToken (t : Token) : Location := ⟨t.span.start, some t.span.stop, t.start, t.stop⟩

def tracked? (tracking : LocationTracking) (l : Location) : Option Location :=
  match tracking with
  | .none => none
  | .full => some l
  | .startOnly => some { l with stopOffset := none, stop := none }
  | .offsetOnly => some { l with start := none, stop := none }

/-- Whether an end is behind another one. A missing end is before all others. -/
def isBehind : Option Nat → Option Nat → Bool
  | some a, some b => b < a
  | some _, none => true
  | none, _ => false

/-- The least location that covers both; at equal ends, the first one's positions. -/
def cover (l added : Location) : Location :=
  let l := if added.startOffset < l.startOffset then
      { l with startOffset := added.startOffset, start := added.start }
    else l
  if isBehind added.stopOffset l.stopOffset then
    { l with stopOffset := added.stopOffset, stop := added.stop }
  else l

end Location

/-- A node with children of type `T`, in the order in which they were parsed. -/
structure NodeOf (T : Type) where
  name : String
  children : List (String × T)
  location : Option Location
  /-- Whether error recovery skipped or made up parts of the node. -/
  recovered : Bool
deriving Inhabited

inductive Tree where
  | leaf (token : Token)
  | node (node : NodeOf Tree)

abbrev Node := NodeOf Tree

def groupByLabel {β : Type} (xs : List (String × β)) : List (String × List β) :=
  (((xs.map (·.1)).eraseDups).mergeSort fun a b => decide (a ≤ b)).map fun label =>
    (label, (xs.filter (·.1 == label)).map (·.2))

namespace Tree

/-- The location that a child adds to its node. Tokens that were made up have none. -/
def location? : Tree → Option Location
  | .leaf t => if t.inserted then none else some (.ofToken t)
  | .node n => n.location

mutual

/-- The tokens below a node that were read from the text, label by label. -/
def tokens : Tree → List Token
  | .leaf t => if t.inserted then [] else [t]
  | .node ⟨_, children, _, _⟩ => ((groupByLabel (tokensOf children)).flatMap (·.2)).flatten

def tokensOf : List (String × Tree) → List (String × List Token)
  | [] => []
  | (label, t) :: rest => (label, tokens t) :: tokensOf rest

end

end Tree

namespace NodeOf

def new (name : String) : Node := ⟨name, [], none, false⟩

def extend (n : Node) (tracking : LocationTracking) (added : Location) : Node :=
  match added.tracked? tracking with
  | none => n
  | some added => { n with location := some ((n.location.map (·.cover added)).getD added) }

def add (n : Node) (tracking : LocationTracking) (label : String) (t : Tree) : Node :=
  let located := match t.location? with
    | some l => n.extend tracking l
    | none => n
  { located with children := n.children ++ [(label, t)] }

def get (n : Node) (label : String) : List Tree :=
  (n.children.filter (·.1 == label)).map (·.2)

/-- All tokens below a node that were read from the text, in its order. -/
def sourceTokens (n : Node) : List Token :=
  (Tree.node n).tokens.mergeSort fun a b => a.span.start ≤ b.span.start

end NodeOf

end PredictiveParsing
