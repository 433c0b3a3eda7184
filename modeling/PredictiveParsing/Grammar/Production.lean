import PredictiveParsing.Vocabulary.Basic

/-!
# Productions and rules

A rule is a sequence of productions: tokens, references to rules, options, repetitions and
alternations. Within one rule, productions of one kind and argument are told apart by an
occurrence index.
-/

namespace PredictiveParsing

/-- Rules are numbered in the order of their declaration. -/
abbrev RuleId := Nat

inductive ProductionKind where
  | consume
  | subrule
  | option
  | many
  | atLeastOne
  | manySep
  | atLeastOneSep
  | or
deriving DecidableEq, Repr

namespace ProductionKind

def methodName : ProductionKind → String
  | .consume => "CONSUME"
  | .subrule => "SUBRULE"
  | .option => "OPTION"
  | .many => "MANY"
  | .atLeastOne => "AT_LEAST_ONE"
  | .manySep => "MANY_SEP"
  | .atLeastOneSep => "AT_LEAST_ONE_SEP"
  | .or => "OR"

def rank (k : ProductionKind) : Nat := k.ctorIdx

def ofRepetition (mandatory : Bool) (separator : Option TypeId) : ProductionKind :=
  match mandatory, separator with
  | false, none => .many
  | true, none => .atLeastOne
  | false, some _ => .manySep
  | true, some _ => .atLeastOneSep

end ProductionKind

structure Alternative (P : Type) where
  definition : List P
  /-- Whether ambiguities with other branches are meant. -/
  ignoreAmbiguities : Bool
  /-- Whether a condition decides at parse time if the branch is considered. -/
  hasGate : Bool

inductive Production where
  | terminal (token : TypeId) (occurrence : Nat)
  /-- The target is filled in when names are resolved. -/
  | nonTerminal (name : String) (target : Option RuleId) (occurrence : Nat)
  | option (definition : List Production) (occurrence : Nat)
  /-- Iterations of the definition, one at least if `mandatory`, with separators between them. -/
  | repetition (mandatory : Bool) (separator : Option TypeId) (definition : List Production)
      (occurrence : Nat)
  | alternation (alternatives : List (Alternative Production)) (occurrence : Nat)
deriving Inhabited

namespace Production

def kind : Production → ProductionKind
  | .terminal _ _ => .consume
  | .nonTerminal _ _ _ => .subrule
  | .option _ _ => .option
  | .repetition mandatory separator _ _ => .ofRepetition mandatory separator
  | .alternation _ _ => .or

def occurrence : Production → Nat
  | .terminal _ occurrence => occurrence
  | .nonTerminal _ _ occurrence => occurrence
  | .option _ occurrence => occurrence
  | .repetition _ _ _ occurrence => occurrence
  | .alternation _ occurrence => occurrence

def isRepetition : Production → Bool
  | .repetition _ _ _ _ => true
  | _ => false

def separator : Production → Option TypeId
  | .repetition _ separator _ _ => separator
  | _ => none

mutual

/-- The production and all that are nested in it, outer ones first. -/
def nodes : Production → List Production
  | .terminal token occurrence => [.terminal token occurrence]
  | .nonTerminal name target occurrence => [.nonTerminal name target occurrence]
  | .option definition occurrence => .option definition occurrence :: nodesOf definition
  | .repetition mandatory separator definition occurrence =>
    .repetition mandatory separator definition occurrence :: nodesOf definition
  | .alternation alternatives occurrence =>
    .alternation alternatives occurrence :: nodesOfBranches alternatives

def nodesOf : List Production → List Production
  | [] => []
  | p :: ps => nodes p ++ nodesOf ps

def nodesOfBranches : List (Alternative Production) → List Production
  | [] => []
  | ⟨definition, _, _⟩ :: rest => nodesOf definition ++ nodesOfBranches rest

end

mutual

def size : Production → Nat
  | .terminal _ _ => 1
  | .nonTerminal _ _ _ => 1
  | .option definition _ => 1 + sizeAll definition
  | .repetition _ _ definition _ => 1 + sizeAll definition
  | .alternation alternatives _ => 1 + sizeOfBranches alternatives

def sizeAll : List Production → Nat
  | [] => 0
  | p :: ps => size p + sizeAll ps

def sizeOfBranches : List (Alternative Production) → Nat
  | [] => 0
  | ⟨definition, _, _⟩ :: rest => sizeAll definition + sizeOfBranches rest

end

mutual

def resolve (find? : String → Option RuleId) : Production → Production
  | .terminal token occurrence => .terminal token occurrence
  | .nonTerminal name _ occurrence => .nonTerminal name (find? name) occurrence
  | .option definition occurrence => .option (resolveAll find? definition) occurrence
  | .repetition mandatory separator definition occurrence =>
    .repetition mandatory separator (resolveAll find? definition) occurrence
  | .alternation alternatives occurrence =>
    .alternation (resolveBranches find? alternatives) occurrence

def resolveAll (find? : String → Option RuleId) : List Production → List Production
  | [] => []
  | p :: ps => resolve find? p :: resolveAll find? ps

def resolveBranches (find? : String → Option RuleId) :
    List (Alternative Production) → List (Alternative Production)
  | [] => []
  | ⟨definition, ignore, gate⟩ :: rest =>
    ⟨resolveAll find? definition, ignore, gate⟩ :: resolveBranches find? rest

end

def indentation (level : Nat) : String := String.ofList (List.replicate (2 * level) ' ')

def label (p : Production) : String := p.kind.methodName ++ toString p.occurrence

mutual

def lines (v : Vocabulary) (level : Nat) : Production → List String
  | .terminal token occurrence =>
    [indentation level ++ label (.terminal token occurrence) ++ " " ++ v.name token]
  | .nonTerminal name target occurrence =>
    [indentation level ++ label (.nonTerminal name target occurrence) ++ " " ++ name ++
      if target.isNone then " (unresolved)" else ""]
  | .option definition occurrence =>
    (indentation level ++ label (.option definition occurrence)) ::
      linesOf v (level + 1) definition
  | .repetition mandatory separator definition occurrence =>
    (indentation level ++ label (.repetition mandatory separator definition occurrence) ++
      match separator with
      | some s => " sep " ++ v.name s
      | none => "") :: linesOf v (level + 1) definition
  | .alternation alternatives occurrence =>
    (indentation level ++ label (.alternation alternatives occurrence)) ::
      linesOfBranches v (level + 1) 1 alternatives

def linesOf (v : Vocabulary) (level : Nat) : List Production → List String
  | [] => []
  | p :: ps => lines v level p ++ linesOf v level ps

/-- Branches are numbered from one. -/
def linesOfBranches (v : Vocabulary) (level number : Nat) :
    List (Alternative Production) → List String
  | [] => []
  | ⟨definition, ignore, gate⟩ :: rest =>
    (indentation level ++ "ALT" ++ toString number ++ (if gate then " gated" else "") ++
      (if ignore then " ignore-ambiguities" else "")) ::
      (linesOf v (level + 1) definition ++ linesOfBranches v level (number + 1) rest)

end

end Production

structure Rule where
  name : String
  definition : List Production
  /-- Rules that are tried without being part of the definition. -/
  backtracks : List String
deriving Inhabited

namespace Rule

def nodes (r : Rule) : List Production := Production.nodesOf r.definition

def display (r : Rule) (v : Vocabulary) : String :=
  String.join ((("rule " ++ r.name) :: Production.linesOf v 1 r.definition).map (· ++ "\n"))

end Rule

/-- The definition of a rule; of no rule, if there is none of that number. -/
def definitionOf (rules : List Rule) (id : RuleId) : List Production :=
  ((rules[id]?).map (·.definition)).getD []

def ruleName (rules : List Rule) (id : RuleId) : String := ((rules[id]?).map (·.name)).getD ""

def ruleNamed? (rules : List Rule) (name : String) : Option RuleId :=
  rules.findIdx? (·.name == name)

end PredictiveParsing
