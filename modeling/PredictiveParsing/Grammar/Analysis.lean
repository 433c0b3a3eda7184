import PredictiveParsing.Grammar.Decision

/-!
# Analysis of a grammar

What a parser needs to know of each place in a rule: how to decide there, and which tokens can come
after it within the rule.
-/

namespace PredictiveParsing

/-- A production and what remains of its rule behind it. -/
structure Site where
  production : Production
  after : Continuation

namespace Site

mutual

def within (after : Continuation) : Production → List Site
  | .terminal token occurrence => [⟨.terminal token occurrence, after⟩]
  | .nonTerminal name target occurrence => [⟨.nonTerminal name target occurrence, after⟩]
  | .option definition occurrence =>
    ⟨.option definition occurrence, after⟩ :: along after definition
  | .repetition mandatory separator definition occurrence =>
    ⟨.repetition mandatory separator definition occurrence, after⟩ ::
      along (.again definition separator :: after) definition
  | .alternation alternatives occurrence =>
    ⟨.alternation alternatives occurrence, after⟩ :: amongBranches after alternatives

def along (after : Continuation) : List Production → List Site
  | [] => []
  | p :: ps => within (.sequence ps :: after) p ++ along after ps

def amongBranches (after : Continuation) : List (Alternative Production) → List Site
  | [] => []
  | ⟨definition, _, _⟩ :: rest => along after definition ++ amongBranches after rest

end

def ofRule (r : Rule) : List Site := along [] r.definition

end Site

structure TerminalSite where
  rule : RuleId
  token : TypeId
  occurrence : Nat
deriving DecidableEq, Repr

structure CallSite where
  caller : RuleId
  callee : RuleId
  occurrence : Nat
deriving DecidableEq, Repr

/-- The entries have pairwise different keys if no rule has two productions of one kind, argument
and occurrence. -/
structure Analysis where
  decisions : List (DecisionKey × Decision)
  /-- What can follow a token within its rule. -/
  terminalFollows : List (TerminalSite × TokenSet)
  /-- What can follow a reference within the rule that makes it. -/
  callFollows : List (CallSite × TokenSet)
  /-- What can follow a repetition within its rule. -/
  repetitionExits : List (DecisionKey × TokenSet)

namespace Analysis

def sites (rules : List Rule) : List (RuleId × Site) :=
  rules.zipIdx.flatMap fun (r, id) => (Site.ofRule r).map fun site => (id, site)

def key (rule : RuleId) (p : Production) : DecisionKey := ⟨rule, p.kind, p.occurrence⟩

/-- The decision at a place, if one is taken there. Entering an option or a repetition competes with
what comes behind it. -/
def decision? (v : Vocabulary) (rules : List Rule) (k : Nat) (site : Site) :
    Option (Option Decision) :=
  let entering (enter : Continuation) : Option (Option Decision) :=
    (Lookahead.paths? v rules k [enter, site.after]).map fun paths =>
      some (.ofPaths v [paths.headD []])
  match site.production with
  | .alternation alternatives _ =>
    (Lookahead.paths? v rules k (alternatives.map fun a => [.sequence a.definition])).map
      fun paths => some (.ofPaths v paths)
  | .option definition _ => entering (.sequence definition :: site.after)
  | .repetition _ separator definition _ =>
    entering (.sequence definition :: .again definition separator :: site.after)
  | _ => some none

def terminalFollow? (fs : FirstSets) (v : Vocabulary) : RuleId × Site →
    Option (TerminalSite × TokenSet)
  | (rule, ⟨.terminal token occurrence, after⟩) =>
    some (⟨rule, token, occurrence⟩, fs.follow v after)
  | _ => none

def callFollow? (fs : FirstSets) (v : Vocabulary) : RuleId × Site → Option (CallSite × TokenSet)
  | (rule, ⟨.nonTerminal _ (some target) occurrence, after⟩) =>
    some (⟨rule, target, occurrence⟩, fs.follow v after)
  | _ => none

def repetitionExit? (fs : FirstSets) (v : Vocabulary) : RuleId × Site →
    Option (DecisionKey × TokenSet)
  | (rule, ⟨.repetition mandatory separator definition occurrence, after⟩) =>
    some (key rule (.repetition mandatory separator definition occurrence), fs.follow v after)
  | _ => none

/-- Analyses resolved rules; the result is missing only if their structure is in error. -/
def ofRules? (v : Vocabulary) (rules : List Rule) (fs : FirstSets) (k : Nat) : Option Analysis := do
  let places := sites rules
  let decisions ← places.mapM fun (rule, site) =>
    (decision? v rules k site).map fun d? => d?.map fun d => (key rule site.production, d)
  return {
    decisions := decisions.filterMap id
    terminalFollows := places.filterMap (terminalFollow? fs v)
    callFollows := places.filterMap (callFollow? fs v)
    repetitionExits := places.filterMap (repetitionExit? fs v) }

def decisionAt? (a : Analysis) (key : DecisionKey) : Option Decision := a.decisions.lookup key

def isListedBefore (a b : DecisionKey) : Bool :=
  if a.rule ≠ b.rule then a.rule < b.rule
  else if a.kind ≠ b.kind then a.kind.rank < b.kind.rank
  else a.occurrence ≤ b.occurrence

def sortedDecisions (a : Analysis) : List (DecisionKey × Decision) :=
  a.decisions.mergeSort fun x y => isListedBefore x.1 y.1

def displayDecisions (a : Analysis) (v : Vocabulary) (rules : List Rule) : String :=
  String.join (a.sortedDecisions.map fun (key, d) =>
    ruleName rules key.rule ++ " " ++ key.kind.methodName ++ toString key.occurrence ++ "\n" ++
      Decision.displayPaths v d.alternatives)

end Analysis

end PredictiveParsing
