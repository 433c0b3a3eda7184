import PredictiveParsing.Grammar.Body
import PredictiveParsing.Grammar.DefinitionError

/-!
# Recording rule bodies

Recording enters every branch and every optional part once. There is no input: every token looked
at is the end of the input, and no trial succeeds.
-/

namespace PredictiveParsing

structure Recording where
  definition : List Production
  /-- Rules tried, in the order of the trials. -/
  trials : List String
  /-- Occurrence indices that are too large. -/
  invalid : List (ProductionKind × Nat)

namespace Recording

def empty : Recording := ⟨[], [], []⟩

def append (a b : Recording) : Recording :=
  ⟨a.definition ++ b.definition, a.trials ++ b.trials, a.invalid ++ b.invalid⟩

def checkOccurrence (kind : ProductionKind) (occurrence : Nat) : List (ProductionKind × Nat) :=
  if maxOccurrence < occurrence then [(kind, occurrence)] else []

def wrap (inner : Recording) (p : Production) : Recording :=
  ⟨[p], inner.trials, checkOccurrence p.kind p.occurrence ++ inner.invalid⟩

/-- A gate's answer while recording, and the rules it tries. -/
def ofGate : Gate → Bool × List String
  | .parsing => (false, [])
  | .tokens holds => (holds fun _ => .eof 0, [])
  | .trial rule => (false, [rule])
  | .negation g =>
    let (holds, trials) := ofGate g
    (!holds, trials)
  | .both g h =>
    let (holds, trials) := ofGate g
    if holds then
      let (holds, more) := ofGate h
      (holds, trials ++ more)
    else (false, trials)

def gateTrials (gate : Option Gate) : List String := ((gate.map ofGate).map (·.2)).getD []

variable {α : Type}

mutual

def ofOp : Op α → Recording
  | .consume occurrence token _ _ => wrap empty (.terminal token occurrence)
  | .subrule occurrence rule _ _ => wrap empty (.nonTerminal rule none occurrence)
  | .option occurrence body _ =>
    let inner := ofBody body
    wrap inner (.option inner.definition occurrence)
  | .repetition mandatory separator occurrence body _ =>
    let inner := ofBody body
    wrap inner (.repetition mandatory separator inner.definition occurrence)
  | .choice occurrence branches _ =>
    let (alternatives, inner) := ofBranches branches
    wrap inner (.alternation alternatives occurrence)
  | .peek _ _ => empty
  | .trial rule _ => ⟨[], [rule], []⟩
  | .whenParsing _ => empty
  | .whenRecording body => ofBody body
  | .attempt body _ => ofBody body

def ofBody : List (Op α) → Recording
  | [] => empty
  | op :: ops => (ofOp op).append (ofBody ops)

def ofBranches : List (Branch (Op α)) → List (Alternative Production) × Recording
  | [] => ([], empty)
  | ⟨gate, body, ignore⟩ :: rest =>
    let inner := ofBody body
    let (alternatives, others) := ofBranches rest
    (⟨inner.definition, ignore, gate.isSome⟩ :: alternatives,
      (⟨[], gateTrials gate ++ inner.trials, inner.invalid⟩ : Recording).append others)

end

end Recording

namespace RuleBody

variable {α : Type}

/-- The recorded rule. A rule that is tried twice is listed once. -/
def record (r : RuleBody α) : Rule :=
  let recording := Recording.ofBody r.body
  ⟨r.name, recording.definition, recording.trials.eraseDups⟩

def occurrenceErrors (r : RuleBody α) : List DefinitionError :=
  (Recording.ofBody r.body).invalid.map fun (kind, occurrence) =>
    .invalidOccurrence r.name kind occurrence

end RuleBody

end PredictiveParsing
