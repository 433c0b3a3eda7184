import PredictiveParsing.Parse.Recovery

/-!
# Running a parse

Rule bodies are run operation by operation. An error interrupts the body it occurs in, and those
around it, up to a rule or repetition that recovers from it. The number of nested steps is bounded
by a first argument; a run that needs more says so.
-/

namespace PredictiveParsing.Parse

inductive Panic where
  /-- A body called a rule that the grammar does not have. -/
  | unknownRule (name : String)
  /-- Recovery took the tokens up to a place behind the last one. -/
  | sliceOutOfRange (stop length : Nat)
deriving DecidableEq, Repr

namespace Panic

def message : Panic → String
  | .unknownRule name => "Call of unknown rule `" ++ name ++ "`"
  | .sliceOutOfRange stop length =>
    "range end index " ++ toString stop ++ " out of range for slice of length " ++ toString length

end Panic

inductive Outcome (β : Type) where
  | done (value : β) (s : State)
  /-- An error was recorded under an index. The value is what was computed before. -/
  | interrupted (error : Nat) (value : β) (s : State)
  | panicked (why : Panic)
  | outOfFuel

namespace Input

variable {α : Type} (i : Input α)

/-- Reads a token of the expected type, or one that recovery found or made up instead. -/
def consume (s : State) (occurrence : Nat) (expected : TypeId) (label : Option String) :
    Outcome Token :=
  let next := i.next s
  if i.isMatch next.kind expected then
    let s := if next.isEof then s else { s with position := s.position + 1 }
    .done next (i.addToken s label expected next)
  else
    let (s, error) := i.recordError s (.mismatchedToken expected)
    let recovered :=
      if i.recoveryEnabled s then i.recoverToken? s expected occurrence error else none
    match recovered with
    | some (t, s) => .done t (i.addToken s.markRecovered label expected t)
    | none => .interrupted error next s

def consumeSeparator (s : State) : Option TypeId → State
  | none => s
  | some separator =>
    i.addToken { s with position := s.position + 1 } none separator (i.next s)

def chooseBranch (s : State) (key : DecisionKey) (count : Nat) (enabled : Option (List Bool)) :
    Option Nat :=
  ((i.decisionAt? key).bind fun d =>
    d.choose i.grammar.vocabulary (i.coming s) enabled).filter (· < count)

/-- A state for a trial. Its tree, which is dropped in the end, hangs from a node of its own. -/
def beginTrial (s : State) : State :=
  { s with
    trials := s.trials + 1
    openNodes := if i.grammar.config.outputTree then .new "" :: s.openNodes else s.openNodes }

structure Loop (α : Type) where
  key : DecisionKey
  mandatory : Bool
  separator : Option TypeId
  body : List (Op α)

variable [Inhabited α]

mutual

def runBody : Nat → List (Op α) → α → State → Outcome α
  | 0, _, _, _ => .outOfFuel
  | _ + 1, [], a, s => .done a s
  | fuel + 1, op :: ops, a, s =>
    match runOp fuel op a s with
    | .done a s => runBody fuel ops a s
    | other => other

def runOp : Nat → Op α → α → State → Outcome α
  | 0, _, _, _ => .outOfFuel
  | fuel + 1, op, a, s =>
    match op with
    | .consume occurrence token label act =>
      match i.consume s occurrence token label with
      | .done t s => .done (act t a) s
      | .interrupted error _ s => .interrupted error a s
      | .panicked why => .panicked why
      | .outOfFuel => .outOfFuel
    | .subrule occurrence rule label act =>
      match i.grammar.ruleNamed? rule with
      | none => .panicked (.unknownRule rule)
      | some id =>
        match invoke fuel id occurrence label s with
        | .done b s => .done (act b a) s
        | .interrupted error _ s => .interrupted error a s
        | .panicked why => .panicked why
        | .outOfFuel => .outOfFuel
    | .option occurrence body act =>
      if i.enters s (i.decisionAt? (s.key .option occurrence)) then
        match runBody fuel body a s with
        | .done a s => .done (act true a) s
        | other => other
      else .done (act false a) s
    | .repetition mandatory separator occurrence body act =>
      let key := s.key (.ofRepetition mandatory separator) occurrence
      match runLoop fuel ⟨key, mandatory, separator, body⟩ true a s with
      | .done a s => .done (act a) s
      | other => other
    | .choice occurrence branches act =>
      let key := s.key .or occurrence
      match askGates fuel (branches.map (·.gate)) s with
      | .done mask s =>
        let enabled := if branches.any (·.gate.isSome) then some mask else none
        match (i.chooseBranch s key branches.length enabled).bind fun index => branches[index]? with
        | some branch =>
          match runBody fuel branch.body default s with
          | .done b s => .done (act b a) s
          | .interrupted error _ s => .interrupted error a s
          | other => other
        | none =>
          let (s, error) :=
            i.recordError s (.noViableAlternative (expectedPaths (i.decisionAt? key)))
          .interrupted error a s
      | .interrupted error _ s => .interrupted error a s
      | .panicked why => .panicked why
      | .outOfFuel => .outOfFuel
    | .peek distance act => .done (act (i.ahead s distance) a) s
    | .trial rule act =>
      match runTrial fuel rule s with
      | .done succeeded s => .done (act succeeded a) s
      | .interrupted error _ s => .interrupted error a s
      | .panicked why => .panicked why
      | .outOfFuel => .outOfFuel
    | .whenParsing body => runBody fuel body a s
    | .whenRecording _ => .done a s
    | .attempt body act =>
      match runBody fuel body a s with
      | .done a s => .done (act true a) s
      | .interrupted _ a s => .done (act false a) s
      | other => other

def invoke : Nat → RuleId → Nat → Option String → State → Outcome α
  | 0, _, _, _, _ => .outOfFuel
  | fuel + 1, rule, occurrence, label, s =>
    match runBody fuel (i.grammar.body rule) default (i.enter s rule occurrence) with
    | .done a s => .done a (i.leave s rule label)
    | .interrupted error _ s =>
      match i.overrun? s with
      | some index => .panicked (.sliceOutOfRange index i.tokens.size)
      | none =>
        match i.recoverRule s error with
        | (s, true) => .done default (i.leave s rule label)
        | (s, false) => .interrupted error default (i.leave s rule label)
    | other => other

/-- Iterates a body from a place where an iteration may begin, the first one or a later one. -/
def runLoop : Nat → Loop α → Bool → α → State → Outcome α
  | 0, _, _, _, _ => .outOfFuel
  | fuel + 1, loop, isFirst, a, s =>
    let decision := i.decisionAt? loop.key
    if isFirst then
      if i.enters s decision then runIteration fuel loop a s
      else if loop.mandatory then
        let (s, error) := i.recordError s
          (.earlyExit loop.key.kind loop.key.occurrence (expectedPaths decision))
        .interrupted error a s
      else .done a s
    else if i.continues s decision loop.separator then
      runIteration fuel loop a (i.consumeSeparator s loop.separator)
    else
      match i.skipToNextIteration s loop.key decision loop.separator with
      | (s, true) => runLoop fuel loop false a s
      | (s, false) => .done a s

/-- Runs one iteration and those behind it. One that moves nowhere is the last. -/
def runIteration : Nat → Loop α → α → State → Outcome α
  | 0, _, _, _ => .outOfFuel
  | fuel + 1, loop, a, s =>
    let goOn (a : α) (t : State) : Outcome α :=
      if t.position = s.position then .done a t else runLoop fuel loop false a t
    match runBody fuel loop.body a s with
    | .done a t => goOn a t
    | .interrupted error a t =>
      match i.resumeRepetition t loop.key (i.decisionAt? loop.key) loop.separator error with
      | .again t => goOn a t
      | .exit t => .done a t
      | .failed t => .interrupted error a t
    | other => other

/-- Tries whether a rule parses without an error, and goes back. -/
def runTrial : Nat → String → State → Outcome Bool
  | 0, _, _ => .outOfFuel
  | fuel + 1, rule, s =>
    match i.grammar.ruleNamed? rule with
    | none => .done false s
    | some id =>
      match invoke fuel id 0 none (i.beginTrial s) with
      | .done _ t => .done (t.errors.length == s.errors.length) (t.endTrial s.mark)
      | .interrupted _ _ t => .done false (t.endTrial s.mark)
      | .panicked why => .panicked why
      | .outOfFuel => .outOfFuel

def askGate : Nat → Gate → State → Outcome Bool
  | 0, _, _ => .outOfFuel
  | fuel + 1, gate, s =>
    match gate with
    | .parsing => .done true s
    | .tokens holds => .done (holds (i.ahead s)) s
    | .trial rule => runTrial fuel rule s
    | .negation g =>
      match askGate fuel g s with
      | .done holds s => .done (!holds) s
      | other => other
    | .both g h =>
      match askGate fuel g s with
      | .done true s => askGate fuel h s
      | other => other

/-- The answers of the gates in order; a branch without a gate is let pass. -/
def askGates : Nat → List (Option Gate) → State → Outcome (List Bool)
  | 0, _, _ => .outOfFuel
  | _ + 1, [], s => .done [] s
  | fuel + 1, none :: gates, s =>
    match askGates fuel gates s with
    | .done mask s => .done (true :: mask) s
    | other => other
  | fuel + 1, some gate :: gates, s =>
    match askGate fuel gate s with
    | .done holds s =>
      match askGates fuel gates s with
      | .done mask s => .done (holds :: mask) s
      | other => other
    | .interrupted error _ s => .interrupted error [] s
    | .panicked why => .panicked why
    | .outOfFuel => .outOfFuel

end

end Input

structure ParseOutput (α : Type) where
  /-- Absent if trees are not asked for. -/
  tree : Option Node
  value : α
  errors : List RecognitionError

inductive ParseResult (α : Type) where
  | parsed (output : ParseOutput α)
  | unknownStartRule (name : String)
  | panicked (why : Panic)
  | outOfFuel

namespace ParseResult

def problem? {α : Type} : ParseResult α → Option String
  | .parsed _ => none
  | .unknownStartRule name => some ("Unknown start rule `" ++ name ++ "`")
  | .panicked why => some why.message
  | .outOfFuel => some "Too many steps"

end ParseResult

variable {α : Type} [Inhabited α]

/-- What is left behind the start rule is an error, unless an error has ended the parse. -/
def Input.finish (i : Input α) (value : α) (s : State) : ParseOutput α :=
  let s := if !s.terminated && s.position < i.tokens.size then
      (i.recordError s .notAllInputParsed).1
    else s
  ⟨s.root, value, s.errors⟩

def Input.parseFrom (i : Input α) (fuel : Nat) (rule : RuleId) : ParseResult α :=
  match i.invoke fuel rule 0 none .initial with
  | .done a s => .parsed (i.finish a s)
  | .interrupted _ _ s => .parsed (i.finish default s)
  | .panicked why => .panicked why
  | .outOfFuel => .outOfFuel

end PredictiveParsing.Parse

namespace PredictiveParsing.Grammar

variable {α : Type} [Inhabited α]

/-- Parses tokens from a start rule, with a bound on the number of nested steps. -/
def parseWithin (g : Grammar α) (fuel : Nat) (rule : String) (tokens : List Token) :
    Parse.ParseResult α :=
  match g.ruleNamed? rule with
  | none => .unknownStartRule rule
  | some id => (⟨g, tokens.toArray⟩ : Parse.Input α).parseFrom fuel id

/-- More nested steps than any parse is meant to take. -/
def defaultFuel : Nat := 1000000 * 1000000 * 1000

def parse (g : Grammar α) (rule : String) (tokens : List Token) : Parse.ParseResult α :=
  g.parseWithin defaultFuel rule tokens

end PredictiveParsing.Grammar
