import PredictiveParsing.Parse.State

/-!
# Error recovery

A parse goes on after an error by making up or skipping one token, by skipping tokens until the rule
being parsed can end, or by skipping to another iteration or the end of a repetition. Nothing that a
rule around expects is skipped over.
-/

namespace PredictiveParsing.Parse

namespace Input

variable {α : Type} (i : Input α)

def callFollow? : List Call → Option TokenSet
  | callee :: caller :: _ =>
    i.grammar.analysis.callFollows.lookup ⟨caller.rule, callee.rule, callee.occurrence⟩
  | _ => none

/-- Whether a token can follow the innermost rule. Only the end of the input follows the start
rule. -/
def inCurrentFollow (s : State) (kind : TypeId) : Bool :=
  if s.calls.length ≤ 1 then kind == Vocabulary.eof
  else ((i.callFollow? s.calls).map (·.contains kind)).getD false

def followsAny (kind : TypeId) : List Call → Bool
  | [] => false
  | call :: calls =>
    ((i.callFollow? (call :: calls)).map (·.contains kind)).getD false || followsAny kind calls

def inEnclosingFollows (s : State) (kind : TypeId) : Bool :=
  kind == Vocabulary.eof || i.followsAny kind s.calls

/-- The first place from `index` on whose token can follow the innermost rule, unless one that can
follow another rule comes first. The first argument bounds the number of steps. -/
def resyncPlace? (s : State) : Nat → Nat → Option Nat
  | 0, _ => none
  | fuel + 1, index =>
    let kind := i.kindAt index
    if i.inCurrentFollow s kind then some index
    else if kind == Vocabulary.eof || i.inEnclosingFollows s kind then none
    else resyncPlace? s fuel (index + 1)

/-- The place where the innermost rule would be ended, if it is behind the last token. There are no
tokens up to there to be skipped. -/
def overrun? (s : State) : Option Nat :=
  if i.recoveryEnabled s then
    (i.resyncPlace? s (i.tokens.size + 1) s.position).filter (i.tokens.size < ·)
  else none

/-- Ends the innermost rule after an error, if tokens can be skipped to where it may end, or if the
parse is to end with its first error. The Boolean tells whether the rule counts as parsed. -/
def recoverRule (s : State) (error : Nat) : State × Bool :=
  let s := s.markRecovered
  let place? := if i.recoveryEnabled s then i.resyncPlace? s (i.tokens.size + 1) s.position else none
  match place? with
  | some index =>
    ({ s.addResynced error (i.slice s.position index) with position := index }, true)
  | none =>
    if !i.recoveryEnabled s && s.calls.length == 1 && s.trials == 0 then
      ({ s with terminated := true }, true)
    else (s, false)

/-- Makes up the expected token if the next one can follow it, or else skips the next one if the one
behind it is expected. -/
def recoverToken? (s : State) (expected : TypeId) (occurrence error : Nat) :
    Option (Token × State) :=
  let next := i.next s
  let follow? := i.grammar.analysis.terminalFollows.lookup ⟨s.currentRule, expected, occurrence⟩
  if (follow?.map (·.contains next.kind)).getD false then
    some (.insertedBefore expected next, s)
  else if !next.isEof && i.isMatch (i.kindAt (s.position + 1)) expected then
    let skipped := { s.addResynced error [next] with position := s.position + 1 }
    some (i.next skipped, { skipped with position := s.position + 2 })
  else none

inductive Resumption where
  | again (s : State)
  | exit (s : State)
  | failed (s : State)

/-- Looks for a place from which the repetition goes on with another iteration or with what follows
it. Another iteration never begins at the token that failed. The first argument bounds the number
of steps. -/
def resumePlace? (s : State) (exits : Option TokenSet) (decision : Option Decision)
    (separator : Option TypeId) : Nat → Nat → Option (Nat × Bool)
  | 0, _ => none
  | fuel + 1, index =>
    let kind := i.kindAt index
    if kind == Vocabulary.eof then none
    else
      let resumes :=
        s.position < index && i.continues { s with position := index } decision separator
      if resumes || (exits.map (·.contains kind)).getD false then some (index, resumes)
      else if i.inEnclosingFollows s kind then none
      else resumePlace? s exits decision separator fuel (index + 1)

def resumeRepetition (s : State) (key : DecisionKey) (decision : Option Decision)
    (separator : Option TypeId) (error : Nat) : Resumption :=
  if i.recoveryEnabled s then
    let exits := i.grammar.analysis.repetitionExits.lookup key
    match i.resumePlace? s exits decision separator (i.tokens.size + 1) s.position with
    | some (index, resumes) =>
      let s := { s.addResynced error (i.slice s.position index) with position := index }
      if resumes then .again s else .exit s
    | none => .failed s
  else .failed s

def skipPlace? (s : State) (exits : TokenSet) (decision : Option Decision)
    (separator : Option TypeId) : Nat → Nat → Option (Nat × Bool)
  | 0, _ => none
  | fuel + 1, index =>
    let kind := i.kindAt index
    if kind == Vocabulary.eof then none
    else
      let resumes := i.continues { s with position := index } decision separator
      if resumes || exits.contains kind then some (index, resumes)
      else if i.inEnclosingFollows s kind then none
      else skipPlace? s exits decision separator fuel (index + 1)

/-- Skips tokens that neither begin another iteration nor can follow the repetition, and reports
them. The Boolean tells whether another iteration begins then. -/
def skipToNextIteration (s : State) (key : DecisionKey) (decision : Option Decision)
    (separator : Option TypeId) : State × Bool :=
  match i.grammar.analysis.repetitionExits.lookup key with
  | none => (s, false)
  | some exits =>
    let kind := i.kindAt s.position
    if !i.recoveryEnabled s || exits.isEmpty || kind == Vocabulary.eof || exits.contains kind ||
        i.inEnclosingFollows s kind then (s, false)
    else
      match i.skipPlace? s exits decision separator (i.tokens.size + 1) (s.position + 1) with
      | none => (s, false)
      | some (index, resumes) =>
        let (t, error) := i.recordError s (.brokenRepetition key.kind key.occurrence exits)
        ({ t.addResynced error (i.slice s.position index) with position := index }, resumes)

end Input

end PredictiveParsing.Parse
