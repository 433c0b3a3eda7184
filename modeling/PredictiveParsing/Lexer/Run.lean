import PredictiveParsing.Lexer.Definition
import PredictiveParsing.Lexer.Cursor
import PredictiveParsing.Vocabulary.Token
import PredictiveParsing.Text.Quoted

/-!
# Running a lexer

A run cuts a text into segments: tokens, and stretches that no type of the mode in force matches.
Tokens can leave the mode in force or enter another one, which is kept on a stack.
-/

namespace PredictiveParsing

inductive LexicalError where
  | unexpected (text : List Char) (offset : Nat) (start : Option LineCol)
  /-- A token was to leave the only mode on the stack. -/
  | emptyModeStack (type : String) (span : Span) (start : Option LineCol)
  | inputTooLarge (bytes : Nat)
deriving DecidableEq, Repr

namespace LexicalError

def maxBytes : Nat := (1 <<< 32) - 1

def span : LexicalError → Span
  | .unexpected text offset _ => ⟨offset, offset + Text.byteLength text⟩
  | .emptyModeStack _ span _ => span
  | .inputTooLarge _ => .point 0

def start : LexicalError → Option LineCol
  | .unexpected _ _ start => start
  | .emptyModeStack _ _ start => start
  | .inputTooLarge _ => none

def message : LexicalError → String
  | .unexpected text offset _ =>
    "Unexpected character(s) " ++ Text.quoted text ++ " at offset " ++ toString offset ++
      ", skipped " ++ toString text.length ++ " character(s)"
  | .emptyModeStack type _ _ =>
    "Unable to pop lexer mode after token `" ++ type ++ "`, the mode stack is empty"
  | .inputTooLarge bytes =>
    "Input of " ++ toString bytes ++ " bytes is too large, at most " ++ toString maxBytes ++
      " bytes can be tokenized"

end LexicalError

structure LexResult where
  tokens : List Token
  /-- Tokens of named groups, in input order. -/
  groups : List (String × List Token)
  errors : List LexicalError
deriving DecidableEq, Repr

namespace Lexer

structure Match where
  kind : TypeId
  image : List Char
  rest : List Char
deriving DecidableEq, Repr

/-- What a type matches at an offset, if that is not empty. -/
def tryMatch (l : Lexer) (text : List Char) (cur : Cursor) (id : TypeId) : Option Match := do
  let c ← l.compiled.lookup id
  let n ← c.matcher.matchAt text cur.offset cur.rest
  if 0 < n then
    let (image, rest) ← Text.splitBytes? n cur.rest
    return ⟨id, image, rest⟩
  else none

/-- A match of a type, unless one of the types preferred for longer matches matches more. -/
def preferLonger (l : Lexer) (text : List Char) (cur : Cursor) (m : Match) : Match :=
  ((l.longer m.kind).findSome? fun id =>
    (l.tryMatch text cur id).filter fun longer => longer.rest.length < m.rest.length).getD m

def matchFirst (l : Lexer) (text : List Char) (cur : Cursor) (candidates : List TypeId) :
    Option Match :=
  (candidates.findSome? (l.tryMatch text cur)).map (l.preferLonger text cur)

def matchIn (l : Lexer) (text : List Char) (mode : Mode) (cur : Cursor) : Option Match :=
  match cur.rest with
  | [] => none
  | c :: _ => l.matchFirst text cur (mode.dispatch.candidates c)

theorem length_rest_of_tryMatch {l : Lexer} {text : List Char} {cur : Cursor} {id : TypeId}
    {m : Match} (h : l.tryMatch text cur id = some m) : m.rest.length < cur.rest.length := by
  simp only [tryMatch, Option.bind_eq_bind, Option.bind_eq_some_iff] at h
  obtain ⟨c, -, n, -, h⟩ := h
  split at h
  · rename_i hn
    obtain ⟨⟨image, rest⟩, hs, he⟩ := Option.bind_eq_some_iff.1 h
    cases he
    exact Text.length_lt_of_splitBytes? hs hn
  · cases h

theorem length_rest_of_matchFirst {l : Lexer} {text : List Char} {cur : Cursor}
    {candidates : List TypeId} {m : Match} (h : l.matchFirst text cur candidates = some m) :
    m.rest.length < cur.rest.length := by
  obtain ⟨m₀, h₀, rfl⟩ := Option.map_eq_some_iff.1 h
  obtain ⟨id, -, h₀⟩ := List.exists_of_findSome?_eq_some h₀
  have hlt := length_rest_of_tryMatch h₀
  unfold preferLonger
  cases hf : (l.longer m₀.kind).findSome? fun id =>
      (l.tryMatch text cur id).filter fun longer => longer.rest.length < m₀.rest.length with
  | none => simpa using hlt
  | some m₁ =>
    obtain ⟨id, -, h₁⟩ := List.exists_of_findSome?_eq_some hf
    exact length_rest_of_tryMatch (Option.eq_some_of_filter_eq_some h₁)

theorem length_rest_of_matchIn {l : Lexer} {text : List Char} {mode : Mode} {cur : Cursor}
    {m : Match} (h : l.matchIn text mode cur = some m) : m.rest.length < cur.rest.length := by
  unfold matchIn at h
  split at h
  · cases h
  · exact length_rest_of_matchFirst h

/-- A piece of the text, in the order of the text. -/
inductive Segment where
  /-- A token, the mode stack in force before it, and whether it failed to leave its mode. -/
  | token (token : Token) (modes : List Nat) (stuck : Bool)
  | skipped (error : LexicalError)
deriving DecidableEq, Repr

/-- Moves on while there is text and no type of the mode matches. -/
def skipUnmatched (l : Lexer) (text : List Char) (mode : Mode) :
    Cursor → List Char → Cursor × List Char
  | cur, [] => (cur, [])
  | cur, c :: cs =>
    if mode.types.any fun id => (l.tryMatch text cur id).isSome then (cur, [])
    else
      let (stop, skipped) := skipUnmatched l text mode (cur.advance l.config [c] cs true).1 cs
      (stop, c :: skipped)

/-- Skips one character and, with recovery, all that follow it unmatched. -/
def skip (l : Lexer) (text : List Char) (mode : Mode) (cur : Cursor) (c : Char) (cs : List Char) :
    Cursor × List Char :=
  let next := (cur.advance l.config [c] cs true).1
  if l.config.recovery then
    let (stop, skipped) := l.skipUnmatched text mode next cs
    (stop, c :: skipped)
  else (next, [c])

theorem length_rest_skipUnmatched (l : Lexer) (text : List Char) (mode : Mode) (cur : Cursor)
    (cs : List Char) (h : cur.rest = cs) :
    (l.skipUnmatched text mode cur cs).1.rest.length ≤ cs.length := by
  induction cs generalizing cur with
  | nil => simp [skipUnmatched, h]
  | cons c cs ih =>
    unfold skipUnmatched
    split
    · simp [h]
    · have := ih (cur.advance l.config [c] cs true).1 (by simp)
      simp only [List.length_cons]
      omega

theorem length_rest_skip (l : Lexer) (text : List Char) (mode : Mode) (cur : Cursor) (c : Char)
    (cs : List Char) : (l.skip text mode cur c cs).1.rest.length ≤ cs.length := by
  simp only [skip]
  split
  · exact length_rest_skipUnmatched l text mode _ cs (by simp)
  · simp

/-- The mode stack after a token, top first: the mode in force is left unless it is the only one,
then another one may be entered. -/
def switchModes (l : Lexer) (kind : TypeId) (modes : List Nat) : List Nat :=
  let left := if l.popsMode kind && 1 < modes.length then modes.tail else modes
  match l.pushTarget? kind with
  | some target => target :: left
  | none => left

def finishToken (l : Lexer) (cur : Cursor) (m : Match) : Cursor × Token :=
  let (next, last) := cur.advance l.config m.image m.rest (l.hasLineBreaks m.kind)
  (next,
    { kind := m.kind
      image := String.ofList m.image
      span := ⟨cur.offset, cur.offset + Text.byteLength m.image⟩
      start := Cursor.shown l.config cur.position
      stop := if l.config.positionTracking = .full then last else none
      inserted := false })

@[simp] theorem rest_finishToken (l : Lexer) (cur : Cursor) (m : Match) :
    (l.finishToken cur m).1.rest = m.rest := by
  simp [finishToken]

def segments (l : Lexer) (text : List Char) (modes : List Nat) (cur : Cursor) : List Segment :=
  match _hr : cur.rest with
  | [] => []
  | c :: cs =>
    let mode := l.mode (modes.headD 0)
    match _hm : l.matchIn text mode cur with
    | some m =>
      let done := l.finishToken cur m
      .token done.2 modes (l.popsMode m.kind && modes.length ≤ 1) ::
        segments l text (l.switchModes m.kind modes) done.1
    | none =>
      let after := l.skip text mode cur c cs
      .skipped (.unexpected after.2 cur.offset (Cursor.shown l.config cur.position)) ::
        if l.config.recovery then segments l text modes after.1 else []
termination_by cur.rest.length
decreasing_by
  · have := length_rest_of_matchIn _hm
    simpa using this
  · have := length_rest_skip l text (l.mode (modes.headD 0)) cur c cs
    simp only [_hr, List.length_cons]
    omega

def group (l : Lexer) (t : Token) : Group := ((l.type? t.kind).map (·.group)).getD .default

namespace Segment

def token? : Segment → Option Token
  | .token t _ _ => some t
  | .skipped _ => none

def error? (l : Lexer) : Segment → Option LexicalError
  | .token t _ stuck =>
    if stuck then some (.emptyModeStack (l.vocabulary.name t.kind) t.span t.start) else none
  | .skipped error => some error

end Segment

def tokensIn (l : Lexer) (g : Group) (segments : List Segment) : List Token :=
  (segments.filterMap Segment.token?).filter fun t => l.group t = g

def groupNames (l : Lexer) (segments : List Segment) : List String :=
  ((segments.filterMap Segment.token?).filterMap fun t =>
    match l.group t with
    | .named name => some name
    | _ => none).eraseDups

def resultOf (l : Lexer) (segments : List Segment) : LexResult :=
  { tokens := l.tokensIn .default segments
    groups := (l.groupNames segments).map fun name => (name, l.tokensIn (.named name) segments)
    errors := segments.filterMap (Segment.error? l) }

def run (l : Lexer) (text : List Char) (mode : Nat) : LexResult :=
  let bytes := Text.byteLength text
  if LexicalError.maxBytes < bytes then ⟨[], [], [.inputTooLarge bytes]⟩
  else l.resultOf (l.segments text [mode] (.start text))

def tokenize (l : Lexer) (text : String) : LexResult := l.run text.toList l.defaultMode

/-- Tokenizes a text from a mode on, if there is one of that name. -/
def tokenizeIn? (l : Lexer) (text mode : String) : Option LexResult :=
  (l.modeIndex? mode).map (l.run text.toList)

end Lexer

end PredictiveParsing
