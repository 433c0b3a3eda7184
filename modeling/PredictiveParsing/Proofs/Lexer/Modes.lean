import PredictiveParsing.Proofs.Lexer.Groups

/-!
# Modes follow a stack

The mode in force is the top of a stack. A token of a type that pops leaves it, unless it is the
only one; a token of a type that pushes then enters the first mode of that name. What a lexer checks
of its definition is what keeps this going: the names that are pushed are those of modes, and the
types preferred for longer matches are in every mode that lists the type.
-/

namespace PredictiveParsing

/-! ## Stacks of modes -/

inductive Leaves (type : TokenType) : List Nat → List Nat → Prop
  | pops {stack : List Nat} (hPop : type.popMode = true) (hDepth : 1 < stack.length) :
    Leaves type stack stack.tail
  | stays {stack : List Nat} (h : ¬ (type.popMode = true ∧ 1 < stack.length)) :
    Leaves type stack stack

/-- Whether a token of a type enters a mode: the first one with the name that it pushes. -/
inductive Enters (d : LexerDefinition) (type : TokenType) : List Nat → List Nat → Prop
  | pushes {stack : List Nat} {name : String} {index : Nat} {types : List TypeId}
    (hPush : type.pushMode = some name) (hMode : d.modes[index]? = some (name, types))
    (hFirst : ∀ i < index, ∀ types, d.modes[i]? ≠ some (name, types)) :
    Enters d type stack (index :: stack)
  | stays {stack : List Nat} (hPush : type.pushMode = none) : Enters d type stack stack

inductive Stacks (v : Vocabulary) (d : LexerDefinition) : List Nat → List Token → List Nat → Prop
  | none {stack : List Nat} : Stacks v d stack [] stack
  | token {stack left entered behind : List Nat} {t : Token} {type : TokenType}
    {tokens : List Token} (hType : v.type? t.kind = some type) (hLeave : Leaves type stack left)
    (hEnter : Enters d type left entered) (hBehind : Stacks v d entered tokens behind) :
    Stacks v d stack (t :: tokens) behind

variable {v : Vocabulary} {d : LexerDefinition} {config : LexerConfig} {type : TokenType}
  {stack left left' entered entered' behind other : List Nat} {tokens : List Token}

theorem Leaves.unique (h : Leaves type stack left) (h' : Leaves type stack left') :
    left' = left := by
  cases h with
  | pops hPop hDepth =>
    cases h' with
    | pops => rfl
    | stays hStay => exact absurd ⟨hPop, hDepth⟩ hStay
  | stays hStay =>
    cases h' with
    | pops hPop hDepth => exact absurd ⟨hPop, hDepth⟩ hStay
    | stays => rfl

theorem Enters.unique (h : Enters d type left entered) (h' : Enters d type left entered') :
    entered' = entered := by
  cases h with
  | @pushes name index types hPush hMode hFirst =>
    cases h' with
    | @pushes name' index' types' hPush' hMode' hFirst' =>
      obtain rfl : name = name' := Option.some.inj (hPush.symm.trans hPush')
      obtain hLt | rfl | hGt := Nat.lt_trichotomy index index'
      · exact absurd hMode (hFirst' index hLt types)
      · rfl
      · exact absurd hMode' (hFirst index' hGt types')
    | stays hNone => exact absurd (hPush.symm.trans hNone) (by simp)
  | stays hNone =>
    cases h' with
    | pushes hPush => exact absurd (hPush.symm.trans hNone) (by simp)
    | stays => rfl

theorem Stacks.unique (h : Stacks v d stack tokens behind) (h' : Stacks v d stack tokens other) :
    other = behind := by
  induction h with
  | none =>
    cases h'
    rfl
  | token hType hLeave hEnter hBehind ih =>
    cases h' with
    | token hType' hLeave' hEnter' hBehind' =>
      obtain rfl := Option.some.inj (hType.symm.trans hType')
      obtain rfl := hLeave.unique hLeave'
      obtain rfl := hEnter.unique hEnter'
      exact ih hBehind'

def LexerDefinition.IsStack (d : LexerDefinition) (stack : List Nat) : Prop :=
  stack ≠ [] ∧ ∀ index ∈ stack, index < d.modes.length

theorem Leaves.isStack (h : Leaves type stack left) (hStack : d.IsStack stack) :
    d.IsStack left := by
  cases h with
  | pops hPop hDepth =>
    refine ⟨?_, fun index hIndex => hStack.2 index (List.mem_of_mem_tail hIndex)⟩
    apply List.ne_nil_of_length_pos
    rw [List.length_tail]
    omega
  | stays => exact hStack

theorem Enters.isStack (h : Enters d type left entered) (hStack : d.IsStack left) :
    d.IsStack entered := by
  cases h with
  | @pushes name index types hPush hMode hFirst =>
    obtain ⟨hIndex, -⟩ := List.getElem?_eq_some_iff.mp hMode
    exact ⟨List.cons_ne_nil _ _, List.forall_mem_cons.mpr ⟨hIndex, hStack.2⟩⟩
  | stays => exact hStack

theorem Stacks.isStack (h : Stacks v d stack tokens behind) (hStack : d.IsStack stack) :
    d.IsStack behind := by
  induction h with
  | none => exact hStack
  | token hType hLeave hEnter hBehind ih => exact ih (hEnter.isStack (hLeave.isStack hStack))

theorem LexerDefinition.exists_of_modeIndex? {name : String} {index : Nat}
    (h : d.modeIndex? name = some index) : ∃ types, d.modes[index]? = some (name, types) ∧
      ∀ i < index, ∀ types, d.modes[i]? ≠ some (name, types) := by
  obtain ⟨hLt, hName, hFirst⟩ := List.findIdx?_eq_some_iff_getElem.mp h
  refine ⟨d.modes[index].2, ?_, ?_⟩
  · rw [List.getElem?_eq_getElem hLt, ← beq_iff_eq.mp hName]
    rfl
  · intro i hi types hMode
    obtain ⟨hBefore, hEntry⟩ := List.getElem?_eq_some_iff.mp hMode
    exact hFirst i hi (by simp [hEntry])

namespace DispatchTable

theorem mem_of_mem_foldl {α : Type} (key : α → TypeId) {step : List TypeId → α → List TypeId}
    {found : List TypeId} {xs : List α} {id : TypeId}
    (h : ∀ found x, ∀ id ∈ step found x, id ∈ found ∨ id = key x)
    (hMem : id ∈ xs.foldl step found) : id ∈ found ∨ id ∈ xs.map key := by
  induction xs generalizing found with
  | nil => exact .inl hMem
  | cons x xs ih =>
    rw [List.map_cons, List.mem_cons]
    rcases ih hMem with hStep | hLater
    · exact (h found x id hStep).imp_right .inl
    · exact .inr (.inr hLater)

theorem mem_of_mem_candidatesIn {types : List (TypeId × FirstChars)} {b : Nat} {id : TypeId}
    (h : id ∈ candidatesIn types b) : id ∈ types.map Prod.fst := by
  refine (mem_of_mem_foldl Prod.fst (fun found entry id hStep => ?_) h).resolve_left
    List.not_mem_nil
  obtain ⟨other, first⟩ := entry
  have hAdded (hMem : id ∈ found ++ [other]) : id ∈ found ∨ id = other :=
    (List.mem_append.mp hMem).imp_right List.mem_singleton.mp
  cases first with
  | any => exact hAdded hStep
  | among set =>
    dsimp only at hStep
    split at hStep
    · exact hAdded hStep
    · exact .inl hStep

end DispatchTable

def LexicalError.emptyModeStack? : LexicalError → Option Span
  | .emptyModeStack _ span _ => some span
  | _ => none

namespace Lexer

variable {l : Lexer} {text : List Char} {cur : Cursor} {m : Match} {id : TypeId} {modes : List Nat}

/-! ## What is checked of a definition -/

theorem isSome_modeIndex? [RegexLibrary] (h : build v d config = .ok l) (hUsed : id ∈ d.used)
    (hType : v.type? id = some type) {name : String} (hPush : type.pushMode = some name) :
    (d.modeIndex? name).isSome = true := by
  obtain ⟨hErrors, -⟩ := eq_of_build h
  have hChecked := List.flatMap_eq_nil_iff.mp (List.append_eq_nil_iff.mp hErrors).2 type
    (List.mem_filterMap.mpr ⟨id, hUsed, hType⟩)
  have hNone := (List.append_eq_nil_iff.mp hChecked).2
  by_contra hMissing
  simp [pushErrors, hPush, hMissing] at hNone

theorem mem_types_of_longer [RegexLibrary] (h : build v d config = .ok l) {name : String} {types : List TypeId}
    (hMode : (name, types) ∈ d.modes) (hMem : id ∈ types) {longer : TypeId}
    (hLonger : longer ∈ l.longer id) : longer ∈ types := by
  obtain ⟨hErrors, rfl⟩ := eq_of_build h
  have hChecked := (List.append_eq_nil_iff.mp (List.append_eq_nil_iff.mp hErrors).1).2
  have hType := List.flatMap_eq_nil_iff.mp (List.flatMap_eq_nil_iff.mp hChecked _ hMode) id hMem
  by_contra hMissing
  have hNone := List.filterMap_eq_nil_iff.mp hType longer hLonger
  rw [if_neg (by simpa using hMissing)] at hNone
  cases hNone

theorem modeIndex?_of_build [RegexLibrary] (h : build v d config = .ok l) (name : String) :
    l.modeIndex? name = d.modeIndex? name := by
  obtain ⟨-, rfl⟩ := eq_of_build h
  rw [modeIndex?, List.findIdx?_map]
  rfl

theorem mode_of_build [RegexLibrary] (h : build v d config = .ok l) {index : Nat} {name : String}
    {types : List TypeId} (hMode : d.modes[index]? = some (name, types)) :
    l.mode index = buildMode l.compiled name types := by
  obtain ⟨-, rfl⟩ := eq_of_build h
  rw [mode, List.getD_eq_getElem?_getD, List.getElem?_map, hMode]
  rfl

theorem isStack_start [RegexLibrary] (h : build v d config = .ok l) {start : Nat}
    (hStart : start = l.defaultMode ∨ ∃ name, l.modeIndex? name = some start) :
    d.IsStack [start] := by
  have hFound {name : String} {index : Nat} (hIndex : d.modeIndex? name = some index) :
      d.IsStack [index] := by
    obtain ⟨types, hMode, -⟩ := LexerDefinition.exists_of_modeIndex? hIndex
    obtain ⟨hLt, -⟩ := List.getElem?_eq_some_iff.mp hMode
    exact ⟨List.cons_ne_nil _ _, List.forall_mem_singleton.mpr hLt⟩
  rcases hStart with rfl | ⟨name, hName⟩
  · obtain ⟨hErrors, rfl⟩ := eq_of_build h
    have hNaming := (List.append_eq_nil_iff.mp (List.append_eq_nil_iff.mp hErrors).1).1
    have hDefault := (List.append_eq_nil_iff.mp hNaming).2
    split at hDefault
    · next index hIndex =>
      dsimp only
      rw [hIndex]
      exact hFound hIndex
    · cases hDefault
  · rw [modeIndex?_of_build h] at hName
    exact hFound hName

/-! ## Tokens switch modes -/

theorem exists_enters [RegexLibrary] (h : build v d config = .ok l) (hUsed : id ∈ d.used)
    (hType : v.type? id = some type) (modes : List Nat) :
    ∃ left, Leaves type modes left ∧ Enters d type left (l.switchModes id modes) := by
  have hPops : l.popsMode id = type.popMode := by
    obtain ⟨-, rfl⟩ := eq_of_build h
    rw [popsMode, Lexer.type?, hType]
    rfl
  have hPushes : l.pushTarget? id = type.pushMode.bind d.modeIndex? := by
    have hSame := funext (modeIndex?_of_build h)
    rw [← hSame]
    obtain ⟨-, rfl⟩ := eq_of_build h
    simp only [pushTarget?, Lexer.type?, hType, Option.bind_eq_bind, Option.bind_some]
  rw [switchModes, hPops, hPushes]
  refine ⟨if type.popMode && 1 < modes.length then modes.tail else modes, ?_, ?_⟩
  · split
    · next hLeft =>
      rw [Bool.and_eq_true, decide_eq_true_eq] at hLeft
      exact .pops hLeft.1 hLeft.2
    · next hKept =>
      rw [Bool.and_eq_true, decide_eq_true_eq] at hKept
      exact .stays hKept
  · cases hPush : type.pushMode with
    | none => exact .stays hPush
    | some name =>
      obtain ⟨index, hIndex⟩ :=
        Option.isSome_iff_exists.mp (isSome_modeIndex? h hUsed hType hPush)
      obtain ⟨types, hMode, hFirst⟩ := LexerDefinition.exists_of_modeIndex? hIndex
      rw [Option.bind_some, hIndex]
      exact .pushes hPush hMode hFirst

theorem stacks_of_used [RegexLibrary] (h : build v d config = .ok l)
    (hTokens : ∀ t ∈ tokens, t.kind ∈ d.used ∧ ∃ type, v.type? t.kind = some type)
    (modes : List Nat) :
    Stacks v d modes tokens (tokens.foldl (fun modes t => l.switchModes t.kind modes) modes) := by
  induction tokens generalizing modes with
  | nil => exact .none
  | cons t tokens ih =>
    obtain ⟨⟨hUsed, type, hType⟩, hTokens⟩ := List.forall_mem_cons.mp hTokens
    obtain ⟨left, hLeave, hEnter⟩ := exists_enters h hUsed hType modes
    exact .token hType hLeave hEnter (ih hTokens _)

theorem stacks_of_cut [RegexLibrary] (h : build v d config = .ok l) {start : Nat} {before after : List Segment}
    (hCut : l.cut text start = before ++ after) :
    Stacks v d [start] (before.filterMap Segment.token?) (l.modesBehind [start] before) := by
  refine stacks_of_used h (fun t ht => ?_) [start]
  obtain ⟨s, hs, hToken⟩ := List.mem_filterMap.mp ht
  have hMem : s ∈ l.cut text start := hCut ▸ List.mem_append_left after hs
  obtain ⟨-, hUsed, type, hType, -⟩ :=
    mem_used_of_makes h (makes_of_mem_segments s hMem t hToken)
  exact ⟨hUsed, type, hType⟩

/-! ## The type of a token is in its mode -/

theorem kind_mem_of_matchIn [RegexLibrary] (h : build v d config = .ok l) {index : Nat} {name : String}
    {types : List TypeId} (hMode : d.modes[index]? = some (name, types))
    (hMatch : l.matchIn text (l.mode index) cur = some m) : m.kind ∈ types := by
  rw [mode_of_build h hMode] at hMatch
  unfold matchIn at hMatch
  split at hMatch
  · cases hMatch
  · obtain ⟨found, hFound, rfl⟩ := Option.map_eq_some_iff.mp hMatch
    obtain ⟨id, hId, hTried⟩ := List.exists_of_findSome?_eq_some hFound
    -- A table only lists types of its mode, and the types preferred for longer matches are in it.
    have hMem : found.kind ∈ types := by
      rw [(tryMatch_eq_some hTried).1]
      rw [buildMode, DispatchTable.candidates_build] at hId
      obtain ⟨entry, hEntry, rfl⟩ :=
        List.mem_map.mp (DispatchTable.mem_of_mem_candidatesIn hId)
      obtain ⟨id, hDeclared, hCompiled⟩ := List.mem_filterMap.mp hEntry
      obtain ⟨compiled, -, rfl⟩ := Option.map_eq_some_iff.mp hCompiled
      exact hDeclared
    rcases l.preferLonger_cases text cur found with hSame | ⟨longer, hLonger, hPreferred⟩
    · rw [hSame]
      exact hMem
    · rw [(tryMatch_eq_some hPreferred).1]
      exact mem_types_of_longer h (List.mem_of_getElem? hMode) hMem hLonger

/-! ## Runs -/

def Segment.popsLast? (v : Vocabulary) : Segment → Option Span
  | .token t modes _ =>
    if (v.type? t.kind).any (·.popMode) && modes.length == 1 then some t.span else none
  | .skipped _ => none

/-- The modes of a run are kept on a stack. Its pieces are taken with skipped tokens among them. -/
structure KeepsStack (l : Lexer) (v : Vocabulary) (d : LexerDefinition) (text : List Char)
    (start : Nat) : Prop where
  /-- At every place there is one stack that the tokens before it make. -/
  stack : ∀ before after, l.cut text start = before ++ after →
    ∃ modes, d.IsStack modes ∧ Stacks v d [start] (before.filterMap Segment.token?) modes ∧
      ∀ other, Stacks v d [start] (before.filterMap Segment.token?) other → other = modes
  /-- Tokens are what the mode on top matches, of one of its types. -/
  inForce : ∀ before t modes stuck after,
    l.cut text start = before ++ .token t modes stuck :: after →
      Stacks v d [start] (before.filterMap Segment.token?) modes ∧
        ∃ top below name types, modes = top :: below ∧ d.modes[top]? = some (name, types) ∧
          t.kind ∈ types ∧ ∃ (cur : Cursor) (m : Match), cur.IsAt text ∧
            l.matchIn text (l.mode top) cur = some m ∧ t = (l.finishToken cur m).2
  errors : (l.run text start).errors.filterMap LexicalError.emptyModeStack? =
    if LexicalError.maxBytes < Text.byteLength text then []
    else (l.cut text start).filterMap (Segment.popsLast? v)

section Run

variable [RegexLibrary] {start : Nat} {before after : List Segment} {t : Token} {stuck : Bool}
  (h : build v d config = .ok l) (hStart : d.IsStack [start])
include h hStart

theorem exists_finishToken (hCut : l.cut text start = before ++ .token t modes stuck :: after) :
    Stacks v d [start] (before.filterMap Segment.token?) modes ∧ d.IsStack modes ∧
      ∃ (cur : Cursor) (m : Match), cur.IsAt text ∧
        l.matchIn text (l.mode (modes.headD 0)) cur = some m ∧ t = (l.finishToken cur m).2 ∧
        stuck = (l.popsMode t.kind && modes.length ≤ 1) := by
  have hStacks := stacks_of_cut h hCut
  obtain ⟨cur, hAt, hHere⟩ := exists_at_of_cut hCut
  cases hHere with
  | @token _ _ m _ hMatch hBehind =>
    exact ⟨hStacks, hStacks.isStack hStart, cur, m, hAt, hMatch, rfl, rfl⟩

theorem error?_bind_emptyModeStack? {s : Segment} (hs : s ∈ l.cut text start) :
    (s.error? l).bind LexicalError.emptyModeStack? = s.popsLast? v := by
  obtain ⟨before, after, hCut⟩ := List.append_of_mem hs
  cases s with
  | token t modes stuck =>
    obtain ⟨-, ⟨hSome, -⟩, cur, m, -, -, -, hStuck⟩ := exists_finishToken h hStart hCut
    have hPops : l.popsMode t.kind = (v.type? t.kind).any (·.popMode) := by
      obtain ⟨-, rfl⟩ := eq_of_build h
      rw [popsMode, Lexer.type?]
      cases v.type? t.kind <;> rfl
    have hDepth : (modes.length == 1) = decide (modes.length ≤ 1) := by
      have hPos := List.length_pos_of_ne_nil hSome
      rw [Bool.eq_iff_iff, beq_iff_eq, decide_eq_true_eq]
      omega
    rw [Segment.popsLast?, ← hPops, hDepth, ← hStuck, Segment.error?]
    cases stuck <;> rfl
  | skipped e =>
    obtain ⟨cur, hAt, hHere⟩ := exists_at_of_cut hCut
    cases hHere with
    | skipped => rfl
    | stopped => rfl

end Run

/-- From the default mode or from a named one on, the modes of a run follow a stack. -/
theorem run_keeps_stack [RegexLibrary] (h : build v d config = .ok l) {start : Nat}
    (hStart : start = l.defaultMode ∨ ∃ name, l.modeIndex? name = some start)
    (text : List Char) : l.KeepsStack v d text start := by
  have hFirst := isStack_start h hStart
  constructor
  case stack =>
    intro before after hCut
    have hStacks := stacks_of_cut h hCut
    exact ⟨_, hStacks.isStack hFirst, hStacks, fun other hOther => hStacks.unique hOther⟩
  case inForce =>
    intro before t modes stuck after hCut
    obtain ⟨hStacks, ⟨hSome, hValid⟩, cur, m, hAt, hMatch, hToken, -⟩ :=
      exists_finishToken h hFirst hCut
    obtain ⟨top, below, rfl⟩ := List.exists_cons_of_ne_nil hSome
    obtain ⟨⟨name, types⟩, hMode⟩ : ∃ declared, d.modes[top]? = some declared :=
      ⟨_, List.getElem?_eq_getElem (hValid top List.mem_cons_self)⟩
    refine ⟨hStacks, top, below, name, types, rfl, hMode, ?_, cur, m, hAt, hMatch, hToken⟩
    rw [hToken]
    exact kind_mem_of_matchIn h hMode hMatch
  case errors =>
    split
    next hLarge => rw [run, if_pos hLarge]; rfl
    next hSize =>
      rw [(run_tiles l (Nat.le_of_not_lt hSize) start).result, resultOf, List.filterMap_filterMap]
      exact List.filterMap_congr fun s hs => error?_bind_emptyModeStack? h hFirst hs

namespace Nested

/-- Brackets with a mode of their own, and words, of which longer ones are preferred. -/
def types : List TokenType :=
  [{ TokenType.literal "Open" "(" with pushMode := some "inner" },
    { TokenType.literal "Close" ")" with popMode := true }, .literal "Long" "abc",
    { TokenType.literal "Word" "ab" with longer := [3] }]

/-- There are two modes of one name, of which only the first one can be entered. -/
def definition : LexerDefinition :=
  ⟨[("outer", [1, 2, 4, 3]), ("inner", [2, 1]), ("inner", [4, 3])], "outer"⟩

def brackets : List Char := "()abc)".toList

theorem custom_startsAsStated : ∀ id ∈ definition.used, ∀ type,
    (Vocabulary.ofTypes types).type? id = some type →
      ∀ p, type.pattern = .custom p → p.StartsAsStated := by
  have hUsed : definition.used = [1, 2, 4, 3] := by decide
  rw [hUsed]
  simp only [List.forall_mem_cons]
  refine ⟨?_, ?_, ?_, ?_, fun id hNone => absurd hNone List.not_mem_nil⟩
  · rintro type ⟨⟩ p ⟨⟩
  · rintro type ⟨⟩ p ⟨⟩
  · rintro type ⟨⟩ p ⟨⟩
  · rintro type ⟨⟩ p ⟨⟩

end Nested

/-- The second closing bracket finds one mode on the stack. -/
theorem run_keeps_stack_brackets : ∃ l,
    build (.ofTypes Nested.types) Nested.definition {} = .ok l ∧
      (l.run Nested.brackets l.defaultMode).tokens.map (·.kind) = [1, 2, 3, 2] ∧
      (l.run Nested.brackets l.defaultMode).errors.filterMap LexicalError.emptyModeStack? =
        [⟨5, 6⟩] ∧
      l.KeepsStack (.ofTypes Nested.types) Nested.definition Nested.brackets l.defaultMode := by
  obtain ⟨l, hBuild, hRun⟩ :
      ∃ l, build (.ofTypes Nested.types) Nested.definition {} = .ok l ∧
        ((l.undispatched.run Nested.brackets l.defaultMode).tokens.map (·.kind) == [1, 2, 3, 2] &&
          (l.undispatched.run Nested.brackets l.defaultMode).errors.filterMap
            LexicalError.emptyModeStack? == [⟨5, 6⟩]) = true :=
    exists_of_build _ (by decide +kernel)
  have hStarts := dispatchesByStart_of_lawful Regex.library_lawful hBuild
    Nested.custom_startsAsStated
  rw [run_undispatched hStarts, Bool.and_eq_true, beq_iff_eq, beq_iff_eq] at hRun
  exact ⟨l, hBuild, hRun.1, hRun.2, run_keeps_stack hBuild (.inl rfl) Nested.brackets⟩

end Lexer

end PredictiveParsing
