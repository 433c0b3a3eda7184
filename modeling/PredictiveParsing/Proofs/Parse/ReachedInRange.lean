import PredictiveParsing.Proofs.Parse.InRange
import PredictiveParsing.Proofs.Parse.Reached

/-!
# Everything a parse comes to is in range

No job begins behind the end of the input, whether or not the parse ends. So the tokens that
recovery takes, be it to end a rule, to resume a repetition or to get to its next iteration, lie
between two places of the text.
-/

namespace PredictiveParsing

variable {α : Type}

namespace Parse

def Input.ConfinesJob (i : Input α) : Job α → Prop
  | .body ops => i.Confines ops
  | .op op => i.Confines [op]
  | .loop loop _ | .iteration loop => loop.separator ≠ some Vocabulary.eof ∧ i.Confines loop.body
  | .invoke _ _ | .trial _ | .gate _ | .gates _ => True

/-- A state in range, and so are all tokens that recovery can take from there. -/
structure TakesInRange (i : Input α) (s : State) : Prop where
  position : s.position ≤ i.tokens.size
  rule : ∀ {index}, i.resyncPlace? s.markRecovered (i.tokens.size + 1) s.position = some index →
    s.position ≤ index ∧ index ≤ i.tokens.size
  repetition : ∀ {exits decision separator index resumes},
    i.resumePlace? s exits decision separator (i.tokens.size + 1) s.position =
      some (index, resumes) → s.position ≤ index ∧ index ≤ i.tokens.size
  iteration : ∀ {exits decision separator index resumes},
    i.skipPlace? s exits decision separator (i.tokens.size + 1) (s.position + 1) =
      some (index, resumes) → s.position ≤ index ∧ index ≤ i.tokens.size

variable {i : Input α} {start : RuleId} {x y : Job α} {s t : State}

theorem InRange.takes (h : InRange i s) : TakesInRange i s where
  position := h
  rule hPlace := ⟨Input.le_of_resyncPlace? hPlace, le_size_of_resyncPlace? h hPlace⟩
  repetition hPlace :=
    ⟨(Input.resumePlace?_cases hPlace).1, Nat.le_of_lt (lt_size_of_resumePlace? hPlace)⟩
  iteration hPlace :=
    ⟨Nat.le_of_succ_le (Input.le_of_skipPlace? hPlace), Nat.le_of_lt (lt_size_of_skipPlace? hPlace)⟩

variable [Inhabited α]

theorem Leads.inRange (hi : i.IsConfined) (h : Leads i x s y t) (hx : i.ConfinesJob x)
    (hs : InRange i s) : i.ConfinesJob y ∧ InRange i t := by
  cases h with
  | firstOp => exact ⟨hx.cons.1, hs⟩
  | @laterOps op _ _ fuel a _ _ hRun =>
    have hSafe := (safeWithin hi fuel).op op a s hx.cons.1 hs
    rw [hRun] at hSafe
    exact ⟨hx.cons.2, hSafe⟩
  | option => exact ⟨hx.option, hs⟩
  | repetition => exact ⟨hx.repetition, hs⟩
  | @branch _ branches _ _ fuel _ _ _ hGates hBranch =>
    have hSafe := (safeWithin hi fuel).gates (branches.map (·.gate)) s hs
    rw [hGates] at hSafe
    exact ⟨hx.branch (Input.mem_of_branchAt? hBranch), hSafe⟩
  | whenParsing => exact ⟨hx.whenParsing, hs⟩
  | attempt => cases hx.propagates_op
  | @invoke rule => exact ⟨hi.confines_body rule, hs⟩
  | firstIteration => exact ⟨hx, hs⟩
  | laterIteration hAgain => exact ⟨hx, hs.consumeSeparator hi.atEnd hx.1 hAgain⟩
  | @skip loop _ _ hEnd hSkip =>
    have hIn := hs.skipToNextIteration loop.key (i.decisionAt? loop.key) loop.separator
    rw [hSkip] at hIn
    exact ⟨hx, hIn⟩
  | iteration => exact ⟨hx.2, hs⟩
  | @again loop _ fuel a _ _ hRun hMoved =>
    have hSafe := (safeWithin hi fuel).body loop.body a s hx.2 hs
    rw [hRun] at hSafe
    exact ⟨hx, hSafe⟩
  | @resume loop _ fuel a e _ t _ hRun hResume hMoved =>
    have hSafe := (safeWithin hi fuel).body loop.body a s hx.2 hs
    rw [hRun] at hSafe
    have hIn := InRange.resumeRepetition hSafe loop.key (i.decisionAt? loop.key) loop.separator e
    rw [hResume] at hIn
    exact ⟨hx, hIn⟩
  | @secondGate first _ _ fuel _ hRun =>
    have hSafe := (safeWithin hi fuel).gate first s hs
    rw [hRun] at hSafe
    exact ⟨trivial, hSafe⟩
  | @laterGates gate _ _ fuel _ _ hRun =>
    have hSafe := (safeWithin hi fuel).gate gate s hs
    rw [hRun] at hSafe
    exact ⟨trivial, hSafe⟩
  | subrule | gates | trial | tried | trialGate | negated | firstGate | ungated | gated =>
    exact ⟨trivial, hs⟩

theorem Reached.inRange (hi : i.IsConfined) (h : Reached i start x s) :
    i.ConfinesJob x ∧ InRange i s := by
  induction h with
  | start => exact ⟨hi.confines_body start, Nat.zero_le _⟩
  | next h hLeads ih => exact hLeads.inRange hi ih.1 ih.2

/-- A body that a parse comes to ends in range, and an error that interrupts it is one of those
reported. -/
theorem Reached.body_inRange (hi : i.IsConfined) {ops : List (Op α)}
    (h : Reached i start (.body ops) s) (fuel : Nat) (a : α) :
    (i.runBody fuel ops a s).Ends (TakesInRange i)
      fun e t => TakesInRange i t ∧ e < t.errors.length := by
  obtain ⟨hOps, hs⟩ := h.inRange hi
  have hSafe := (safeWithin hi fuel).body ops a s hOps hs
  have hFrame := (frame_runs i fuel).body ops a s
  cases hRun : i.runBody fuel ops a s with
  | done b t =>
    rw [hRun] at hSafe
    exact InRange.takes hSafe
  | interrupted e b t =>
    rw [hRun] at hSafe hFrame
    exact ⟨InRange.takes hSafe, hFrame.2.2⟩
  | panicked why => trivial
  | outOfFuel => trivial

end Parse

variable [Inhabited α]

/-- Whatever a parse comes to is in range, tokens that recovery takes included, and no parse panics,
if the end of the input is no separator and recovery does not expect it. -/
theorem parse_stays_in_range {types : List TokenType} {bodies : List (RuleBody α)}
    {config : ParserConfig} {g : Grammar α}
    (hCompile : Grammar.compile (.ofTypes types) bodies config = .ok g)
    (hBodies : ∀ r ∈ bodies, r.IsFaithful)
    (hSeparators : AllRules (fun p => p.separator ≠ some Vocabulary.eof) g.rules)
    (hEnd : config.recovery = true → AllRules (fun p => p.isEnd = false) g.rules)
    (tokens : List Token) :
    let i : Parse.Input α := ⟨g, tokens.toArray⟩
    (∀ start x s, Parse.Reached i start x s → Parse.TakesInRange i s) ∧
      (∀ start ops s, Parse.Reached i start (.body ops) s → ∀ fuel a, (i.runBody fuel ops a s).Ends
        (Parse.TakesInRange i) fun e t => Parse.TakesInRange i t ∧ e < t.errors.length) ∧
      ∀ fuel start why, g.parseWithin fuel start tokens ≠ .panicked why := by
  have hConfined := Parse.Input.IsConfined.of_compile hCompile hBodies hSeparators hEnd
    tokens.toArray
  refine ⟨fun start x s hReached => (hReached.inRange hConfined).2.takes,
    fun start ops s hReached => hReached.body_inRange hConfined, fun fuel start why => ?_⟩
  exact parse_never_panics hCompile hBodies hSeparators hEnd fuel start tokens why

theorem parse_stays_in_range_broken : ∃ g,
    Grammar.compile (.ofTypes JsonText.types) JsonText.rules { recovery := true } = .ok g ∧
      (∀ x s, Parse.Reached ⟨g, JsonText.broken.toArray⟩ 0 x s → s.position ≤ 7) ∧
      ∀ fuel why, g.parseWithin fuel "json" JsonText.broken ≠ .panicked why := by
  obtain ⟨g, hCompile, hChecked⟩ := Grammar.exists_compiled
    (v := .ofTypes JsonText.types) (p := fun g =>
      decide (AllRules (fun p => p.separator ≠ some Vocabulary.eof) g.rules) &&
        decide (AllRules (fun p => p.isEnd = false) g.rules))
    (by decide +kernel : (Grammar.compile (.ofTypes JsonText.types) JsonText.rules
      { recovery := true }).toOption.any _ = true)
  simp only [Bool.and_eq_true, decide_eq_true_eq] at hChecked
  obtain ⟨hReached, -, hPanics⟩ := parse_stays_in_range hCompile JsonText.isFaithful hChecked.1
    (fun _ => hChecked.2) JsonText.broken
  exact ⟨g, hCompile, fun x s h => (hReached 0 x s h).position, fun fuel => hPanics fuel "json"⟩

end PredictiveParsing
