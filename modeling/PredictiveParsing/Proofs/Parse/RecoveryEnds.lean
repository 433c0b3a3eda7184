import PredictiveParsing.Proofs.Parse.Recovering

/-!
# Recovery comes to an end

Where one token of lookahead decides, a parse with recovery comes to an end. A rule that is called
where an error was repaired in place fits there, and reads a token before the next error. So the
rules that are called at one place are first any rules, in order, and from the first repair on rules
that fit, in order again.
-/

namespace PredictiveParsing

namespace Parse

open Structure

variable {α : Type} [Inhabited α] {i : Input α} {sources : List (RuleBody α)} {r id : RuleId}
  {s t : State} {n m : Nat} {k : List Production × Continuation} {occurrence : Nat}

/-! ## Repetitions -/

def NotBefore (i : Input α) (n : Nat) (t : State) : Prop := n ≤ t.position ∧ InRange i t

omit [Inhabited α] in
theorem NotBefore.of_le (h : NotBefore i m t) (hLe : n ≤ m) : NotBefore i n t :=
  ⟨Nat.le_trans hLe h.1, h.2⟩

section Operations

variable (h : i.IsDecisive sources)

include h

section Loops

variable {loop : Input.Loop α} (hLoop : i.LoopAt r k loop occurrence)

include hLoop

omit [Inhabited α] in
theorem enters_iff : i.enters s (i.decisionAt? loop.key) = true ↔
    i.BeginsAt (i.grammar.shape loop.body) s.position := by
  obtain ⟨decision, hDecision, hEnters⟩ :=
    h.compiled.enters_repetition_one h.oneToken hLoop.placed.site
  have hDecision : i.decisionAt? loop.key = some decision := by
    rw [hLoop.key]
    exact hDecision
  refine ⟨fun hEnter => ?_, enters_of_beginsAt h hDecision hEnters⟩
  exact (fits_of_enters h hDecision hEnters hEnter).resolve_right
    (h.compiled.not_nullable_iteration hLoop.placed.site)

omit [Inhabited α] in
theorem beginsAt_repetition : i.BeginsAt [.repetition loop.mandatory loop.separator
      (i.grammar.shape loop.body) occurrence] n ↔ i.BeginsAt (i.grammar.shape loop.body) n := by
  have hSolid := h.compiled.not_nullable_iteration hLoop.placed.site
  generalize i.grammar.shape loop.body = d at hSolid ⊢
  generalize loop.mandatory = mandatory
  constructor
  · intro hBegins
    obtain ⟨c, hExpands, hc⟩ := beginsWith_production.mp hBegins
    cases hExpands with
    | iteration =>
      rcases (beginsWith_append (c := [.sequence d])).mp hc with hBegins | ⟨hNull, -⟩
      · exact hBegins
      · exact absurd hNull hSolid
    | noIteration => exact absurd hc not_beginsWith_nil
  · intro hBegins
    exact beginsWith_production.mpr ⟨_, .iteration,
      (beginsWith_append (c := [.sequence d])).mpr (.inl hBegins)⟩

omit [Inhabited α] in
theorem not_beginsAt_of_skipped (hSkip : i.enters s (i.decisionAt? loop.key) = false) :
    ¬ i.BeginsAt [.repetition loop.mandatory loop.separator (i.grammar.shape loop.body) occurrence]
      s.position := by
  rw [beginsAt_repetition h hLoop, ← enters_iff h hLoop, hSkip]
  exact Bool.false_ne_true

omit [Inhabited α] in
theorem not_nullable_repetition (hMandatory : loop.mandatory = true) :
    ¬ Nullable i.grammar.rules [.sequence [.repetition loop.mandatory loop.separator
      (i.grammar.shape loop.body) occurrence]] := by
  have hSolid := h.compiled.not_nullable_iteration hLoop.placed.site
  intro hNull
  rw [hMandatory] at hNull
  obtain ⟨c, hExpands, hc⟩ := nullable_production.mp hNull
  cases hExpands with
  | iteration => exact hSolid (nullable_append (c := [.sequence _]).mp hc).1

variable (hAdmits : i.Admits loop.body)
  (hFree : Production.endFree (i.grammar.shape loop.body) = true)
  (hBody : BodyRecovers i loop.body)

include hAdmits hFree hBody

omit h in
/-- An iteration halts where its body has led to, if further ones behind it do. -/
theorem iteration_recovers (hPrepared : Prepared i s.position (i.grammar.shape loop.body))
    (hLater : ∀ a t, s.position < t.position → InRule i r t → InRange i t →
      Halts (fun fuel => i.runLoop fuel loop false a t) (NotBefore i t.position)
        fun _ => NotBefore i t.position)
    (hn : ∀ {m}, s.position ≤ m →
      (i.BeginsAt (i.grammar.shape loop.body) s.position → s.position < m) → n ≤ m)
    (a : α) (hs : InRule i r s) (hRange : InRange i s) :
    Halts (fun fuel => i.runIteration fuel loop a s) (NotBefore i n) fun _ => NotBefore i n := by
  have hGoesOn : ∀ {t}, s.position ≤ t.position → n ≤ t.position → Frame i s t → InRange i t →
      Halts.GoesOn i loop s.position (NotBefore i n) (fun _ => NotBefore i n) t := by
    intro t hLe hn hFrame ht
    unfold Halts.GoesOn
    split
    · exact ⟨hn, ht⟩
    · next hMoved =>
      have hLt : s.position < t.position := by omega
      exact fun b => (hLater b t hLt (hs.of_frame hFrame) ht).mono (fun _ hu => hu.of_le hn)
        fun _ _ hu => hu.of_le hn
  have hRun := (hBody a s hAdmits hLoop.placed.iteration hPrepared hs fun _ => hRange).and
    fun fuel => (frame_runs i fuel).body _ _ _
  refine .iteration (hRun.mono ?_ ?_)
  · rintro t ⟨ht, hFrame⟩
    exact hGoesOn ht.le (hn ht.le (ht.reads hFree)) hFrame (ht.inRange hFree hRange)
  · rintro e t ⟨ht, hStopped⟩
    have hTo : n ≤ t.position := hn ht.le ht.reads
    have hFrame := frame_preserved.resume hStopped loop.key (i.decisionAt? loop.key) loop.separator
    have hRange := (ht.inRange hRange).resumeRepetition loop.key (i.decisionAt? loop.key)
      loop.separator e
    rcases i.resumeRepetition_cases t loop.key (i.decisionAt? loop.key) loop.separator e with
      hRes | ⟨index, -, hLe, ⟨-, hRes⟩ | hRes⟩
    · rw [hRes] at hRange ⊢
      exact ⟨hTo, hRange⟩
    · rw [hRes] at hFrame hRange ⊢
      exact hGoesOn (Nat.le_trans ht.le hLe) (Nat.le_trans hTo hLe) hFrame hRange
    · rw [hRes] at hRange ⊢
      exact ⟨Nat.le_trans hTo hLe, hRange⟩

/-- Further iterations halt if all calls from here on do: each goes on behind where it began. -/
theorem iterations_recover (hSeparator : loop.separator ≠ some Vocabulary.eof)
    (hCalls : ∀ m ≥ s.position, ∀ id, CallsRecover i m id) (a : α) (hs : InRule i r s)
    (hRange : InRange i s) :
    Halts (fun fuel => i.runLoop fuel loop false a s) (NotBefore i s.position)
      fun _ => NotBefore i s.position := by
  induction hm : i.tokens.size - s.position using Nat.strong_induction_on generalizing a s with
  | _ m ih =>
    subst hm
    have hLater : ∀ a t, s.position < t.position → InRule i r t → InRange i t →
        Halts (fun fuel => i.runLoop fuel loop false a t) (NotBefore i t.position)
          fun _ => NotBefore i t.position := by
      intro a t hLt ht hIn
      have hLeft : i.tokens.size - t.position < i.tokens.size - s.position :=
        Nat.sub_lt_sub_left (Nat.lt_of_lt_of_le hLt hIn) hLt
      exact ih _ hLeft (fun m hm => hCalls m (Nat.le_trans (Nat.le_of_lt hLt) hm)) a ht hIn rfl
    refine .loop_later (fun hAgain => ?_) fun _ => ?_
    · have hLe : s.position ≤ (i.consumeSeparator s loop.separator).position := by
        cases loop.separator with
        | none => exact Nat.le_refl _
        | some token =>
          rw [Input.consumeSeparator, position_addToken]
          exact Nat.le_succ _
      exact iteration_recovers hLoop hAdmits hFree hBody
        (.of_calls fun m hm => hCalls m (Nat.le_trans hLe hm))
        (fun b t hLt => hLater b t (Nat.lt_of_le_of_lt hLe hLt))
        (fun hTo _ => Nat.le_trans hLe hTo) a (hs.of_frame (frame_consumeSeparator _))
        (hRange.consumeSeparator h.atEnd hSeparator hAgain)
    · have hFrame := frame_skipToNextIteration (i := i) (s := s) loop.key
        (i.decisionAt? loop.key) loop.separator
      have hIn := hRange.skipToNextIteration loop.key (i.decisionAt? loop.key) loop.separator
      rcases i.skipToNextIteration_cases s loop.key (i.decisionAt? loop.key) loop.separator with
        hSkip | ⟨exits, index, resumes, -, -, -, -, -, hLt, hSkip⟩
      · rw [hSkip, if_neg (by simp)]
        exact ⟨Nat.le_refl _, hRange⟩
      · rw [hSkip] at hFrame hIn ⊢
        have hTo : s.position ≤ index := Nat.le_of_lt hLt
        cases resumes with
        | true =>
          rw [if_pos rfl]
          exact (hLater a _ hLt (hs.of_frame hFrame) hIn).mono (fun _ hu => hu.of_le hTo)
            fun _ _ hu => hu.of_le hTo
        | false =>
          rw [if_neg (by simp)]
          exact ⟨hTo, hIn⟩

end Loops

theorem opRecovers_repetition {body : List (Op α)} {mandatory : Bool} {separator : Option TypeId}
    {act : α → α} (hBody : BodyRecovers i body) :
    OpRecovers i (.repetition mandatory separator occurrence body act) := by
  intro r k a s hAdmits hPlaced hPrepared hs hRange
  obtain ⟨hInner, hFree⟩ := hAdmits.repetition
  have hShape := i.grammar.shapeOf_repetition mandatory separator occurrence body act
  have hSeparator : separator ≠ some Vocabulary.eof := (hAdmits.production hShape).separator
  rw [hShape] at hPlaced hPrepared hRange ⊢
  have hRange := hRange (List.cons_ne_nil _ _)
  have hLoop : i.LoopAt r k ⟨s.key (.ofRepetition mandatory separator) occurrence, mandatory,
      separator, body⟩ occurrence := ⟨hs.key _ _, hPlaced, hInner.propagates⟩
  refine .repetition (.loop_first (fun hEnter => ?_) (fun hSkip hOptional => ?_)
    fun hSkip hMandatory _ => ?_)
  · have hBegins := (enters_iff h hLoop).mp hEnter
    have hBegins' := (beginsAt_repetition h hLoop).mpr hBegins
    have hNested : Prepared i s.position (i.grammar.shape body) :=
      hPrepared.nested (.inl hBegins) fun _ hId => by rwa [opening]
    refine (iteration_recovers hLoop hInner hFree hBody hNested (fun b t hLt ht hIn => ?_)
      (fun _ hReads => hReads hBegins) a hs hRange).mono
        (fun t ht => .of_begins hBegins' ht.1 ht.2) fun _ t ht => .of_begins hBegins' ht.1 ht.2
    exact iterations_recover h hLoop hInner hFree hBody hSeparator
      (fun m hm => hPrepared.later m (Nat.lt_of_lt_of_le hLt hm)) b ht hIn
  · obtain rfl : mandatory = false := hOptional
    exact .of_nullable (nullable_production.mpr ⟨_, .noIteration, nullable_nil⟩)
      (not_beginsAt_of_skipped h hLoop hSkip) rfl
  · have hNot := not_or.mpr
      ⟨not_beginsAt_of_skipped h hLoop hSkip, not_nullable_repetition h hLoop hMandatory⟩
    exact .of_not_fits hNot rfl

end Operations

/-! ## Rules -/

mutual

theorem bodyRecovers (h : i.IsDecisive sources) (ops : List (Op α)) : BodyRecovers i ops := by
  cases ops with
  | nil => exact bodyRecovers_nil
  | cons op ops => exact bodyRecovers_cons (opRecovers h op) (bodyRecovers h ops)

theorem opRecovers (h : i.IsDecisive sources) (op : Op α) : OpRecovers i op := by
  cases op with
  | consume occurrence token label act => exact opRecovers_consume h
  | subrule occurrence rule label act => exact opRecovers_subrule h
  | option occurrence body act => exact opRecovers_option h (bodyRecovers h body)
  | repetition mandatory separator occurrence body act =>
    exact opRecovers_repetition h (bodyRecovers h body)
  | choice occurrence branches act => exact opRecovers_choice h (branchesRecover h branches)
  | peek distance act =>
    exact opRecovers_of_none (Grammar.shapeOf_peek _ _ _) fun a s =>
      ⟨_, fun _ => by rw [Input.runOp]⟩
  | trial rule act => exact fun a s hAdmits => by cases hAdmits.trialFree
  | whenParsing body => exact opRecovers_whenParsing (bodyRecovers h body)
  | whenRecording body =>
    exact opRecovers_of_none (Grammar.shapeOf_whenRecording _ _) fun a s =>
      ⟨_, fun _ => by rw [Input.runOp]⟩
  | attempt body act => exact fun a s hAdmits => by cases hAdmits.propagates

theorem branchesRecover (h : i.IsDecisive sources) (branches : List (Branch (Op α))) :
    ∀ branch ∈ branches, BodyRecovers i branch.body := by
  cases branches with
  | nil => exact fun _ hBranch => by cases hBranch
  | cons branch rest =>
    obtain ⟨gate, body, ignore⟩ := branch
    exact List.forall_mem_cons.mpr ⟨bodyRecovers h body, branchesRecover h rest⟩

end

theorem bodyRecovers_rule (h : i.IsDecisive sources) (hRule : id < i.grammar.rules.length)
    (hPrepared : Prepared i s.position (definitionOf i.grammar.rules id)) (hs : InRule i id s)
    (hRange : InRange i s) :
    Halts (fun fuel => i.runBody fuel (i.grammar.body id) default s)
      (Passed i (definitionOf i.grammar.rules id) (fun _ => False) s.position)
      fun _ => Broken i (definitionOf i.grammar.rules id) s.position := by
  have hPlaced := Placed.definition hRule
  rw [h.faithful.definition] at hPlaced hPrepared ⊢
  refine (bodyRecovers h _ default s (h.admits_body id) hPlaced hPrepared hs fun _ => hRange).mono
    (fun t ht => ht.mono fun kind hBehind => ?_) fun _ _ hu => hu
  rcases (beginsWith_append (c := [.sequence []])).mp hBehind with hNone | ⟨-, hNone⟩
  · exact not_beginsWith_sequence_nil hNone
  · exact not_beginsWith_nil hNone

theorem callRecovers (h : i.IsDecisive sources)
    (hPrepared : Prepared i n (definitionOf i.grammar.rules id)) : CallsRecover i n id := by
  rintro occurrence label s hRule hFree hs hRange rfl
  have hEnter : InRule i id (i.enter s id occurrence) := ⟨hs.tidy.inside_enter id occurrence, rfl⟩
  have hBody := bodyRecovers_rule (s := i.enter s id occurrence) h hRule hPrepared hEnter hRange
  refine .invoke ((hBody.and fun fuel => (frame_runs i fuel).body _ _ _).mono ?_ ?_)
  · rintro t ⟨ht, -⟩
    exact (ht.mono fun _ => False.elim).congr (position_leave _ _)
  · rintro e t ⟨ht, hStopped⟩
    have ht : Broken i (definitionOf i.grammar.rules id) s.position t := ht
    have hIn := ht.inRange hRange
    have hMark := hStopped.markRecovered.1
    refine ⟨hIn.overrun?, ?_⟩
    rcases i.recoverRule_cases t e with ⟨index, hOn, hPlace, hRec⟩ | ⟨-, hCalls, -, -⟩ | ⟨-, hRec⟩
    · rw [hRec, if_pos rfl]
      have hLe := Input.le_of_resyncPlace? hPlace
      rw [State.markRecovered, position_updateNode] at hLe
      have hTo : (i.leave (t.markRecovered.resyncTo i e index) id label).position = index :=
        position_leave _ _
      refine .of_broken ht (hLe.trans_eq hTo.symm) ?_ fun hSame => ?_
      · exact InRange.leave (le_size_of_resyncPlace? hIn.markRecovered hPlace) id label
      · rw [← hSame, hTo, ← inCurrentFollow_congr hMark.calls]
        exact inCurrentFollow_of_resyncPlace? hPlace
    · exact absurd hCalls (hs.not_outermost hMark)
    · rw [hRec, if_neg (by simp)]
      exact ht.congr ((position_leave _ _).trans (position_updateNode _))

/-- A rule that fits recovers if all rules do at later places. What it calls in place fits too, and
comes before it in the order of the rules. -/
theorem callRecovers_of_fits (h : i.IsDecisive sources)
    (hLater : ∀ m > n, ∀ id, CallsRecover i m id) (id : RuleId)
    (hFits : i.Fits (definitionOf i.grammar.rules id) n) : CallsRecover i n id := by
  have hOrdered := isOrdered_of_leftRecursions (List.append_eq_nil_iff.mp h.compiled.sound).1 id
  induction hOrdered with
  | intro id _ ihBefore =>
    refine callRecovers h ⟨hLater, fun q hq hFits' => ?_, .inl hFits⟩
    exact fun occurrence label s hRule =>
      ihBefore q (mem_openingRules.mpr ⟨hRule, hq⟩) hFits' occurrence label s hRule

theorem callsRecover (h : i.IsDecisive sources) (n : Nat) : ∀ id, CallsRecover i n id := by
  induction hm : i.tokens.size - n using Nat.strong_induction_on generalizing n with
  | _ m ih =>
    subst hm
    have hLater : ∀ m > n, ∀ id, CallsRecover i m id := by
      intro m hLt id occurrence label s hRule hFree hs hRange hs'
      have hIn : m ≤ i.tokens.size := hs' ▸ hRange
      exact ih _ (Nat.sub_lt_sub_left (Nat.lt_of_lt_of_le hLt hIn) hLt) m rfl id occurrence label s
        hRule hFree hs hRange hs'
    have hFitting := callRecovers_of_fits h hLater
    intro id
    have hOrdered := isOrdered_of_leftRecursions (List.append_eq_nil_iff.mp h.compiled.sound).1 id
    induction hOrdered with
    | intro id _ ihBefore =>
      refine callRecovers h ⟨hLater, fun q _ => hFitting q, .inr ⟨fun q hq => ?_, hFitting⟩⟩
      exact fun occurrence label s hRule =>
        ihBefore q (mem_openingRules.mpr ⟨hRule, hq⟩) occurrence label s hRule

theorem parseFrom_recovers (h : i.IsDecisive sources) {rule : RuleId}
    (hRule : rule < i.grammar.rules.length) :
    ∃ n output, ∀ fuel ≥ n, i.parseFrom fuel rule = .parsed output := by
  have hEnter : InRule i rule (i.enter .initial rule 0) := ⟨tidy_initial.inside_enter rule 0, rfl⟩
  have hRange : InRange i (i.enter .initial rule 0) := Nat.zero_le _
  have hBody := bodyRecovers_rule h hRule (.of_calls fun m _ => callsRecover h m) hEnter hRange
  have hRun : Halts (fun fuel => i.invoke fuel rule 0 none .initial) (fun _ => True)
      fun _ _ => True := .invoke (hBody.mono (fun _ _ => trivial) fun e t ht =>
        ⟨(ht.inRange hRange).overrun?, by simp⟩)
  exact hRun.exists_parsed

end Parse

variable {α : Type} [Inhabited α]

/-- With recovery or without it every parse comes to an end, whatever the tokens, if no rule is
tried, the end of the input is asked for last and one token of lookahead decides everywhere. -/
theorem parse_recovers {types : List TokenType} {bodies : List (RuleBody α)}
    {config : ParserConfig} {g : Grammar α}
    (hCompile : Grammar.compile (.ofTypes types) bodies config = .ok g)
    (hStrict : config.strict = true) (hBodies : ∀ r ∈ bodies, r.IsFaithful)
    (hTrialFree : ∀ r ∈ bodies, Op.allTrialFree r.body = true)
    (hUngated : AllRules Production.IsUngated g.rules) (hEnd : ReadsEndLast g.rules)
    (hOne : g.NeedsOneToken) {start : String} {id : RuleId}
    (hStart : g.ruleNamed? start = some id) {tokens : List Token}
    (hKinds : ∀ t ∈ tokens, g.vocabulary.isRegistered t.kind = true) :
    ∃ n output, ∀ fuel ≥ n, g.parseWithin fuel start tokens = .parsed output := by
  obtain ⟨-, hVocabulary, hConfig⟩ := Grammar.compile_ok hCompile
  have hDecisive : (⟨g, tokens.toArray⟩ : Parse.Input α).IsDecisive bodies :=
    ⟨.of_compile hCompile hBodies hTrialFree hEnd _, by rw [hConfig, hStrict], hUngated, hOne,
      Parse.Input.isRegistered_kindAt hVocabulary hKinds⟩
  simp only [Grammar.parseWithin, hStart]
  exact Parse.parseFrom_recovers hDecisive (Grammar.lt_of_ruleNamed? hStart)

/-- An array with a stray comma, and a bracket behind it. -/
theorem parse_recovers_broken : ∃ g,
    Grammar.compile (.ofTypes JsonText.types) JsonText.rules { recovery := true } = .ok g ∧
      g.NeedsOneToken ∧ ∃ n output,
        ∀ fuel ≥ n, g.parseWithin fuel "json" JsonText.broken = .parsed output := by
  obtain ⟨g, hCompile, hChecked⟩ := Grammar.exists_compiled (v := .ofTypes JsonText.types)
    (p := fun g => decide g.NeedsOneToken && decide (ReadsEndLast g.rules) &&
      decide (AllRules Production.IsUngated g.rules) && g.ruleNamed? "json" == some 0)
    (by decide +kernel : (Grammar.compile (.ofTypes JsonText.types) JsonText.rules
      { recovery := true }).toOption.any _ = true)
  simp only [Bool.and_eq_true, decide_eq_true_eq, beq_iff_eq] at hChecked
  obtain ⟨⟨⟨hOne, hEnd⟩, hUngated⟩, hStart⟩ := hChecked
  have hKinds : ∀ t ∈ JsonText.broken, g.vocabulary.isRegistered t.kind = true := by
    rw [(Grammar.compile_ok hCompile).2.1]
    decide +kernel
  exact ⟨g, hCompile, hOne, parse_recovers hCompile rfl JsonText.isFaithful (by decide) hUngated
    hEnd hOne hStart hKinds⟩

end PredictiveParsing
