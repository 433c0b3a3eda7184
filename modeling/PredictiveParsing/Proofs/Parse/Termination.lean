import PredictiveParsing.Proofs.Grammar.LeftRecursion
import PredictiveParsing.Proofs.Parse.Ahead
import PredictiveParsing.Proofs.Parse.Halting
import PredictiveParsing.Proofs.Parse.InvariantInside
import PredictiveParsing.Proofs.Parse.Progressive

/-!
# Parsing terminates

Without recovery a parse comes to an end, whatever the tokens. An operation that leaves as many
tokens as there were can be empty, so a rule that is entered then is entered in order: the induction
is on the number of tokens left, then on the order of the rules, then on the operations of a body.
An operation that asks for the end of the input is the exception, and has nothing behind it.
-/

namespace PredictiveParsing

variable {α : Type}

namespace Parse

open Structure

structure Input.IsUnrepaired (i : Input α) (sources : List (RuleBody α)) : Prop
    extends i.IsProgressive sources where
  unaided : i.grammar.config.recovery = false

def Input.left (i : Input α) (s : State) : Nat := i.tokens.size - s.position

variable {i : Input α} {sources : List (RuleBody α)} {s t u : State} {a : α} {m n : Nat}
  {ps qs d : List Production} {p : Production} {id : RuleId}

namespace Input.IsUnrepaired

variable (h : i.IsUnrepaired sources)

include h

theorem recoveryEnabled (s : State) : i.recoveryEnabled s = false := by
  rw [Input.recoveryEnabled, h.unaided, Bool.false_and]

theorem overrun? (s : State) : i.overrun? s = none := by
  rw [Input.overrun?, h.recoveryEnabled, if_neg (by simp)]

end Input.IsUnrepaired

/-! ## Progress -/

/-- A state behind productions: with fewer tokens left, unless they can be empty or ask for the end
of the input. -/
structure Behind (i : Input α) (ps : List Production) (s t : State) : Prop where
  inside : Inside i t
  le : i.left t ≤ i.left s
  stays : i.left t = i.left s → Production.endFree ps = true →
    Nullable i.grammar.rules [.sequence ps]

theorem Behind.of_nullable (hs : Inside i s) (h : Nullable i.grammar.rules [.sequence ps]) :
    Behind i ps s s := ⟨hs, Nat.le_refl _, fun _ _ => h⟩

theorem Behind.of_lt (ht : Inside i t) (h : i.left t < i.left s) : Behind i ps s t :=
  ⟨ht, Nat.le_of_lt h, fun hSame => absurd hSame (Nat.ne_of_lt h)⟩

theorem Behind.omitted (hs : Inside i s) (h : p.Expands i.grammar.rules []) : Behind i [p] s s :=
  .of_nullable hs (nullable_sequence_cons.mpr ⟨⟨[], h, nullable_nil⟩, nullable_sequence_nil⟩)

theorem Behind.append (h : Behind i ps s t) (h' : Behind i qs t u) : Behind i (ps ++ qs) s u := by
  have hLe := h.le
  have hLe' := h'.le
  refine ⟨h'.inside, Nat.le_trans hLe' hLe, fun hSame hFree => ?_⟩
  rw [Production.endFree_append, Bool.and_eq_true] at hFree
  exact nullable_sequence_append.mpr ⟨h.stays (by omega) hFree.1, h'.stays (by omega) hFree.2⟩

theorem Behind.nested (h : Behind i d s t) (hFree : Production.endFree d = true)
    (hExpands : p.Expands i.grammar.rules [.sequence d]) : Behind i [p] s t := by
  refine ⟨h.inside, h.le, fun hSame _ => ?_⟩
  exact nullable_sequence_cons.mpr ⟨⟨_, hExpands, h.stays hSame hFree⟩, nullable_sequence_nil⟩

theorem Behind.lt (h : Behind i d s t) (hFree : Production.endFree d = true)
    (hSolid : (FirstSets.ofRules i.grammar.rules).nullableAll d = false) :
    i.left t < i.left s := by
  refine Nat.lt_of_le_of_ne h.le fun hSame => ?_
  have hNull := (h.stays hSame hFree).vanishes
  rw [snd_sequence, hSolid] at hNull
  cases hNull

theorem left_congr (h : t.position = s.position) : i.left t = i.left s := by
  rw [Input.left, Input.left, h]

theorem left_lt_of_next (hKind : i.kindAt s.position ≠ Vocabulary.eof)
    (hNext : t.position = s.position + 1) : i.left t < i.left s := by
  have hLt := Input.lt_of_kindAt hKind
  rw [Input.left, Input.left, hNext]
  omega

variable [Inhabited α]

def CallsHalt (i : Input α) (m : Nat) (id : RuleId) : Prop :=
  ∀ occurrence label s, id < i.grammar.rules.length →
    Production.endFree (definitionOf i.grammar.rules id) = true → Inside i s → i.left s = m →
    Halts (fun fuel => i.invoke fuel id occurrence label s)
      (Behind i (definitionOf i.grammar.rules id) s) fun _ _ => True

structure HaltsAhead (i : Input α) (m : Nat) (ps : List Production) : Prop where
  fewer : ∀ n < m, ∀ id, CallsHalt i n id
  first : ∀ id ∈ (openingOf (.ofRules i.grammar.rules) ps).1, CallsHalt i m id

namespace HaltsAhead

theorem mono (h : HaltsAhead i m ps)
    (hFirst : ∀ id ∈ (openingOf (.ofRules i.grammar.rules) qs).1,
      id ∈ (openingOf (.ofRules i.grammar.rules) ps).1) : HaltsAhead i m qs :=
  ⟨h.fewer, fun id hId => h.first id (hFirst id hId)⟩

theorem of_lt (h : HaltsAhead i m ps) (hLt : n < m) : HaltsAhead i n qs :=
  ⟨fun l hl => h.fewer l (Nat.lt_trans hl hLt), fun id _ => h.fewer n hLt id⟩

theorem left (h : HaltsAhead i m (ps ++ qs)) : HaltsAhead i m ps :=
  h.mono fun _ => mem_openingOf_left

theorem right (h : HaltsAhead i (i.left s) (ps ++ qs)) (hBehind : Behind i ps s t)
    (hEnd : qs = [] ∨ Production.endFree ps = true) : HaltsAhead i (i.left t) qs := by
  rcases Nat.lt_or_eq_of_le hBehind.le with hLt | hSame
  · exact h.of_lt hLt
  · rw [hSame]
    rcases hEnd with rfl | hFree
    · exact h.mono fun id hId => by simp [openingOf] at hId
    · have hKnown := (hBehind.stays hSame hFree).vanishes
      rw [snd_sequence] at hKnown
      exact h.mono fun _ => mem_openingOf_right hKnown

theorem nested (h : HaltsAhead i m [p])
    (hFirst : ∀ id ∈ (openingOf (.ofRules i.grammar.rules) d).1,
      id ∈ (opening (.ofRules i.grammar.rules) p).1) : HaltsAhead i m d :=
  h.mono fun id hId => by
    rw [openingOf_singleton]
    exact hFirst id hId

end HaltsAhead

def BodyHalts (i : Input α) (ops : List (Op α)) : Prop :=
  ∀ a s, i.Admits ops → HaltsAhead i (i.left s) (i.grammar.shape ops) → Inside i s →
    Halts (fun fuel => i.runBody fuel ops a s) (Behind i (i.grammar.shape ops) s) fun _ _ => True

def OpHalts (i : Input α) (op : Op α) : Prop :=
  ∀ a s, i.Admits [op] → HaltsAhead i (i.left s) (i.grammar.shapeOf op) → Inside i s →
    Halts (fun fuel => i.runOp fuel op a s) (Behind i (i.grammar.shapeOf op) s) fun _ _ => True

/-! ## Bodies -/

theorem bodyHalts_nil : BodyHalts i [] := by
  intro a s _ _ hs
  rw [Grammar.shape_nil]
  exact .body_nil (.of_nullable hs nullable_sequence_nil)

theorem bodyHalts_cons {op : Op α} {ops : List (Op α)} (hOp : OpHalts i op)
    (hOps : BodyHalts i ops) : BodyHalts i (op :: ops) := by
  intro a s hAdmits hAhead hs
  obtain ⟨hOne, hRest, hBehind⟩ := hAdmits.cons
  rw [Grammar.shape_cons] at hAhead ⊢
  refine .body_cons (hOp a s hOne hAhead.left hs) fun b t ht => ?_
  exact (hOps b t hRest (hAhead.right ht hBehind) ht.inside).mono (fun u hu => ht.append hu)
    fun _ _ => id

/-! ## Operations -/

section Operations

variable {occurrence : Nat} {label : Option String} {body : List (Op α)}

theorem opHalts_of_none {op : Op α} (hShape : i.grammar.shapeOf op = [])
    (hRun : ∀ a s, ∃ b, ∀ fuel, i.runOp (fuel + 1) op a s = .done b s) : OpHalts i op := by
  intro a s _ _ hs
  rw [hShape]
  obtain ⟨b, hDone⟩ := hRun a s
  exact (Halts.of_done (.of_nullable hs nullable_sequence_nil)).step hDone

theorem opHalts_whenParsing (hBody : BodyHalts i body) : OpHalts i (.whenParsing body) := by
  intro a s hAdmits hAhead hs
  rw [Grammar.shapeOf_whenParsing] at hAhead ⊢
  exact (hBody a s hAdmits.whenParsing hAhead hs).step fun fuel => by rw [Input.runOp]

theorem opHalts_option {act : Bool → α → α} (hBody : BodyHalts i body) :
    OpHalts i (.option occurrence body act) := by
  intro a s hAdmits hAhead hs
  obtain ⟨hInner, hFree⟩ := hAdmits.option
  rw [Grammar.shapeOf_option] at hAhead ⊢
  refine .option (fun _ => ?_) fun _ => .omitted hs .noOption
  have hNested := hAhead.nested fun _ hId => by rwa [opening]
  exact (hBody a s hInner hNested hs).mono (fun t ht => ht.nested hFree .option) fun _ _ => id

theorem opHalts_choice {branches : List (Branch (Op α))} {act : α → α → α}
    (hBodies : ∀ branch ∈ branches, BodyHalts i branch.body) :
    OpHalts i (.choice occurrence branches act) := by
  intro a s hAdmits hAhead hs
  rw [Grammar.shapeOf_choice] at hAhead ⊢
  refine .choice (gates_answer hAdmits.branchesTrialFree s) (fun mask branch hBranch => ?_)
    fun _ _ _ => trivial
  have hMem := Input.mem_of_branchAt? hBranch
  obtain ⟨hInner, hFree⟩ := hAdmits.branch hMem
  have hAlternative := i.grammar.mem_shapeOfBranches hMem
  have hNested : HaltsAhead i (i.left s) (i.grammar.shape branch.body) :=
    hAhead.nested fun id hId => by
      rw [opening]
      exact mem_openingOfBranches hAlternative hId
  exact (hBodies branch hMem default s hInner hNested hs).mono
    (fun t ht => ht.nested hFree (.alternative _ hAlternative)) fun _ _ => id

variable (h : i.IsUnrepaired sources)

include h

theorem opHalts_consume {token : TypeId} {act : Token → α → α} :
    OpHalts i (.consume occurrence token label act) := by
  intro a s hAdmits _ hs
  rw [Grammar.shapeOf_consume]
  refine .consume ?_
  have hFrame := frame_consume (i := i) s occurrence token label
  cases hMatch : i.isMatch (i.kindAt s.position) token with
  | true =>
    rw [Input.consume_of_isMatch label hMatch] at hFrame ⊢
    have hInside : Inside i _ := hs.of_frame hFrame
    cases hEnd : (i.next s).isEof with
    | true =>
      have hNext : (i.behindNext s).position = s.position := by
        rw [Input.behindNext, if_pos hEnd]
      have hSame : i.left (i.addToken (i.behindNext s) label token (i.next s)) = i.left s :=
        left_congr ((position_addToken _ _ _).trans hNext)
      rw [isEof_next.mp hEnd] at hMatch
      obtain rfl := h.atEnd hMatch
      refine ⟨hInside, Nat.le_of_eq hSame, fun _ hFree => ?_⟩
      cases hFree
    | false =>
      have hNext : (i.behindNext s).position = s.position + 1 := by
        rw [Input.behindNext, hEnd, if_neg (by simp)]
      refine .of_lt hInside (left_lt_of_next (fun hKind => ?_)
        ((position_addToken _ _ _).trans hNext))
      simp [isEof_next.mpr hKind] at hEnd
  | false =>
    rw [← kind_tokenAt, ← Input.next_eq] at hMatch
    have hOff : ∀ s, i.recoveryEnabled s = false := h.recoveryEnabled
    unfold Input.consume
    simp only [hMatch, hOff, Bool.false_eq_true, if_false]
    trivial

omit h in
theorem opHalts_subrule {rule : String} {act : α → α → α} :
    OpHalts i (.subrule occurrence rule label act) := by
  intro a s hAdmits hAhead hs
  obtain ⟨id, hTarget, hName, hFree⟩ :=
    (hAdmits.production (Grammar.shapeOf_subrule _ _ _ _ _)).target rfl
  rw [Grammar.shapeOf_subrule, hTarget] at hAhead ⊢
  have hFirst : id ∈ (openingOf (.ofRules i.grammar.rules)
      [.nonTerminal rule (some id) occurrence]).1 := by
    rw [openingOf_singleton, opening]
    exact List.mem_singleton_self id
  have hRule := Grammar.lt_of_ruleNamed? hName
  have hCall := hAhead.first id hFirst occurrence label s hRule hFree hs rfl
  exact .subrule hName (hCall.mono (fun t ht => ht.nested hFree (.reference hRule))
    fun _ _ hStopped => hStopped)

/-! ## Repetitions -/

section Loops

variable {loop : Input.Loop α} (hAdmits : i.Admits loop.body)
  (hFree : Production.endFree (i.grammar.shape loop.body) = true)
  (hSolid : (FirstSets.ofRules i.grammar.rules).nullableAll (i.grammar.shape loop.body) = false)
  (hBody : BodyHalts i loop.body)

include hAdmits hFree hSolid hBody

/-- An iteration halts with fewer tokens left if further ones with fewer tokens left do. -/
theorem iteration_halts (hAhead : HaltsAhead i (i.left s) (i.grammar.shape loop.body))
    (hLater : ∀ a t, i.left t < i.left s → Inside i t →
      Halts (fun fuel => i.runLoop fuel loop false a t)
        (fun u => Inside i u ∧ i.left u ≤ i.left t) fun _ _ => True)
    (a : α) (hs : Inside i s) :
    Halts (fun fuel => i.runIteration fuel loop a s)
      (fun u => Inside i u ∧ i.left u < i.left s) fun _ _ => True := by
  refine .iteration ((hBody a s hAdmits hAhead hs).mono (fun t ht => ?_) fun e t _ => ?_)
  · have hLt := ht.lt hFree hSolid
    unfold Halts.GoesOn
    split
    · exact ⟨ht.inside, hLt⟩
    · exact fun b => (hLater b t hLt ht.inside).mono
        (fun u hu => ⟨hu.1, Nat.lt_of_le_of_lt hu.2 hLt⟩) fun _ _ => id
  · rw [Input.resumeRepetition_unaided (h.recoveryEnabled t)]
    trivial

omit h hAdmits hFree hSolid hBody [Inhabited α] in
theorem left_consumeSeparator_le (separator : Option TypeId) :
    i.left (i.consumeSeparator s separator) ≤ i.left s := by
  cases separator with
  | none => exact Nat.le_refl _
  | some token =>
    rw [Input.left, Input.consumeSeparator, position_addToken, Input.left]
    exact Nat.sub_le_sub_left (Nat.le_succ _) _

theorem loop_halts (hAhead : ∀ n ≤ i.left s, HaltsAhead i n (i.grammar.shape loop.body)) (a : α)
    (hs : Inside i s) :
    Halts (fun fuel => i.runLoop fuel loop false a s)
      (fun u => Inside i u ∧ i.left u ≤ i.left s) fun _ _ => True := by
  generalize hm : i.left s = m at hAhead ⊢
  induction m using Nat.strong_induction_on generalizing a s with
  | _ m ih =>
    subst hm
    refine .loop_later (fun _ => ?_) fun _ => ?_
    · have hLe := left_consumeSeparator_le (i := i) (s := s) loop.separator
      have hInside : Inside i (i.consumeSeparator s loop.separator) :=
        hs.of_frame (frame_consumeSeparator loop.separator)
      refine (iteration_halts h hAdmits hFree hSolid hBody (hAhead _ hLe) (fun b t hLt ht => ?_) a
        hInside).mono (fun u hu => ⟨hu.1, Nat.le_trans (Nat.le_of_lt hu.2) hLe⟩) fun _ _ => id
      exact ih (i.left t) (Nat.lt_of_lt_of_le hLt hLe) b ht rfl
        fun n hn => hAhead n (by omega)
    · rw [Input.skipToNextIteration_unaided (h.recoveryEnabled s), if_neg (by simp)]
      exact ⟨hs, Nat.le_refl _⟩

end Loops

theorem opHalts_repetition {mandatory : Bool} {separator : Option TypeId} {act : α → α}
    (hBody : BodyHalts i body) :
    OpHalts i (.repetition mandatory separator occurrence body act) := by
  intro a s hAdmits hAhead hs
  obtain ⟨hInner, hFree⟩ := hAdmits.repetition
  have hShape := i.grammar.shapeOf_repetition mandatory separator occurrence body act
  have hSolid : (FirstSets.ofRules i.grammar.rules).nullableAll (i.grammar.shape body) = false :=
    (hAdmits.production hShape).solid
  rw [hShape] at hAhead ⊢
  have hNested : HaltsAhead i (i.left s) (i.grammar.shape body) :=
    hAhead.nested fun _ hId => by rwa [opening]
  refine .repetition (.loop_first (fun _ => ?_) (fun _ hOptional => ?_) fun _ _ _ => trivial)
  · refine (iteration_halts h hInner hFree hSolid hBody hNested (fun b t hLt ht => ?_) a hs).mono
      (fun u hu => .of_lt hu.1 hu.2) fun _ _ => id
    exact loop_halts h hInner hFree hSolid hBody
      (fun n hn => hNested.of_lt (Nat.lt_of_le_of_lt hn hLt)) b ht
  · obtain rfl : mandatory = false := hOptional
    exact .omitted hs .noIteration

end Operations

/-! ## Rules -/

mutual

theorem bodyHalts (h : i.IsUnrepaired sources) (ops : List (Op α)) : BodyHalts i ops := by
  cases ops with
  | nil => exact bodyHalts_nil
  | cons op ops => exact bodyHalts_cons (opHalts h op) (bodyHalts h ops)

theorem opHalts (h : i.IsUnrepaired sources) (op : Op α) : OpHalts i op := by
  cases op with
  | consume occurrence token label act => exact opHalts_consume h
  | subrule occurrence rule label act => exact opHalts_subrule
  | option occurrence body act => exact opHalts_option (bodyHalts h body)
  | repetition mandatory separator occurrence body act =>
    exact opHalts_repetition h (bodyHalts h body)
  | choice occurrence branches act => exact opHalts_choice (branchesHalt h branches)
  | peek distance act =>
    exact opHalts_of_none (Grammar.shapeOf_peek _ _ _) fun a s => ⟨_, fun _ => by rw [Input.runOp]⟩
  | trial rule act => exact fun a s hAdmits => by cases hAdmits.trialFree
  | whenParsing body => exact opHalts_whenParsing (bodyHalts h body)
  | whenRecording body =>
    exact opHalts_of_none (Grammar.shapeOf_whenRecording _ _) fun a s =>
      ⟨_, fun _ => by rw [Input.runOp]⟩
  | attempt body act => exact fun a s hAdmits => by cases hAdmits.propagates

theorem branchesHalt (h : i.IsUnrepaired sources) (branches : List (Branch (Op α))) :
    ∀ branch ∈ branches, BodyHalts i branch.body := by
  cases branches with
  | nil => exact fun _ hBranch => by cases hBranch
  | cons branch rest =>
    obtain ⟨gate, body, ignore⟩ := branch
    exact List.forall_mem_cons.mpr ⟨bodyHalts h body, branchesHalt h rest⟩

end

/-- The body of a rule halts if calls with fewer tokens left do, and calls of rules that come before
this one. -/
theorem bodyHalts_rule (h : i.IsUnrepaired sources) (id : RuleId)
    (hFewer : ∀ n < i.left s, ∀ id, CallsHalt i n id)
    (hBefore : ∀ q ∈ openingRules (.ofRules i.grammar.rules) i.grammar.rules id,
      CallsHalt i (i.left s) q) (hs : Inside i s) :
    Halts (fun fuel => i.runBody fuel (i.grammar.body id) default s)
      (Behind i (definitionOf i.grammar.rules id) s) fun _ _ => True := by
  have hFirst : ∀ q ∈ (openingOf (.ofRules i.grammar.rules) (definitionOf i.grammar.rules id)).1,
      CallsHalt i (i.left s) q := by
    intro q hq occurrence label s hRule
    exact hBefore q (mem_openingRules.mpr ⟨hRule, hq⟩) occurrence label s hRule
  rw [h.faithful.definition] at hFirst ⊢
  exact bodyHalts h _ default s (h.admits_body id) ⟨hFewer, hFirst⟩ hs

theorem callsHalt (h : i.IsUnrepaired sources) (m : Nat) : ∀ id, CallsHalt i m id := by
  induction m using Nat.strong_induction_on with
  | _ m ihFewer =>
    intro id
    have hOrdered := isOrdered_of_leftRecursions (List.append_eq_nil_iff.mp h.compiled.sound).1 id
    induction hOrdered with
    | intro id _ ihBefore =>
      rintro occurrence label s hRule hFree hs rfl
      have hEnter := hs.tidy.inside_enter id occurrence
      have hBody := bodyHalts_rule (s := i.enter s id occurrence) h id ihFewer ihBefore hEnter
      refine .invoke ((hBody.and fun fuel => (frame_runs i fuel).body _ _ _).mono ?_ ?_)
      · rintro t ⟨ht, hFrame⟩
        have hSame : i.left (i.leave t id label) = i.left t := left_congr (position_leave _ _)
        refine ⟨hs.of_frame hFrame.leave, ?_, fun hLeft => ?_⟩
        · exact hSame.trans_le ht.le
        · exact ht.stays (hSame.symm.trans hLeft)
      · rintro e t ⟨-, hStopped⟩
        rw [hs.recoverRule_unaided hStopped.1 (h.recoveryEnabled t), if_neg (by simp)]
        exact ⟨h.overrun? t, trivial⟩

theorem parseFrom_terminates (h : i.IsUnrepaired sources) (rule : RuleId) :
    ∃ n output, ∀ fuel ≥ n, i.parseFrom fuel rule = .parsed output := by
  have hEnter : Inside i (i.enter .initial rule 0) := tidy_initial.inside_enter rule 0
  have hBody := bodyHalts_rule h rule (fun n _ => callsHalt h n) (fun q _ => callsHalt h _ q) hEnter
  have hRun : Halts (fun fuel => i.invoke fuel rule 0 none .initial) (fun _ => True)
      fun _ _ => True := .invoke (hBody.mono (fun _ _ => trivial) fun e t _ => ⟨h.overrun? t, by simp⟩)
  exact hRun.exists_parsed

end Parse

variable [Inhabited α]

/-- Without recovery every parse comes to an end, whatever the tokens, if no rule is tried and the
end of the input is asked for last. -/
theorem parse_terminates {types : List TokenType} {bodies : List (RuleBody α)}
    {config : ParserConfig} {g : Grammar α}
    (hCompile : Grammar.compile (.ofTypes types) bodies config = .ok g)
    (hUnaided : config.recovery = false) (hBodies : ∀ r ∈ bodies, r.IsFaithful)
    (hTrialFree : ∀ r ∈ bodies, Op.allTrialFree r.body = true) (hEnd : ReadsEndLast g.rules)
    {start : String} {id : RuleId} (hStart : g.ruleNamed? start = some id) (tokens : List Token) :
    ∃ n output, ∀ fuel ≥ n, g.parseWithin fuel start tokens = .parsed output := by
  have hUnaided : (⟨g, tokens.toArray⟩ : Parse.Input α).IsUnrepaired bodies :=
    ⟨.of_compile hCompile hBodies hTrialFree hEnd _, by
      rw [(Grammar.compile_ok hCompile).2.2, hUnaided]⟩
  simp only [Grammar.parseWithin, hStart]
  exact Parse.parseFrom_terminates hUnaided id

/-! ## A grammar whose parses terminate -/

namespace Calls

def types : List TokenType :=
  [.literal "Name" "f", .literal "Open" "(", .literal "Close" ")", .literal "Comma" ",",
    .literal "Stop" ";"]

/-- Calls one after the other up to the end of the input. An argument is a name, or a call if a
bracket comes behind its name. -/
def rules : List (RuleBody Unit) :=
  [ ⟨"calls", [.repetition false none 0 [.enter "call", .token 5] id, .token Vocabulary.eof]⟩,
    ⟨"call", [.token 1, .token 2, .manySeparated 4 [.enter "argument"], .token 3]⟩,
    ⟨"argument",
      [.choice 0 [⟨some (.ahead 2 2), [.enter "call"], false⟩, .plain [.token 1]] fun _ a => a]⟩ ]

theorem isFaithful : ∀ r ∈ rules, r.IsFaithful := by
  intro r hr
  simp only [rules, List.mem_cons, List.not_mem_nil, or_false] at hr
  rcases hr with rfl | rfl | rfl
  · exact ⟨rfl, rfl⟩
  · exact ⟨rfl, rfl⟩
  · exact ⟨rfl, rfl⟩

end Calls

/-- An unfinished call with an end of the input between its tokens. -/
theorem parse_terminates_unfinished : ∃ g,
    Grammar.compile (.ofTypes Calls.types) Calls.rules {} = .ok g ∧ ReadsEndLast g.rules ∧
      ∃ n output, ∀ fuel ≥ n, g.parseWithin fuel "calls"
        [⟨1, "f", ⟨0, 1⟩, none, none, false⟩, ⟨2, "(", ⟨1, 2⟩, none, none, false⟩, .eof 2,
          ⟨4, ",", ⟨2, 3⟩, none, none, false⟩] = .parsed output := by
  obtain ⟨g, hCompile, hChecked⟩ := Grammar.exists_compiled
    (v := .ofTypes Calls.types) (p := fun g => decide (ReadsEndLast g.rules) &&
      g.ruleNamed? "calls" == some 0) (by decide +kernel : (Grammar.compile (.ofTypes Calls.types)
        Calls.rules {}).toOption.any _ = true)
  simp only [Bool.and_eq_true, decide_eq_true_eq, beq_iff_eq] at hChecked
  exact ⟨g, hCompile, hChecked.1,
    parse_terminates hCompile rfl Calls.isFaithful (by decide) hChecked.1 hChecked.2 _⟩

end PredictiveParsing
