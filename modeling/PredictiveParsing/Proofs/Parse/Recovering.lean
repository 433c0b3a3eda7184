import PredictiveParsing.Proofs.Grammar.OneToken
import PredictiveParsing.Proofs.Grammar.RecoverySets
import PredictiveParsing.Proofs.Parse.InvariantInside
import PredictiveParsing.Proofs.Parse.Passing
import PredictiveParsing.Proofs.Parse.Progressive

/-!
# Runs that recover

Where one token of lookahead decides, each operation is passed or an error interrupts it, and what
it was run from tells how far it got: a token that begins it is read before any repair, and a repair
that stays in place does so in front of a token that begins what is behind.
-/

namespace PredictiveParsing

namespace Parse

open Structure

variable {α : Type}

/-- A strictly compiled grammar without gates in which the next token decides, and tokens of its
types. -/
structure Input.IsDecisive (i : Input α) (sources : List (RuleBody α)) : Prop
    extends i.IsProgressive sources where
  strict : i.grammar.config.strict = true
  ungated : AllRules Production.IsUngated i.grammar.rules
  oneToken : i.grammar.NeedsOneToken
  registered : ∀ index, i.grammar.vocabulary.isRegistered (i.kindAt index) = true

structure InRule (i : Input α) (r : RuleId) (s : State) : Prop where
  inside : Inside i s
  rule : s.currentRule = r

variable {i : Input α} {sources : List (RuleBody α)} {r id : RuleId} {s t : State} {n : Nat}
  {d : List Production} {k : List Production × Continuation} {occurrence : Nat}

theorem InRule.of_frame (h : InRule i r s) (hFrame : Frame i s t) : InRule i r t :=
  ⟨h.inside.of_frame hFrame, hFrame.currentRule.trans h.rule⟩

theorem InRule.key (h : InRule i r s) (kind : ProductionKind) (occurrence : Nat) :
    s.key kind occurrence = ⟨r, kind, occurrence⟩ := by
  rw [State.key, h.rule]

/-! ## Repairs -/

/-- The token that a made-up token is put in front of can follow the expected one. -/
theorem follows_of_recoverToken? {expected : TypeId} {error : Nat} {x : Token}
    (h : i.recoverToken? s expected occurrence error = some (x, t))
    (hSame : t.position = s.position) :
    ∃ follow, i.grammar.analysis.terminalFollows.lookup ⟨s.currentRule, expected, occurrence⟩ =
      some follow ∧ i.kindAt s.position ∈ follow := by
  unfold Input.recoverToken? at h
  simp only at h
  split at h
  · next hFollows =>
    cases hTable : i.grammar.analysis.terminalFollows.lookup
        ⟨s.currentRule, expected, occurrence⟩ with
    | none => rw [hTable] at hFollows; cases hFollows
    | some follow =>
      rw [hTable, Input.next_eq, kind_tokenAt] at hFollows
      exact ⟨follow, rfl, TokenSet.contains_iff.mp hFollows⟩
  · split at h
    · cases h
      simp at hSame
    · cases h

theorem inCurrentFollow_of_resyncPlace? {fuel start index : Nat}
    (h : i.resyncPlace? s fuel start = some index) :
    i.inCurrentFollow s (i.kindAt index) = true := by
  induction fuel generalizing start with
  | zero => cases h
  | succ fuel ih =>
    rw [Input.resyncPlace?] at h
    split at h
    · next hFollow =>
      cases h
      exact hFollow
    · split at h
      · cases h
      · exact ih h

theorem inCurrentFollow_congr (h : t.calls = s.calls) (kind : TypeId) :
    i.inCurrentFollow t kind = i.inCurrentFollow s kind := by
  rw [Input.inCurrentFollow, Input.inCurrentFollow, h]

/-! ## Decisions -/

section Decisions

variable (h : i.IsDecisive sources)

include h

theorem fits_of_enters {key : DecisionKey} {decision : Decision}
    (hDecision : i.decisionAt? key = some decision) (hEnters : decision.Enters i.grammar d)
    (hEnter : i.enters s (i.decisionAt? key) = true) : i.Fits d s.position := by
  rw [hDecision] at hEnter
  exact or_iff_not_imp_right.mpr fun hFull =>
    hEnters.begins (i.coming s) (h.registered _) hFull hEnter

theorem enters_of_beginsAt {key : DecisionKey} {decision : Decision}
    (hDecision : i.decisionAt? key = some decision) (hEnters : decision.Enters i.grammar d)
    (hBegins : i.BeginsAt d s.position) : i.enters s (i.decisionAt? key) = true := by
  rw [hDecision]
  exact hEnters.entered (i.coming s) (h.registered _) hBegins

end Decisions

/-! ## Operations -/

variable [Inhabited α]

/-- Runs of operations at their place in a rule halt if the calls that they can make do. -/
def BodyRecovers (i : Input α) (ops : List (Op α)) : Prop :=
  ∀ {r k} a s, i.Admits ops → Placed i.grammar r (i.grammar.shape ops) k →
    Prepared i s.position (i.grammar.shape ops) → InRule i r s →
    (i.grammar.shape ops ≠ [] → InRange i s) →
    Halts (fun fuel => i.runBody fuel ops a s)
      (Passed i (i.grammar.shape ops) (i.Behind [] k) s.position)
      fun _ => Broken i (i.grammar.shape ops) s.position

def OpRecovers (i : Input α) (op : Op α) : Prop :=
  ∀ {r k} a s, i.Admits [op] → Placed i.grammar r (i.grammar.shapeOf op) k →
    Prepared i s.position (i.grammar.shapeOf op) → InRule i r s →
    (i.grammar.shapeOf op ≠ [] → InRange i s) →
    Halts (fun fuel => i.runOp fuel op a s)
      (Passed i (i.grammar.shapeOf op) (i.Behind [] k) s.position)
      fun _ => Broken i (i.grammar.shapeOf op) s.position

theorem bodyRecovers_nil : BodyRecovers i [] := by
  intro r k a s _ _ _ _ _
  rw [Grammar.shape_nil]
  exact .body_nil (.of_nullable nullable_sequence_nil not_beginsAt_nil rfl)

theorem bodyRecovers_cons {op : Op α} {ops : List (Op α)} (hOp : OpRecovers i op)
    (hOps : BodyRecovers i ops) : BodyRecovers i (op :: ops) := by
  intro r k a s hAdmits hPlaced hPrepared hs hRange
  obtain ⟨hOne, hRest, hEnd⟩ := hAdmits.cons
  rw [Grammar.shape_cons] at hPlaced hPrepared hRange ⊢
  have hFirst := hOp a s hOne hPlaced.left hPrepared.left hs
    fun hSome => hRange (List.append_ne_nil_of_left_ne_nil hSome _)
  refine .body_cons ((hFirst.and fun fuel => (frame_runs i fuel).op _ _ _).mono (fun _ ht => ht)
    fun _ _ ht => ht.1.left) ?_
  rintro b t ⟨ht, hFrame⟩
  have ht : Passed i (i.grammar.shapeOf op) (i.Behind (i.grammar.shape ops) k) s.position t := ht
  have hRangeLater : i.grammar.shape ops ≠ [] → InRange i t := fun hSome =>
    ht.inRange (hEnd.resolve_left hSome) (hRange (List.append_ne_nil_of_right_ne_nil _ hSome))
  exact (hOps b t hRest hPlaced.right (hPrepared.right ht hEnd) (hs.of_frame hFrame)
    hRangeLater).mono (fun u hu => ht.append hu) fun e u hu => .right ht hu hEnd

section Operations

variable {label : Option String} {body : List (Op α)}

theorem opRecovers_of_none {op : Op α} (hShape : i.grammar.shapeOf op = [])
    (hRun : ∀ a s, ∃ b, ∀ fuel, i.runOp (fuel + 1) op a s = .done b s) : OpRecovers i op := by
  intro r k a s _ _ _ _ _
  rw [hShape]
  obtain ⟨b, hDone⟩ := hRun a s
  exact (Halts.of_done (.of_nullable nullable_sequence_nil not_beginsAt_nil rfl)).step hDone

theorem opRecovers_whenParsing (hBody : BodyRecovers i body) :
    OpRecovers i (.whenParsing body) := by
  intro r k a s hAdmits hPlaced hPrepared hs hRange
  rw [Grammar.shapeOf_whenParsing] at hPlaced hPrepared hRange ⊢
  exact (hBody a s hAdmits.whenParsing hPlaced hPrepared hs hRange).step
    fun fuel => by rw [Input.runOp]

variable (h : i.IsDecisive sources)

include h

/-! ### Tokens -/

omit [Inhabited α] h in
theorem beginsAt_terminal {token : TypeId} :
    i.BeginsAt [.terminal token occurrence] n ↔ i.isMatch (i.kindAt n) token = true := by
  constructor
  · intro hBegins
    obtain ⟨c, hExpands, other, hFirst, hMatch⟩ := beginsWith_production.mp hBegins
    cases hExpands with
    | terminal =>
      rcases first_singleton.mp hFirst with hSame | ⟨c, hNone, -⟩
      · cases hSame
        exact hMatch
      · cases hNone
  · exact fun hMatch => beginsWith_production.mpr ⟨_, .terminal, token, first_token, hMatch⟩

omit [Inhabited α] h in
theorem not_nullable_terminal {token : TypeId} :
    ¬ Nullable i.grammar.rules [.sequence [.terminal token occurrence]] := by
  intro hNull
  have hKnown := hNull.vanishes
  rw [snd_sequence] at hKnown
  cases hKnown

omit [Inhabited α] h in
theorem endFree_terminal {token : TypeId}
    (hFree : Production.endFree [.terminal token occurrence] = true) : token ≠ Vocabulary.eof := by
  rw [Production.endFree_iff, Production.nodesOf_singleton] at hFree
  simpa [Production.isEnd] using hFree _ (Production.mem_nodes_self _)

omit [Inhabited α] in
theorem passed_behindNext {token : TypeId} {behind : TypeId → Prop}
    (hMatch : i.isMatch (i.kindAt s.position) token = true) :
    Passed i [.terminal token occurrence] behind s.position (i.behindNext s) := by
  unfold Input.behindNext
  split
  · next hEnd =>
    rw [isEof_next.mp hEnd] at hMatch
    obtain rfl := h.atEnd hMatch
    have hNot : ¬ Production.endFree [.terminal Vocabulary.eof occurrence] = true :=
      fun hFree => endFree_terminal hFree rfl
    exact ⟨Nat.le_refl _, fun hFree => absurd hFree hNot, fun hFree => absurd hFree hNot,
      fun hFree => absurd hFree hNot, fun _ _ => rfl⟩
  · next hEnd =>
    exact .of_begins (beginsAt_terminal.mpr hMatch) (Nat.lt_succ_self _)
      (.of_kindAt (fun hKind => hEnd (isEof_next.mpr hKind)) rfl)

omit [Inhabited α] in
theorem passed_recoverToken? {expected : TypeId} {error : Nat} {x : Token}
    (hRecovered : i.recoverToken? s expected occurrence error = some (x, t)) (hs : InRule i r s)
    (hPlaced : Placed i.grammar r [.terminal expected occurrence] k)
    (hNot : ¬ i.Fits [.terminal expected occurrence] s.position) :
    Passed i [.terminal expected occurrence] (i.Behind [] k) s.position t := by
  have hCases := Input.recoverToken?_cases hRecovered
  refine .of_not_fits hNot ?_ (fun hFree hn => ?_) fun hStays => ?_
  · rcases hCases with ⟨-, rfl⟩ | ⟨-, -, -, rfl⟩
    · exact Nat.le_refl _
    · exact Nat.le_add_right _ 2
  · rcases hCases with ⟨-, rfl⟩ | ⟨-, hNext, -, rfl⟩
    · exact hn
    · have hSome : i.kindAt (s.position + 1) ≠ Vocabulary.eof := fun hKind =>
        endFree_terminal hFree (h.atEnd (hKind ▸ hNext))
      exact .of_kindAt hSome rfl
  · obtain ⟨follow, hTable, hMem⟩ := follows_of_recoverToken? hRecovered hStays
    have hSite := hPlaced.site
    rw [← hs.rule] at hSite
    obtain rfl := Option.some.inj (hTable.symm.trans (h.compiled.terminalFollow hSite))
    exact beginsWith_of_mem_follow hMem

theorem opRecovers_consume {token : TypeId} {act : Token → α → α} :
    OpRecovers i (.consume occurrence token label act) := by
  intro r k a s _ hPlaced _ hs _
  rw [Grammar.shapeOf_consume] at hPlaced ⊢
  refine .consume ?_
  cases hMatch : i.isMatch (i.kindAt s.position) token with
  | true =>
    rw [Input.consume_of_isMatch label hMatch]
    exact (passed_behindNext h hMatch).congr (position_addToken _ _ _)
  | false =>
    have hNot : ¬ i.Fits [.terminal token occurrence] s.position := by
      rintro (hBegins | hNull)
      · exact absurd (hMatch.symm.trans (beginsAt_terminal.mp hBegins)) Bool.false_ne_true
      · exact not_nullable_terminal hNull
    rw [← kind_tokenAt, ← Input.next_eq] at hMatch
    unfold Input.consume
    simp only [hMatch, Bool.false_eq_true, if_false]
    split
    · next x t hRecovered =>
      split at hRecovered
      · have hRecorded := hs.of_frame (frame_recordError (.mismatchedToken token))
        exact (passed_recoverToken? h hRecovered hRecorded hPlaced hNot).congr
          ((position_addToken _ _ _).trans (position_updateNode _))
      · cases hRecovered
    · exact .of_not_fits hNot rfl

/-! ### Calls -/

omit [Inhabited α] in
theorem behind_of_inCurrentFollow {name : String} {kind : TypeId} (hs : InRule i r s)
    (hPlaced : Placed i.grammar r [.nonTerminal name (some id) occurrence] k)
    (hFollow : i.inCurrentFollow (i.enter s id occurrence) kind = true) : i.Behind [] k kind := by
  have hSite := hPlaced.site
  rw [← hs.rule] at hSite
  have hTable := callFollow?_eq_some h.compiled hs.inside.calls hSite
  have hMany : ¬ (i.enter s id occurrence).calls.length ≤ 1 := by
    have hSome := List.length_pos_iff.mpr hs.inside.calls
    simp only [Input.enter, List.length_cons]
    omega
  rw [Input.inCurrentFollow, if_neg hMany] at hFollow
  change ((i.callFollow? (⟨id, occurrence⟩ :: s.calls)).map (·.contains kind)).getD false = true
    at hFollow
  rw [hTable] at hFollow
  exact beginsWith_of_mem_follow (TokenSet.contains_iff.mp hFollow)

theorem opRecovers_subrule {rule : String} {act : α → α → α} :
    OpRecovers i (.subrule occurrence rule label act) := by
  intro r k a s hAdmits hPlaced hPrepared hs hRange
  obtain ⟨id, hTarget, hName, hFree⟩ :=
    (hAdmits.production (Grammar.shapeOf_subrule _ _ _ _ _)).target rfl
  rw [Grammar.shapeOf_subrule, hTarget] at hPlaced hPrepared hRange ⊢
  have hRule := Grammar.lt_of_ruleNamed? hName
  have hFirst : id ∈ (openingOf (.ofRules i.grammar.rules)
      [.nonTerminal rule (some id) occurrence]).1 := by
    rw [openingOf_singleton, opening]
    exact List.mem_singleton_self id
  have hBegins : i.BeginsAt [.nonTerminal rule (some id) occurrence] s.position →
      i.BeginsAt (definitionOf i.grammar.rules id) s.position := by
    intro hBegins
    obtain ⟨c, hExpands, hc⟩ := beginsWith_production.mp hBegins
    cases hExpands with
    | reference => exact hc
  have hFits : i.Fits [.nonTerminal rule (some id) occurrence] s.position →
      i.Fits (definitionOf i.grammar.rules id) s.position := by
    refine Or.imp hBegins fun hNull => ?_
    obtain ⟨c, hExpands, hc⟩ := nullable_production.mp hNull
    cases hExpands with
    | reference => exact hc
  have hCalls : CallsRecover i s.position id := by
    rcases hPrepared.first with hp | ⟨hAll, -⟩
    · exact hPrepared.fitting id hFirst (hFits hp)
    · exact hAll id hFirst
  have hCall := hCalls occurrence label s hRule hFree hs.inside (hRange (List.cons_ne_nil _ _)) rfl
  refine .subrule hName (hCall.mono (fun t ht => ?_) fun e t ht => ?_)
  · exact (ht.mono fun kind => behind_of_inCurrentFollow h hs hPlaced).nested (.reference hRule)
      hFits hBegins hFree
  · exact ht.nested (.reference hRule) hFits hBegins

/-! ### Decisions -/

theorem opRecovers_option {act : Bool → α → α} (hBody : BodyRecovers i body) :
    OpRecovers i (.option occurrence body act) := by
  intro r k a s hAdmits hPlaced hPrepared hs hRange
  obtain ⟨hInner, hFree⟩ := hAdmits.option
  rw [Grammar.shapeOf_option] at hPlaced hPrepared hRange ⊢
  obtain ⟨decision, hDecision, hEnters⟩ := h.compiled.enters_option_one h.oneToken hPlaced.site
  have hDecision : i.decisionAt? (s.key .option occurrence) = some decision := by
    rw [hs.key]
    exact hDecision
  have hBegins : i.BeginsAt [.option (i.grammar.shape body) occurrence] s.position →
      i.BeginsAt (i.grammar.shape body) s.position := by
    intro hBegins
    obtain ⟨c, hExpands, hc⟩ := beginsWith_production.mp hBegins
    cases hExpands with
    | option => exact hc
    | noOption => exact absurd hc not_beginsWith_nil
  refine .option (fun hEnter => ?_) fun hSkip => ?_
  · have hFits := fits_of_enters h hDecision hEnters hEnter
    have hRun := hBody a s hInner hPlaced.option
      (hPrepared.nested hFits fun _ hId => by rwa [opening]) hs
      fun _ => hRange (List.cons_ne_nil _ _)
    refine hRun.mono (fun t ht => ?_) fun e t ht => ht.nested .option (fun _ => hFits) hBegins
    exact (ht.mono fun _ => behind_nested).nested .option (fun _ => hFits) hBegins hFree
  · refine .of_nullable (nullable_production.mpr ⟨_, .noOption, nullable_nil⟩) (fun hp => ?_) rfl
    have hEnter := enters_of_beginsAt h hDecision hEnters (hBegins hp)
    exact absurd (hSkip.symm.trans hEnter) Bool.false_ne_true

section Branches

variable {branches : List (Branch (Op α))} {branch : Branch (Op α)} {mask : List Bool}
  (hs : InRule i r s)
  (hPlaced : Placed i.grammar r [.alternation (i.grammar.shapeOfBranches branches) occurrence] k)

include hs hPlaced

omit [Inhabited α] in
theorem exists_picks : ∃ decision : Decision,
    decision.Picks i.grammar (i.grammar.shapeOfBranches branches) ∧
      ∀ mask, i.branchAt? s occurrence branches mask =
        (decision.choose i.grammar.vocabulary (i.coming s) none).bind (branches[·]?) := by
  obtain ⟨decision, hDecision, hPicks⟩ :=
    h.compiled.picks_one h.oneToken h.strict h.ungated hPlaced.site
  have hDecision : i.decisionAt? (s.key .or occurrence) = some decision := by
    rw [hs.key]
    exact hDecision
  exact ⟨decision, hPicks, Input.branchAt?_plain (hPlaced.gate_eq_none h.ungated) hDecision⟩

omit [Inhabited α] in
theorem fits_of_branchAt? (hBranch : i.branchAt? s occurrence branches mask = some branch) :
    i.Fits (i.grammar.shape branch.body) s.position ∧
      (i.BeginsAt [.alternation (i.grammar.shapeOfBranches branches) occurrence] s.position →
        i.BeginsAt (i.grammar.shape branch.body) s.position) := by
  obtain ⟨decision, hPicks, hSame⟩ := exists_picks h hs hPlaced
  rw [hSame, Option.bind_eq_some_iff] at hBranch
  obtain ⟨n, hChosen, hn⟩ := hBranch
  obtain ⟨a, ha, hFits⟩ := hPicks.picked (i.coming s) (h.registered _) hChosen
  rw [Grammar.shapeOfBranches, List.getElem?_map, hn, Option.map_some, Option.some.injEq] at ha
  subst ha
  refine ⟨hFits.imp_right And.left, fun hBegins => ?_⟩
  rcases hFits with hTaken | ⟨-, hNone⟩
  · exact hTaken
  · obtain ⟨c, hExpands, hc⟩ := beginsWith_production.mp hBegins
    cases hExpands with
    | alternative b hb => exact absurd hc (hNone b hb)

omit [Inhabited α] in
theorem not_fits_of_branchAt? (hBranch : i.branchAt? s occurrence branches mask = none) :
    ¬ i.Fits [.alternation (i.grammar.shapeOfBranches branches) occurrence] s.position := by
  obtain ⟨decision, hPicks, hSame⟩ := exists_picks h hs hPlaced
  rw [hSame] at hBranch
  have hNone : decision.choose i.grammar.vocabulary (i.coming s) none = none := by
    refine Option.eq_none_iff_forall_ne_some.mpr fun n hChosen => ?_
    obtain ⟨a, ha, -⟩ := hPicks.picked (i.coming s) (h.registered _) hChosen
    rw [hChosen, Option.bind_some] at hBranch
    rw [Grammar.shapeOfBranches, List.getElem?_map, hBranch] at ha
    cases ha
  have hNot := hPicks.none (i.coming s) (h.registered _) hNone
  rintro (hBegins | hNull)
  · obtain ⟨c, hExpands, hc⟩ := beginsWith_production.mp hBegins
    cases hExpands with
    | alternative b hb => exact (hNot b hb).1 hc
  · obtain ⟨c, hExpands, hc⟩ := nullable_production.mp hNull
    cases hExpands with
    | alternative b hb => exact (hNot b hb).2 hc

end Branches

theorem opRecovers_choice {branches : List (Branch (Op α))} {act : α → α → α}
    (hBodies : ∀ branch ∈ branches, BodyRecovers i branch.body) :
    OpRecovers i (.choice occurrence branches act) := by
  intro r k a s hAdmits hPlaced hPrepared hs hRange
  rw [Grammar.shapeOf_choice] at hPlaced hPrepared hRange ⊢
  refine .choice (gates_answer hAdmits.branchesTrialFree s) (fun mask branch hBranch => ?_)
    fun mask hNone cause => .of_not_fits (not_fits_of_branchAt? h hs hPlaced hNone) rfl
  obtain ⟨hFits, hBegins⟩ := fits_of_branchAt? h hs hPlaced hBranch
  have hMem := Input.mem_of_branchAt? hBranch
  have hAlternative := i.grammar.mem_shapeOfBranches hMem
  obtain ⟨hInner, hFree⟩ := hAdmits.branch hMem
  have hOpening : ∀ id ∈ (openingOf (.ofRules i.grammar.rules) (i.grammar.shape branch.body)).1,
      id ∈ (opening (.ofRules i.grammar.rules)
        (.alternation (i.grammar.shapeOfBranches branches) occurrence)).1 := by
    intro id hId
    rw [opening]
    exact mem_openingOfBranches hAlternative hId
  have hRun := hBodies branch hMem default s hInner (hPlaced.alternative hAlternative)
    (hPrepared.nested hFits hOpening) hs fun _ => hRange (List.cons_ne_nil _ _)
  refine hRun.mono (fun t ht => ?_) fun e t ht =>
    ht.nested (.alternative _ hAlternative) (fun _ => hFits) hBegins
  exact (ht.mono fun _ => behind_nested).nested (.alternative _ hAlternative) (fun _ => hFits)
    hBegins hFree

end Operations

end Parse

end PredictiveParsing
