import PredictiveParsing.Proofs.Parse.Origin

/-!
# Marks of repairs

Recovery marks the nodes whose parts it makes up or skips, but for the tokens that a repetition
skips. Without a mark in its tree a parse has made up no token, and has skipped tokens in
repetitions only.
-/

namespace PredictiveParsing

/-! ## Marks in a tree -/

namespace Tree

mutual

def isMarked : Tree → Bool
  | .leaf _ => false
  | .node ⟨_, children, _, recovered⟩ => recovered || isMarkedAny children

def isMarkedAny : List (String × Tree) → Bool
  | [] => false
  | (_, t) :: rest => isMarked t || isMarkedAny rest

end

theorem isMarkedAny_append (xs ys : List (String × Tree)) :
    isMarkedAny (xs ++ ys) = (isMarkedAny xs || isMarkedAny ys) := by
  induction xs with
  | nil => rfl
  | cons x xs ih => simp only [List.cons_append, isMarkedAny, ih, Bool.or_assoc]

end Tree

namespace NodeOf

def isMarked (n : Node) : Bool := n.recovered || Tree.isMarkedAny n.children

theorem isMarked_node (n : Node) : (Tree.node n).isMarked = n.isMarked := rfl

@[simp] theorem isMarked_new (name : String) : (new name).isMarked = false := rfl

theorem isMarked_add (n : Node) (tracking : LocationTracking) (label : String) (t : Tree) :
    (n.add tracking label t).isMarked = (n.isMarked || t.isMarked) := by
  have hRecovered : (n.add tracking label t).recovered = n.recovered := by
    unfold add extend
    simp only
    split
    · split
      · rfl
      · rfl
    · rfl
  rw [isMarked, hRecovered, add, Tree.isMarkedAny_append]
  simp only [Tree.isMarkedAny, Bool.or_false, isMarked, Bool.or_assoc]

end NodeOf

namespace Parse

variable {α : Type} {i : Input α} {s t u : State} {x : Token} {e : RecognitionError}

def State.isMarked (s : State) : Bool := s.openNodes.any NodeOf.isMarked

theorem isMarked_markRecovered (h : s.openNodes ≠ []) : s.markRecovered.isMarked = true := by
  obtain ⟨n, rest, hOpen⟩ := List.exists_cons_of_ne_nil h
  simp [State.isMarked, State.markRecovered, State.updateNode, hOpen, NodeOf.isMarked]

theorem isMarked_addToken (label : Option String) (expected : TypeId) (x : Token) :
    (i.addToken s label expected x).isMarked = s.isMarked := by
  unfold Input.addToken State.updateNode
  split
  · split
    · rfl
    · next n rest hOpen =>
      simp only [State.isMarked, hOpen, List.any_cons, NodeOf.isMarked_add, Tree.isMarked,
        Bool.or_false]
  · rfl

theorem isMarked_enter (rule : RuleId) (occurrence : Nat) :
    (i.enter s rule occurrence).isMarked = s.isMarked := by
  unfold State.isMarked Input.enter
  simp only
  split
  · simp
  · rfl

theorem isMarked_leave (hTree : i.grammar.config.outputTree = true) {n parent : Node}
    {outer : List Node} (hOpen : t.openNodes = n :: parent :: outer) (rule : RuleId)
    (label : Option String) : (i.leave t rule label).isMarked = t.isMarked := by
  simp only [State.isMarked, Input.leave, hTree, hOpen, List.any_cons, NodeOf.isMarked_add,
    NodeOf.isMarked_node]
  rw [Bool.or_comm parent.isMarked, Bool.or_assoc]

/-! ## What goes without a mark -/

/-- The error was found in a rule with the repetition that skipped tokens for it. They begin where
it was found and end where the repetition goes on, or where what follows it can begin. -/
structure Input.SkippedIn (i : Input α) (key : DecisionKey) (separator : Option TypeId)
    (e : RecognitionError) : Prop where
  decided : (i.decisionAt? key).isSome = true
  rule : e.ruleStack.getLast? = some (i.grammar.ruleName key.rule)
  tokens : ∃ start stop, e.token = i.tokenAt start ∧ e.resynced = i.slice start stop ∧
    i.ResumesAt key separator stop

def Input.SkippedByRepetition (i : Input α) (e : RecognitionError) : Prop :=
  ∃ rule mandatory separator occurrence,
    i.SkippedIn ⟨rule, .ofRepetition mandatory separator, occurrence⟩ separator e

structure Untouched (i : Input α) (s : State) : Prop where
  leaves : ∀ n ∈ s.openNodes, ∀ x ∈ n.leaves, i.Has x
  errors : ∀ e ∈ s.errors, e.resynced = [] ∨ i.SkippedByRepetition e

/-- A state that shows by a mark what recovery has done, repetitions apart. -/
def Honest (i : Input α) (s : State) : Prop := s.isMarked = true ∨ Untouched i s

def FoundHere (i : Input α) (t : State) (error : Nat) : Prop :=
  ∃ e, t.errors[error]? = some e ∧ e.resynced = [] ∧ e.token = i.tokenAt t.position ∧
    e.ruleStack = t.calls.reverse.map fun c => i.grammar.ruleName c.rule

structure OfRule (i : Input α) (loop : Input.Loop α) (s : State) : Prop where
  rule : loop.key.rule = s.currentRule
  kind : loop.key.kind = .ofRepetition loop.mandatory loop.separator
  decided : (i.decisionAt? loop.key).isSome = true

theorem OfRule.of_frame {loop : Input.Loop α} (h : OfRule i loop s) (hFrame : Frame i s t) :
    OfRule i loop t :=
  ⟨h.rule.trans hFrame.currentRule.symm, h.kind, h.decided⟩

namespace Untouched

theorem moveTo (h : Untouched i s) (index : Nat) : Untouched i { s with position := index } :=
  ⟨h.leaves, h.errors⟩

theorem addToken (h : Untouched i s) (hx : i.Has x) (label : Option String) (expected : TypeId) :
    Untouched i (i.addToken s label expected x) := by
  constructor
  · unfold Input.addToken State.updateNode
    split
    · split
      · exact h.leaves
      · next n rest hOpen =>
        obtain ⟨hFirst, hRest⟩ := List.forall_mem_cons.mp (hOpen ▸ h.leaves)
        refine List.forall_mem_cons.mpr ⟨fun y hy => ?_, hRest⟩
        rw [NodeOf.leaves_add, Tree.leaves] at hy
        rcases List.mem_append.mp hy with hOld | hNew
        · exact hFirst y hOld
        · exact List.mem_singleton.mp hNew ▸ hx
    · exact h.leaves
  · rw [errors_addToken]
    exact h.errors

theorem recordError (h : Untouched i s) (cause : RecognitionCause) :
    Untouched i (i.recordError s cause).1 := by
  refine ⟨h.leaves, fun e he => ?_⟩
  rcases List.mem_append.mp he with hOld | hNew
  · exact h.errors e hOld
  · exact .inl (List.mem_singleton.mp hNew ▸ rfl)

theorem enter (h : Untouched i s) (rule : RuleId) (occurrence : Nat) :
    Untouched i (i.enter s rule occurrence) := by
  refine ⟨?_, h.errors⟩
  unfold Input.enter
  simp only
  split
  · exact List.forall_mem_cons.mpr ⟨fun x hx => by simp at hx, h.leaves⟩
  · exact h.leaves

theorem leave (h : Untouched i t) (hs : Growing i s) {rule : RuleId} {occurrence : Nat}
    (hFrame : Frame i (i.enter s rule occurrence) t) (label : Option String) :
    Untouched i (i.leave t rule label) := by
  obtain ⟨n, parent, outer, hOpen⟩ := hs.exists_parent hFrame
  have hLeaves := h.leaves
  simp only [hOpen, List.forall_mem_cons] at hLeaves
  obtain ⟨hNode, hParent, hOuter⟩ := hLeaves
  constructor
  · simp only [Input.leave, hs.tree, hOpen, List.forall_mem_cons]
    refine ⟨fun x hx => ?_, hOuter⟩
    rw [NodeOf.leaves_add, NodeOf.leaves_node] at hx
    exact (List.mem_append.mp hx).elim (hParent x) (hNode x)
  · rw [errors_leave]
    exact h.errors

theorem resyncTo (h : Untouched i t) {error : Nat} (hFound : FoundHere i t error)
    {loop : Input.Loop α} (hLoop : OfRule i loop t) (hCalls : t.calls ≠ []) {index : Nat}
    (hStop : i.ResumesAt loop.key loop.separator index) :
    Untouched i (t.resyncTo i error index) := by
  refine ⟨h.leaves, fun e he => ?_⟩
  rcases mem_modify he with hOld | ⟨found, hSame, rfl⟩
  · exact h.errors e hOld
  · obtain ⟨e, hError, hNone, hToken, hStack⟩ := hFound
    obtain rfl := Option.some.inj (hError.symm.trans hSame)
    obtain ⟨⟨rule, kind, occurrence⟩, mandatory, separator, body⟩ := loop
    obtain ⟨hRule, hKind, hDecided⟩ := hLoop
    obtain ⟨call, calls, hTop⟩ := List.exists_cons_of_ne_nil hCalls
    simp only [State.currentRule, hTop, List.head?_cons, Option.map_some, Option.getD_some]
      at hRule hKind
    subst hRule hKind
    refine .inr ⟨_, mandatory, separator, occurrence, hDecided, ?_, t.position, index, hToken, ?_,
      hStop⟩
    · simp [hStack, hTop]
    · simp [hNone]

end Untouched

theorem foundHere_recordError (s : State) (cause : RecognitionCause) :
    FoundHere i (i.recordError s cause).1 s.errors.length :=
  ⟨_, List.getElem?_concat_length, rfl, rfl, rfl⟩

/-! ## Runs -/

/-- A run keeps to what marks show. An error that interrupts it has been marked or can still be
repaired where it was found. -/
def HonestAround (i : Input α) (s t : State) : Prop :=
  Frame i s t ∧ (Growing i s → Honest i s → Honest i t)

def HonestStopped (i : Input α) (s : State) (error : Nat) (t : State) : Prop :=
  Stopped i s error t ∧
    (Growing i s → Honest i s → t.isMarked = true ∨ Untouched i t ∧ FoundHere i t error)

theorem Honest.enter (h : Honest i s) (rule : RuleId) (occurrence : Nat) :
    Honest i (i.enter s rule occurrence) :=
  h.imp ((isMarked_enter rule occurrence).trans ·) (·.enter rule occurrence)

theorem Honest.addToken (h : Honest i s) (hx : i.Has x) (label : Option String)
    (expected : TypeId) : Honest i (i.addToken s label expected x) :=
  h.imp ((isMarked_addToken label expected x).trans ·) (·.addToken hx label expected)

theorem honestAround_refl (s : State) : HonestAround i s s := ⟨.refl s, fun _ => id⟩

theorem HonestAround.trans (h : HonestAround i s t) (h' : HonestAround i t u) :
    HonestAround i s u :=
  ⟨h.1.trans h'.1, fun hs hHonest => h'.2 (hs.of_frame h.1) (h.2 hs hHonest)⟩

theorem HonestStopped.honest {error : Nat} (h : HonestStopped i s error t) : HonestAround i s t :=
  ⟨h.1.1, fun hs hHonest => (h.2 hs hHonest).imp_right And.left⟩

theorem honestStopped_fails (s : State) : i.Fails s (HonestStopped i s) := by
  refine fun cause => ⟨stopped_recordError s cause, fun _ hHonest => ?_⟩
  exact hHonest.imp_right fun h => ⟨h.recordError cause, foundHere_recordError s cause⟩

theorem honest_consume (s : State) (occurrence : Nat) (expected : TypeId) (label : Option String) :
    (i.consume s occurrence expected label).Ends (HonestAround i s) (HonestStopped i s) := by
  have hFrame := frame_consume (i := i) s occurrence expected label
  unfold Input.consume at hFrame ⊢
  simp only at hFrame ⊢
  split
  · next hMatch =>
    rw [if_pos hMatch] at hFrame
    refine ⟨hFrame, fun _ hHonest => ?_⟩
    split
    · exact hHonest.addToken (has_tokenAt _) label expected
    · have hMoved : Honest i { s with position := s.position + 1 } := hHonest.imp_right (·.moveTo _)
      exact hMoved.addToken (has_tokenAt _) label expected
  · next hMatch =>
    rw [if_neg hMatch] at hFrame
    split
    · next x t hRecovered =>
      rw [hRecovered] at hFrame
      refine ⟨hFrame, fun hs _ => .inl ?_⟩
      -- Whichever way the token was found, the node it is added to is marked.
      have hNodes : t.openNodes ≠ [] := by
        split at hRecovered
        · rcases Input.recoverToken?_cases hRecovered with ⟨-, rfl⟩ | ⟨-, -, -, rfl⟩
          · exact hs.nodes
          · exact hs.nodes
        · cases hRecovered
      rw [isMarked_addToken]
      exact isMarked_markRecovered hNodes
    · exact honestStopped_fails s _

theorem honest_resyncTo {loop : Input.Loop α} {error index : Nat} (hLoop : OfRule i loop s)
    (h : HonestStopped i s error t) (hStop : i.ResumesAt loop.key loop.separator index)
    (hFrame : Frame i s (t.resyncTo i error index)) :
    HonestAround i s (t.resyncTo i error index) := by
  refine ⟨hFrame, fun hs hHonest => (h.2 hs hHonest).imp_right fun ⟨hPlain, hFound⟩ => ?_⟩
  exact hPlain.resyncTo hFound (hLoop.of_frame h.1.1) (hs.inside.of_frame h.1.1).calls hStop

theorem honest_skip {loop : Input.Loop α} (hLoop : OfRule i loop s) :
    HonestAround i s
      (i.skipToNextIteration s loop.key (i.decisionAt? loop.key) loop.separator).1 := by
  have hFrame := frame_skipToNextIteration (i := i) (s := s) loop.key (i.decisionAt? loop.key)
    loop.separator
  rcases i.skipToNextIteration_resumes s loop.key loop.separator with hSkip |
    ⟨cause, index, resumes, hStop, hSkip⟩
  · rw [hSkip]
    exact honestAround_refl s
  · rw [hSkip] at hFrame ⊢
    exact honest_resyncTo hLoop (honestStopped_fails s cause) hStop hFrame

theorem honest_resume {loop : Input.Loop α} {error : Nat} (hLoop : OfRule i loop s)
    (h : HonestStopped i s error t) :
    match i.resumeRepetition t loop.key (i.decisionAt? loop.key) loop.separator error with
    | .again u => HonestAround i s u
    | .exit u => HonestAround i s u
    | .failed u => HonestStopped i s error u := by
  have hFrame := frame_preserved.resume h.1 loop.key (i.decisionAt? loop.key) loop.separator
  rcases i.resumeRepetition_resumes t loop.key loop.separator error with hRes |
    ⟨index, hStop, hRes | hRes⟩
  · rw [hRes]
    exact h
  · rw [hRes] at hFrame ⊢
    exact honest_resyncTo hLoop h hStop hFrame
  · rw [hRes] at hFrame ⊢
    exact honest_resyncTo hLoop h hStop hFrame

theorem openNodes_recoverRule (t : State) (error : Nat) :
    (i.recoverRule t error).1.openNodes = t.markRecovered.openNodes := by
  rcases i.recoverRule_cases t error with ⟨_, -, -, hRec⟩ | ⟨-, -, -, hRec⟩ | ⟨-, hRec⟩
  · rw [hRec]
    rfl
  · rw [hRec]
  · rw [hRec]

/-- A rule that an error has interrupted is marked, whether or not it recovers. -/
theorem isMarked_recoverRule (h : t.openNodes ≠ []) (error : Nat) :
    (i.recoverRule t error).1.isMarked = true := by
  rw [State.isMarked, openNodes_recoverRule]
  exact isMarked_markRecovered h

theorem isMarked_recovered (hs : Growing i s) {rule : RuleId} {occurrence error : Nat}
    (h : Stopped i (i.enter s rule occurrence) error t) (label : Option String) :
    (i.leave (i.recoverRule t error).1 rule label).isMarked = true := by
  obtain ⟨n, parent, outer, hOpen⟩ := hs.exists_parent h.markRecovered.1
  rw [← openNodes_recoverRule (i := i) t error] at hOpen
  rw [isMarked_leave hs.tree hOpen]
  exact isMarked_recoverRule ((hs.enter rule occurrence).of_frame h.1).nodes error

theorem honest_preserved :
    PreservedWith i (OfRule i) (HonestAround i) (HonestStopped i) where
  refl := honestAround_refl
  trans := .trans
  trans_stopped h h' := ⟨frame_preserved.trans_stopped h.1 h'.1,
    fun hs hHonest => h'.2 (hs.of_frame h.1) (h.2 hs hHonest)⟩
  attempt h := h.honest
  consume := honest_consume
  fails := honestStopped_fails
  begins s mandatory separator occurrence body hEnters := by
    refine ⟨rfl, rfl, ?_⟩
    unfold Input.enters at hEnters
    split at hEnters
    · next d hDecision => rw [hDecision]; rfl
    · cases hEnters
  stays hLoop h := hLoop.of_frame h.1
  separator {loop s} _ _ := by
    refine ⟨frame_consumeSeparator loop.separator, fun _ hHonest => ?_⟩
    cases loop.separator with
    | none => exact hHonest
    | some token =>
      have hMoved : Honest i { s with position := s.position + 1 } := hHonest.imp_right (·.moveTo _)
      exact hMoved.addToken (has_tokenAt _) none token
  skip := honest_skip
  resume := honest_resume
  leave h label := by
    refine ⟨h.1.leave, fun hs hHonest => ?_⟩
    obtain ⟨n, parent, outer, hOpen⟩ := hs.exists_parent h.1
    have hInner := h.2 (hs.enter _ _) (hHonest.enter _ _)
    exact hInner.imp ((isMarked_leave hs.tree hOpen _ label).trans ·) (·.leave hs h.1 label)
  recover h label := by
    have hFrame := frame_recover label h.1
    split
    · next hRecovered =>
      rw [if_pos hRecovered] at hFrame
      exact ⟨hFrame, fun hs _ => .inl (isMarked_recovered hs h.1 label)⟩
    · next hRecovered =>
      rw [if_neg hRecovered] at hFrame
      exact ⟨hFrame, fun hs _ => .inl (isMarked_recovered hs h.1 label)⟩
  trial h := by
    refine ⟨frame_endTrial h.1, fun hs hHonest => ?_⟩
    rw [endTrial_eq_self hs.inside.tidy h.1]
    exact hHonest

/-! ## Parses -/

/-- Without a mark in its tree, a parse has made up no token of it, and has skipped tokens in
repetitions only. -/
def ShowsRepairs (i : Input α) (root : Node) (errors : List RecognitionError) : Prop :=
  root.isMarked = true ∨
    (∀ x ∈ root.leaves, i.Has x) ∧ ∀ e ∈ errors, e.resynced = [] ∨ i.SkippedByRepetition e

variable [Inhabited α]

theorem Input.showsRepairs_start (hTree : i.grammar.config.outputTree = true) (fuel : Nat)
    (rule : RuleId) :
    (i.invoke fuel rule 0 none .initial).Ends
      (fun s => ∃ root, s.root = some root ∧ ShowsRepairs i root s.errors)
      fun _ s => ∃ root, s.root = some root ∧ ShowsRepairs i root s.errors := by
  cases fuel with
  | zero => rw [Input.invoke]; trivial
  | succ fuel =>
    have hGrowing := growing_start hTree rule
    have hStart : Honest i (i.enter .initial rule 0) := by
      refine .inr (Untouched.enter ⟨?_, ?_⟩ rule 0)
      · exact List.forall_mem_nil _
      · exact List.forall_mem_nil _
    apply Input.ends_invoke
    refine ((honest_preserved.within fuel).body (i.grammar.body rule) default _).mono ?_ ?_
    · rintro t ⟨hFrame, hKeep⟩
      obtain ⟨root, hOpen⟩ := exists_root hTree hFrame
      rw [leave_root hTree hOpen]
      refine ⟨root, rfl, (hKeep hGrowing hStart).imp (fun hMarked => ?_) fun hPlain => ?_⟩
      · simpa [State.isMarked, hOpen] using hMarked
      · exact ⟨hPlain.leaves root (hOpen ▸ List.mem_singleton_self root), hPlain.errors⟩
    · rintro error t ⟨hStopped, -⟩
      have hMarked := isMarked_recoverRule (i := i) (hGrowing.of_frame hStopped.1).nodes error
      obtain ⟨root, hOpen⟩ := exists_root hTree hStopped.markRecovered.1
      rw [← openNodes_recoverRule (i := i) t error] at hOpen
      have hRoot : root.isMarked = true := by simpa [State.isMarked, hOpen] using hMarked
      rw [leave_root hTree hOpen]
      split
      · exact ⟨root, rfl, .inl hRoot⟩
      · exact ⟨root, rfl, .inl hRoot⟩

omit [Inhabited α] in
theorem ShowsRepairs.finish (a : α)
    (h : ∃ root, s.root = some root ∧ ShowsRepairs i root s.errors) :
    ∃ root, (i.finish a s).tree = some root ∧ ShowsRepairs i root (i.finish a s).errors := by
  obtain ⟨root, hRoot, hShows⟩ := h
  refine ⟨root, ?_⟩
  rcases i.finish_cases a s with ⟨-, hFinish⟩ | ⟨-, -, hFinish⟩
  · rw [hFinish]
    exact ⟨hRoot, hShows⟩
  · rw [hFinish]
    refine ⟨hRoot, hShows.imp_right fun ⟨hLeaves, hErrors⟩ => ⟨hLeaves, fun e he => ?_⟩⟩
    rcases List.mem_append.mp he with hOld | hNew
    · exact hErrors e hOld
    · exact .inl (List.mem_singleton.mp hNew ▸ rfl)

theorem Input.showsRepairs_of_parsed (hTree : i.grammar.config.outputTree = true) {fuel : Nat}
    {rule : RuleId} {output : ParseOutput α} (hParse : i.parseFrom fuel rule = .parsed output) :
    ∃ root, output.tree = some root ∧ ShowsRepairs i root output.errors := by
  have hStart := i.showsRepairs_start hTree fuel rule
  rw [Input.parseFrom] at hParse
  cases hRun : i.invoke fuel rule 0 none .initial with
  | done a s =>
    rw [hRun] at hStart hParse
    cases hParse
    exact ShowsRepairs.finish a hStart
  | interrupted e a s =>
    rw [hRun] at hStart hParse
    cases hParse
    exact ShowsRepairs.finish default hStart
  | panicked why => rw [hRun] at hParse; cases hParse
  | outOfFuel => rw [hRun] at hParse; cases hParse

end Parse

/-! ## Repetitions of a grammar -/

theorem Production.eq_repetition {p : Production} {mandatory : Bool} {separator : Option TypeId}
    (h : p.kind = .ofRepetition mandatory separator) :
    ∃ mandatory separator definition occurrence,
      p = .repetition mandatory separator definition occurrence := by
  cases p with
  | repetition mandatory separator definition occurrence => exact ⟨_, _, _, _, rfl⟩
  | terminal | nonTerminal | option | alternation =>
    cases mandatory <;> cases separator <;> cases h

variable {α : Type}

theorem Grammar.IsCompiled.exists_repetition {g : Grammar α} {sources : List (RuleBody α)}
    (h : g.IsCompiled sources) {rule : RuleId} {mandatory : Bool} {separator : Option TypeId}
    {occurrence : Nat} (hDecided : (g.analysis.decisionAt?
      ⟨rule, .ofRepetition mandatory separator, occurrence⟩).isSome = true) :
    ∃ r, g.rules[rule]? = some r ∧ ∃ mandatory separator definition occurrence,
      Production.repetition mandatory separator definition occurrence ∈ r.nodes := by
  obtain ⟨d, hDecision⟩ := Option.isSome_iff_exists.mp hDecided
  obtain ⟨before, behind, hEntries, -⟩ := List.lookup_eq_some_iff.mp hDecision
  have hEntry : (_, d) ∈ g.analysis.decisions := hEntries ▸ List.mem_append_cons_self
  rw [(Analysis.tables_of_ofRules? h.analysed).1, List.mem_filterMap] at hEntry
  obtain ⟨⟨id, site⟩, hSite, hKey⟩ := hEntry
  obtain ⟨_, -, hEq⟩ := Option.map_eq_some_iff.mp hKey
  simp only [Analysis.key, Prod.mk.injEq, DecisionKey.mk.injEq] at hEq
  obtain ⟨⟨rfl, hKind, -⟩, -⟩ := hEq
  obtain ⟨r, hRule, hNode⟩ := Analysis.mem_nodes_of_site hSite
  obtain ⟨mandatory, separator, definition, occurrence, hProduction⟩ :=
    Production.eq_repetition hKind
  exact ⟨r, hRule, mandatory, separator, definition, occurrence, hProduction ▸ hNode⟩

theorem Parse.Input.SkippedByRepetition.exists_repetition {i : Parse.Input α}
    {e : RecognitionError} (h : i.SkippedByRepetition e) {sources : List (RuleBody α)}
    (hCompiled : i.grammar.IsCompiled sources) :
    ∃ r ∈ i.grammar.rules, e.ruleStack.getLast? = some r.name ∧
      ∃ mandatory separator definition occurrence,
        Production.repetition mandatory separator definition occurrence ∈ r.nodes := by
  obtain ⟨rule, mandatory, separator, occurrence, hDecided, hStack, -⟩ := h
  obtain ⟨r, hRule, hRepetition⟩ := hCompiled.exists_repetition hDecided
  refine ⟨r, List.mem_of_getElem? hRule, hStack.trans ?_, hRepetition⟩
  rw [Grammar.ruleName, ruleName, hRule]
  rfl

variable [Inhabited α]

/-- A tree without a mark holds no made-up token, and the errors beside it have no tokens skipped
for them but by repetitions of the rules they were found in. -/
theorem parse_marks_repairs {types : List TokenType} {bodies : List (RuleBody α)}
    {config : ParserConfig} {g : Grammar α}
    (hCompile : Grammar.compile (.ofTypes types) bodies config = .ok g)
    (hTree : config.outputTree = true) {tokens : List Token} {fuel : Nat} {start : String}
    {output : Parse.ParseOutput α} (hParse : g.parseWithin fuel start tokens = .parsed output) :
    ∃ root, output.tree = some root ∧ (root.isMarked = false →
      (∀ x ∈ root.leaves, x.inserted = true → x ∈ tokens) ∧
      ∀ e ∈ output.errors, e.resynced ≠ [] →
        (⟨g, tokens.toArray⟩ : Parse.Input α).SkippedByRepetition e ∧
          ∃ r ∈ g.rules, e.ruleStack.getLast? = some r.name ∧
            ∃ mandatory separator definition occurrence,
              Production.repetition mandatory separator definition occurrence ∈ r.nodes) := by
  obtain ⟨hCompiled, -, rfl⟩ := Grammar.compile_ok hCompile
  unfold Grammar.parseWithin at hParse
  split at hParse
  · cases hParse
  · obtain ⟨root, hRoot, hShows⟩ := Parse.Input.showsRepairs_of_parsed
      (i := ⟨g, tokens.toArray⟩) hTree hParse
    refine ⟨root, hRoot, fun hNone => ?_⟩
    obtain ⟨hLeaves, hErrors⟩ := hShows.resolve_left (Bool.eq_false_iff.mp hNone)
    constructor
    · intro x hx hInserted
      rcases hLeaves x hx with rfl | hText
      · cases hInserted
      · exact hText
    · intro e he hSome
      have hSkipped := (hErrors e he).resolve_left hSome
      exact ⟨hSkipped, hSkipped.exists_repetition hCompiled⟩

/-! ## Tokens skipped without a mark -/

namespace Pairs

def types : List TokenType := [.literal "A" "a", .literal "B" "b", .literal "X" "x"]

def rules : List (RuleBody Unit) :=
  [⟨"start", [.repetition false none 0 [.token 1, .token 2] id]⟩]

/-- A pair that breaks off, two tokens that belong to none, and a pair. -/
def broken : List Token :=
  [⟨1, "a", ⟨0, 1⟩, none, none, false⟩, ⟨3, "x", ⟨1, 2⟩, none, none, false⟩,
    ⟨3, "x", ⟨2, 3⟩, none, none, false⟩, ⟨1, "a", ⟨3, 4⟩, none, none, false⟩,
    ⟨2, "b", ⟨4, 5⟩, none, none, false⟩]

def skips (g : Grammar Unit) : Bool :=
  match g.parseWithin 100 "start" broken with
  | .parsed output =>
    output.tree.any (fun root => !root.isMarked) &&
      output.errors.any fun e => e.resynced == (broken.drop 1).take 2
  | _ => false

theorem exists_skipped : ∃ g output root e,
    Grammar.compile (.ofTypes types) rules { recovery := true } = .ok g ∧
      g.parseWithin 100 "start" broken = .parsed output ∧ output.tree = some root ∧
      root.isMarked = false ∧ e ∈ output.errors ∧ e.resynced = (broken.drop 1).take 2 := by
  obtain ⟨g, hCompile, hSkips⟩ := Grammar.exists_compiled (v := .ofTypes types) (p := skips)
    (by decide +kernel : (Grammar.compile (.ofTypes types) rules
      { recovery := true }).toOption.any _ = true)
  unfold skips at hSkips
  split at hSkips
  · next output hParse =>
    simp only [Bool.and_eq_true, List.any_eq_true, beq_iff_eq] at hSkips
    obtain ⟨hTree, e, he, hSkipped⟩ := hSkips
    obtain ⟨root, hRoot, hNone⟩ := (Option.any_eq_true _ _).mp hTree
    exact ⟨g, output, root, e, hCompile, hParse, hRoot, by simpa using hNone, he, hSkipped⟩
  · cases hSkips

end Pairs

theorem parse_marks_repairs_pairs : ∃ (g : Grammar Unit) (output : Parse.ParseOutput Unit)
    (e : RecognitionError),
    Grammar.compile (.ofTypes Pairs.types) Pairs.rules { recovery := true } = .ok g ∧
      g.parseWithin 100 "start" Pairs.broken = .parsed output ∧ e ∈ output.errors ∧
      e.resynced ≠ [] ∧
      (⟨g, Pairs.broken.toArray⟩ : Parse.Input Unit).SkippedByRepetition e := by
  obtain ⟨g, output, root, e, hCompile, hParse, hTree, hNone, he, hSkipped⟩ := Pairs.exists_skipped
  have hSome : e.resynced ≠ [] := by
    rw [hSkipped]
    decide
  obtain ⟨root', hTree', hShows⟩ := parse_marks_repairs hCompile rfl hParse
  obtain rfl := Option.some.inj (hTree.symm.trans hTree')
  exact ⟨g, output, e, hCompile, hParse, he, hSome, ((hShows hNone).2 e he hSome).1⟩

/-- Tokens can be skipped without a mark anywhere in the tree. -/
theorem parse_skips_unmarked : ∃ (g : Grammar Unit) (output : Parse.ParseOutput Unit) (root : Node)
    (e : RecognitionError),
    Grammar.compile (.ofTypes Pairs.types) Pairs.rules { recovery := true } = .ok g ∧
      g.parseWithin 100 "start" Pairs.broken = .parsed output ∧ output.tree = some root ∧
      root.isMarked = false ∧ e ∈ output.errors ∧ e.resynced ≠ [] := by
  obtain ⟨g, output, root, e, hCompile, hParse, hTree, hNone, he, hSkipped⟩ := Pairs.exists_skipped
  refine ⟨g, output, root, e, hCompile, hParse, hTree, hNone, he, ?_⟩
  rw [hSkipped]
  decide

end PredictiveParsing
