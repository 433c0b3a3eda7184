import Mathlib.Algebra.Order.Group.Multiset
import PredictiveParsing.Proofs.Parse.InvariantInside
import PredictiveParsing.Proofs.Tree.Leaves

/-!
# The account of tokens

Every token that a run goes past is held by the tree or skipped for an error, and none is held
twice. What else the tree holds was made up by recovery or is the end of the input.
-/

namespace PredictiveParsing.Parse

variable {α : Type} {i : Input α} {s t u : State}

/-- The tokens of all nodes under construction and those skipped for errors. -/
def State.held (s : State) : List Token :=
  s.openNodes.flatMap NodeOf.leaves ++ s.errors.flatMap (·.resynced)

def IsMadeUp (x : Token) : Prop := x.inserted = true ∨ x.isEof = true

/-- The tokens skipped for an error stand together and begin where the error was found. -/
def IsSlice (i : Input α) (e : RecognitionError) : Prop :=
  ∃ start stop, e.token = i.tokenAt start ∧ e.resynced = i.slice start stop

structure Accounts (i : Input α) (s t : State) : Prop where
  forward : s.position ≤ t.position
  tokens : ∃ made : Multiset Token, (∀ x ∈ made, IsMadeUp x) ∧
    (t.held : Multiset Token) = s.held + i.slice s.position t.position + made
  slices : (∀ e ∈ s.errors, IsSlice i e) → ∀ e ∈ t.errors, IsSlice i e

/-- Nothing has been skipped yet for the error that interrupts a run, and it was found where the
run stands. -/
structure AccountsStopped (i : Input α) (s : State) (error : Nat) (t : State) : Prop where
  account : Accounts i s t
  found : ∃ e, t.errors[error]? = some e ∧ e.token = i.tokenAt t.position ∧ e.resynced = []

section Slice

variable {p q r : Nat}

theorem slice_eq : i.slice p q = (i.tokens.toList.take q).drop p := by
  rw [Input.slice, Array.toList_extract, List.extract_eq_drop_take']

theorem slice_self : i.slice p p = [] := by
  rw [slice_eq]
  exact List.drop_of_length_le (List.length_take_le _ _)

theorem slice_append (hpq : p ≤ q) (hqr : q ≤ r) : i.slice p q ++ i.slice q r = i.slice p r := by
  have hTake : i.tokens.toList.take q = (i.tokens.toList.take r).take q := by
    rw [List.take_take, Nat.min_eq_left hqr]
  rw [slice_eq, slice_eq, slice_eq, hTake, List.drop_take]
  conv_rhs => rw [← List.take_append_drop (q - p) (List.drop p (List.take r i.tokens.toList))]
  rw [List.drop_drop, Nat.add_sub_cancel' hpq]

theorem slice_one (h : p < i.tokens.size) : i.slice p (p + 1) = [i.tokenAt p] := by
  have hGet : i.tokenAt p = i.tokens[p] := by simp [Input.tokenAt, h]
  rw [hGet, slice_eq, List.drop_take, Nat.add_sub_cancel_left,
    List.drop_eq_getElem_cons (by simpa using h)]
  simp

theorem slice_outside (h : i.tokens.size ≤ p) : i.slice p q = [] := by
  rw [slice_eq]
  refine List.drop_of_length_le ?_
  simp only [List.length_take, Array.length_toList]
  exact (Nat.min_le_right _ _).trans h

theorem tokenAt_outside (h : i.tokens.size ≤ p) : (i.tokenAt p).isEof = true := by
  simp [Input.tokenAt, h, Input.eof, Token.eof, Token.isEof]

end Slice

/-! ## Tokens held behind each change of the state -/

theorem held_updateNode {f : Node → Node} (hf : ∀ n, (f n).leaves = n.leaves) :
    (s.updateNode f).held = s.held := by
  unfold State.updateNode
  split
  · rfl
  · next n rest hOpen => simp [State.held, hOpen, hf]

theorem held_markRecovered : s.markRecovered.held = s.held := held_updateNode fun _ => rfl

theorem markRecovered_position (p : Nat) :
    ({ s with position := p } : State).markRecovered = { s.markRecovered with position := p } := by
  unfold State.markRecovered State.updateNode
  simp only
  split <;> rfl

theorem held_addToken (hTree : i.grammar.config.outputTree = true) (hNodes : s.openNodes ≠ [])
    (label : Option String) (expected : TypeId) (x : Token) :
    ((i.addToken s label expected x).held : Multiset Token) = s.held + {x} := by
  obtain ⟨n, rest, hOpen⟩ := List.exists_cons_of_ne_nil hNodes
  simp only [Input.addToken, hTree, if_true, State.updateNode, hOpen, State.held,
    List.flatMap_cons, NodeOf.leaves_add, Tree.leaves, ← Multiset.coe_add, Multiset.coe_singleton]
  ac_rfl

theorem held_recordError (cause : RecognitionCause) : (i.recordError s cause).1.held = s.held := by
  simp [State.held, Input.recordError]

theorem flatMap_resynced_modify (errors : List RecognitionError) (skipped : List Token) {n : Nat}
    (h : n < errors.length) :
    (((errors.modify n fun e => { e with resynced := e.resynced ++ skipped }).flatMap
      (·.resynced) : List Token) : Multiset Token) = errors.flatMap (·.resynced) + skipped := by
  induction errors generalizing n with
  | nil => cases h
  | cons e errors ih =>
    cases n with
    | zero =>
      simp only [List.modify_zero_cons, List.flatMap_cons, ← Multiset.coe_add]
      ac_rfl
    | succ n =>
      simp only [List.modify_succ_cons, List.flatMap_cons, ← Multiset.coe_add,
        ih (Nat.lt_of_succ_lt_succ h), add_assoc]

theorem held_addResynced {error : Nat} (h : error < s.errors.length) (skipped : List Token) :
    ((s.addResynced error skipped).held : Multiset Token) = s.held + skipped := by
  simp only [State.held, State.addResynced, ← Multiset.coe_add, flatMap_resynced_modify _ _ h,
    add_assoc]

theorem held_enter (rule : RuleId) (occurrence : Nat) : (i.enter s rule occurrence).held = s.held := by
  unfold State.held Input.enter
  simp only
  split
  · simp
  · rfl

theorem held_leave (hTree : i.grammar.config.outputTree = true) {n parent : Node}
    {outer : List Node} (hOpen : s.openNodes = n :: parent :: outer) (rule : RuleId)
    (label : Option String) :
    ((i.leave s rule label).held : Multiset Token) = s.held := by
  simp only [Input.leave, hTree, hOpen, State.held, List.flatMap_cons, NodeOf.leaves_add,
    NodeOf.leaves_node, ← Multiset.coe_add]
  ac_rfl

theorem mem_modify {β : Type} {xs : List β} {n : Nat} {f : β → β} {x : β}
    (h : x ∈ xs.modify n f) : x ∈ xs ∨ ∃ y, xs[n]? = some y ∧ x = f y := by
  obtain ⟨k, hk⟩ := List.mem_iff_getElem?.mp h
  rw [List.getElem?_modify] at hk
  split at hk
  · next hEq =>
    subst hEq
    obtain ⟨y, hy, rfl⟩ := Option.map_eq_some_iff.mp hk
    exact .inr ⟨y, hy, rfl⟩
  · exact .inl (List.mem_of_getElem? (by simpa using hk))

namespace Accounts

theorem refl (s : State) : Accounts i s s :=
  ⟨Nat.le_refl _, ⟨0, by simp, by simp [slice_self]⟩, fun h => h⟩

theorem trans (h : Accounts i s t) (h' : Accounts i t u) : Accounts i s u := by
  obtain ⟨made, hMade, hTokens⟩ := h.tokens
  obtain ⟨made', hMade', hTokens'⟩ := h'.tokens
  refine ⟨h.forward.trans h'.forward, ⟨made + made', ?_, ?_⟩, fun hs => h'.slices (h.slices hs)⟩
  · intro x hx
    exact (Multiset.mem_add.mp hx).elim (hMade x) (hMade' x)
  · rw [hTokens', hTokens, ← slice_append h.forward h'.forward, ← Multiset.coe_add]
    ac_rfl

theorem of_start {s' : State} (h : Accounts i s' t) (hPosition : s'.position = s.position)
    (hHeld : s'.held = s.held) (hErrors : s'.errors = s.errors) : Accounts i s t := by
  obtain ⟨hForward, hTokens, hSlices⟩ := h
  rw [hPosition, hHeld] at hTokens
  rw [hPosition] at hForward
  rw [hErrors] at hSlices
  exact ⟨hForward, hTokens, hSlices⟩

theorem of_end {t' : State} (h : Accounts i s t) (hPosition : t'.position = t.position)
    (hHeld : (t'.held : Multiset Token) = t.held) (hErrors : t'.errors = t.errors) :
    Accounts i s t' := by
  obtain ⟨hForward, hTokens, hSlices⟩ := h
  exact ⟨hPosition ▸ hForward, by rw [hHeld, hPosition]; exact hTokens, hErrors ▸ hSlices⟩

theorem add_madeUp (h : Accounts i s t) {x : Token} (hx : IsMadeUp x)
    (hPosition : u.position = t.position)
    (hHeld : (u.held : Multiset Token) = t.held + {x}) (hErrors : u.errors = t.errors) :
    Accounts i s u := by
  obtain ⟨hForward, ⟨made, hMade, hTokens⟩, hSlices⟩ := h
  refine ⟨hPosition ▸ hForward, ⟨made + {x}, ?_, ?_⟩, hErrors ▸ hSlices⟩
  · intro y hy
    rcases Multiset.mem_add.mp hy with hy | hy
    · exact hMade y hy
    · exact Multiset.mem_singleton.mp hy ▸ hx
  · rw [hHeld, hTokens, hPosition]
    ac_rfl

theorem add_next (h : Accounts i s t) (hPosition : u.position = t.position + 1)
    (hHeld : (u.held : Multiset Token) = t.held + {i.tokenAt t.position})
    (hErrors : u.errors = t.errors) : Accounts i s u := by
  obtain ⟨hForward, ⟨made, hMade, hTokens⟩, hSlices⟩ := h
  have hLe : t.position ≤ t.position + 1 := Nat.le_succ _
  by_cases hIn : t.position < i.tokens.size
  · refine ⟨by omega, ⟨made, hMade, ?_⟩, hErrors ▸ hSlices⟩
    rw [hHeld, hTokens, hPosition, ← slice_append hForward hLe, slice_one hIn, ← Multiset.coe_add,
      Multiset.coe_singleton]
    ac_rfl
  · have hOut := Nat.le_of_not_lt hIn
    refine ⟨by omega, ⟨made + {i.tokenAt t.position}, ?_, ?_⟩, hErrors ▸ hSlices⟩
    · intro y hy
      rcases Multiset.mem_add.mp hy with hy | hy
      · exact hMade y hy
      · exact Multiset.mem_singleton.mp hy ▸ .inr (tokenAt_outside hOut)
    · rw [hHeld, hTokens, hPosition, ← slice_append hForward hLe, slice_outside hOut,
        List.append_nil]
      ac_rfl

end Accounts

theorem AccountsStopped.resync {e index : Nat} (h : AccountsStopped i s e t)
    (hIndex : t.position ≤ index) : Accounts i s (t.resyncTo i e index) := by
  obtain ⟨⟨hForward, ⟨made, hMade, hTokens⟩, hSlices⟩, error, hError, hToken, hNone⟩ := h
  refine ⟨hForward.trans hIndex, ⟨made, hMade, ?_⟩, ?_⟩
  · have hHeld := held_addResynced (List.getElem?_eq_some_iff.mp hError).1
      (i.slice t.position index)
    calc ((t.resyncTo i e index).held : Multiset Token)
        = t.held + i.slice t.position index := hHeld
      _ = s.held + i.slice s.position index + made := by
        rw [hTokens, ← slice_append hForward hIndex, ← Multiset.coe_add]
        ac_rfl
  · intro hs x hx
    rcases mem_modify hx with hx | ⟨y, hy, rfl⟩
    · exact hSlices hs x hx
    · obtain rfl := Option.some.inj (hError.symm.trans hy)
      exact ⟨t.position, index, hToken, by simp [hNone]⟩

theorem accountsStopped_fails (s : State) : i.Fails s (AccountsStopped i s) := by
  intro cause
  refine ⟨⟨Nat.le_refl _, ⟨0, by simp, ?_⟩, ?_⟩, ?_⟩
  · rw [held_recordError]
    simp [Input.recordError, slice_self]
  · intro hs e he
    rcases List.mem_append.mp he with he | he
    · exact hs e he
    · obtain rfl := List.mem_singleton.mp he
      exact ⟨s.position, s.position, rfl, slice_self.symm⟩
  · exact ⟨_, List.getElem?_concat_length, rfl, rfl⟩

theorem AccountsStopped.markRecovered {e : Nat} (h : AccountsStopped i s e t) :
    AccountsStopped i s e t.markRecovered := by
  refine ⟨h.account.of_end (position_updateNode _) (congrArg _ held_markRecovered)
    (errors_updateNode _), ?_⟩
  rw [State.markRecovered, errors_updateNode, position_updateNode]
  exact h.found

structure Growing (i : Input α) (s : State) : Prop where
  inside : Inside i s
  tree : i.grammar.config.outputTree = true
  nodes : s.openNodes ≠ []

theorem Growing.of_frame (h : Growing i s) (hFrame : Frame i s t) : Growing i t :=
  ⟨h.inside.of_frame hFrame, h.tree, ne_nil_of_length_eq hFrame.depth h.nodes⟩

theorem accounts_addToken (hs : Growing i s) {x : Token} (hx : IsMadeUp x) (label : Option String)
    (expected : TypeId) : Accounts i s (i.addToken s label expected x) :=
  (Accounts.refl s).add_madeUp hx (position_addToken _ _ _) (held_addToken hs.tree hs.nodes _ _ _)
    (errors_addToken _ _ _)

theorem accounts_addNext (hs : Growing i s) (label : Option String) (expected : TypeId) :
    Accounts i s
      (i.addToken { s with position := s.position + 1 } label expected (i.tokenAt s.position)) := by
  refine (Accounts.refl s).add_next (position_addToken _ _ _) ?_ (errors_addToken _ _ _)
  exact held_addToken (s := { s with position := s.position + 1 }) hs.tree hs.nodes _ _ _

theorem accounts_recoverToken {expected : TypeId} {occurrence : Nat} {x : Token}
    (hs : Growing i s) (hOn : i.recoveryEnabled (i.recordError s (.mismatchedToken expected)).1)
    (hRecovered : i.recoverToken? (i.recordError s (.mismatchedToken expected)).1 expected
      occurrence (i.recordError s (.mismatchedToken expected)).2 = some (x, t))
    (label : Option String) : Accounts i s (i.addToken t.markRecovered label expected x) := by
  have hRecord := frame_recordError (i := i) (s := s) (.mismatchedToken expected)
  have hFailed := accountsStopped_fails (i := i) s (.mismatchedToken expected)
  rcases Input.recoverToken?_cases hRecovered with ⟨rfl, rfl⟩ | ⟨hNext, -, rfl, rfl⟩
  · have hMarked := (hs.of_frame hRecord).of_frame (frame_markRecovered (i := i))
    exact hFailed.markRecovered.account.trans (accounts_addToken hMarked (.inl rfl) label expected)
  · have hIn : s.position < i.tokens.size := by
      by_contra hOut
      have hEof := tokenAt_outside (i := i) (Nat.le_of_not_lt hOut)
      rw [← Input.next_eq s] at hEof
      exact absurd (hNext.symm.trans hEof) Bool.false_ne_true
    have hSkip : Accounts i s (State.resyncTo (i.recordError s (.mismatchedToken expected)).1 i
        s.errors.length (s.position + 1)) := hFailed.resync (Nat.le_succ _)
    have hSkipFrame := frame_recordError_resyncTo (i := i) (s := s) hOn
      (.mismatchedToken expected) (s.position + 1)
    have hMarked := (hs.of_frame hSkipFrame).of_frame (frame_markRecovered (i := i))
    have hSkipMarked := hSkip.of_end (position_updateNode (s := State.resyncTo _ _ _ _) _)
      (congrArg _ held_markRecovered) (errors_updateNode _)
    have hAdd := hSkipMarked.trans (accounts_addNext hMarked label expected)
    have hSlice : i.slice s.position (s.position + 1) = [i.next s] := slice_one hIn
    have hPlace : (i.recordError s (.mismatchedToken expected)).1.position = s.position := rfl
    rw [State.resyncTo, hPlace, hSlice, markRecovered_position] at hAdd
    rw [markRecovered_position]
    exact hAdd

theorem accounts_consume (hs : Growing i s) (occurrence : Nat) (expected : TypeId)
    (label : Option String) :
    (i.consume s occurrence expected label).Ends (Accounts i s) (AccountsStopped i s) := by
  unfold Input.consume
  simp only
  split
  · split
    · next hEof => exact accounts_addToken hs (.inr hEof) label expected
    · exact accounts_addNext hs label expected
  · split
    · next x t hRecovered =>
      split at hRecovered
      · next hOn => exact accounts_recoverToken hs hOn hRecovered label
      · cases hRecovered
    · exact accountsStopped_fails s _

theorem Growing.exists_parent (hs : Growing i s) {rule : RuleId} {occurrence : Nat}
    (hFrame : Frame i (i.enter s rule occurrence) t) :
    ∃ n parent outer, t.openNodes = n :: parent :: outer := by
  have hDepth := hFrame.depth
  simp only [Input.enter, hs.tree, if_true, List.length_cons] at hDepth
  obtain ⟨n, rest, hOpen⟩ := List.exists_cons_of_length_eq_add_one hDepth
  rw [hOpen, List.length_cons] at hDepth
  have hRest := ne_nil_of_length_eq (Nat.succ.inj hDepth) hs.nodes
  obtain ⟨parent, outer, rfl⟩ := List.exists_cons_of_ne_nil hRest
  exact ⟨n, parent, outer, hOpen⟩

theorem accounts_leave (hs : Growing i s) {rule : RuleId} {occurrence : Nat}
    (hFrame : Frame i (i.enter s rule occurrence) t)
    (h : Accounts i (i.enter s rule occurrence) t) (label : Option String) :
    Accounts i s (i.leave t rule label) := by
  obtain ⟨n, parent, outer, hOpen⟩ := hs.exists_parent hFrame
  have hStart : Accounts i s t := h.of_start rfl (held_enter rule occurrence) rfl
  exact hStart.of_end (position_leave rule label) (held_leave hs.tree hOpen rule label)
    (errors_leave rule label)

theorem Growing.enter (hs : Growing i s) (rule : RuleId) (occurrence : Nat) :
    Growing i (i.enter s rule occurrence) := by
  refine ⟨hs.inside.tidy.inside_enter rule occurrence, hs.tree, ?_⟩
  simp [Input.enter, hs.tree]

theorem growing_start (hTree : i.grammar.config.outputTree = true) (rule : RuleId) :
    Growing i (i.enter .initial rule 0) :=
  ⟨tidy_initial.inside_enter rule 0, hTree, by simp [Input.enter, hTree]⟩

theorem exists_root (hTree : i.grammar.config.outputTree = true) {rule : RuleId}
    (hFrame : Frame i (i.enter .initial rule 0) t) : ∃ root, t.openNodes = [root] := by
  have hDepth := hFrame.depth
  simp only [Input.enter, hTree, if_true, State.initial, List.length_singleton] at hDepth
  exact List.length_eq_one_iff.mp hDepth

theorem leave_root (hTree : i.grammar.config.outputTree = true) {root : Node}
    (hOpen : t.openNodes = [root]) (rule : RuleId) (label : Option String) :
    i.leave t rule label =
      { t with calls := t.calls.tail, openNodes := [], root := some root } := by
  simp [Input.leave, hTree, hOpen]

theorem accounts_kept : KeptInside i (Growing i) (Accounts i) (AccountsStopped i) where
  inside h := h.inside
  frame := .of_frame
  enter := .enter
  beginTrial h := by
    refine ⟨⟨h.inside.tidy.beginTrial, h.inside.calls⟩, h.tree, ?_⟩
    simp [Input.beginTrial, h.tree]
  refl := .refl
  trans _ _ := .trans
  trans_stopped _ _ h h' := ⟨h.trans h'.account, h'.found⟩
  attempt h := h.account
  consume := accounts_consume
  fails := accountsStopped_fails
  separator h token _ := accounts_addNext h none token
  markRecovered := .markRecovered
  resync _ _ h _ index hIndex := h.resync hIndex
  leave h _ _ hFrame hDone label := accounts_leave h hFrame hDone label
  leave_stopped h _ _ hStopped hDone label := by
    refine ⟨accounts_leave h hStopped.1 hDone.account label, ?_⟩
    rw [errors_leave, position_leave]
    exact hDone.found

end PredictiveParsing.Parse
