import PredictiveParsing.Proofs.Parse.Account

/-!
# The text in the tree

Without recovery the tree is built from the tokens as they stand: what a run goes past is what it
puts into the tree, in the order of the text. An error leaves that alone and is found where the run
stands.
-/

namespace PredictiveParsing.Parse

variable {α : Type} {i : Input α} {s t u : State}

def State.read (s : State) : List Token :=
  (s.openNodes.reverse.flatMap NodeOf.leaves).filter fun x => !x.isEof

/-- A run puts the tokens that it goes past into the tree, and goes no further than their end. -/
structure TextRead (i : Input α) (s t : State) : Prop where
  forward : s.position ≤ t.position
  inRange : s.position ≤ i.tokens.size → t.position ≤ i.tokens.size
  read : t.read = s.read ++ i.slice s.position t.position

structure Passes (i : Input α) (s t : State) : Prop where
  text : TextRead i s t
  errors : t.errors = s.errors

structure FoundIn (i : Input α) (calls : List Call) (position : Nat) (e : RecognitionError) :
    Prop where
  token : e.token = i.tokenAt position
  previous : e.previous = if 0 < position then i.tokens[position - 1]? else none
  cause : e.cause ≠ .notAllInputParsed
  rules : calls.reverse.map (fun c => i.grammar.ruleName c.rule) <+: e.ruleStack

structure Breaks (i : Input α) (s : State) (t : State) : Prop where
  text : TextRead i s t
  found : ∃ e, t.errors = s.errors ++ [e] ∧ FoundIn i s.calls t.position e

/-! ## Tokens read behind each change of the state -/

theorem read_markRecovered : s.markRecovered.read = s.read := by
  unfold State.markRecovered State.updateNode
  split
  · rfl
  · next n rest hOpen => simp [State.read, hOpen, NodeOf.leaves]

theorem read_enter (rule : RuleId) (occurrence : Nat) : (i.enter s rule occurrence).read = s.read := by
  unfold State.read Input.enter
  simp only
  split
  · simp
  · rfl

theorem read_addToken (hs : Growing i s) (label : Option String) (expected : TypeId) (x : Token) :
    (i.addToken s label expected x).read = s.read ++ if x.isEof then [] else [x] := by
  obtain ⟨n, rest, hOpen⟩ := List.exists_cons_of_ne_nil hs.nodes
  simp only [Input.addToken, hs.tree, if_true, State.updateNode, hOpen, State.read,
    List.reverse_cons, List.flatMap_append, List.flatMap_singleton, NodeOf.leaves_add, Tree.leaves,
    List.filter_append, List.append_assoc]
  cases hEof : x.isEof with
  | true => simp [hEof]
  | false => simp [hEof]

theorem read_leave (hs : Growing i s) {rule : RuleId} {occurrence : Nat}
    (hFrame : Frame i (i.enter s rule occurrence) t) (label : Option String) :
    (i.leave t rule label).read = t.read := by
  obtain ⟨n, parent, outer, hOpen⟩ := hs.exists_parent hFrame
  simp only [Input.leave, hs.tree, hOpen, State.read, List.reverse_cons, List.flatMap_append,
    List.flatMap_singleton, NodeOf.leaves_add, NodeOf.leaves_node, List.append_assoc]

namespace TextRead

theorem refl (s : State) : TextRead i s s := ⟨Nat.le_refl _, id, by simp [slice_self]⟩

theorem trans (h : TextRead i s t) (h' : TextRead i t u) : TextRead i s u where
  forward := h.forward.trans h'.forward
  inRange := h'.inRange ∘ h.inRange
  read := by
    rw [h'.read, h.read, List.append_assoc, slice_append h.forward h'.forward]

theorem congr {s' t' : State} (h : TextRead i s t) (hStart : s'.position = s.position)
    (hRead : s'.read = s.read) (hEnd : t'.position = t.position) (hRead' : t'.read = t.read) :
    TextRead i s' t' := by
  obtain ⟨hForward, hRange, hText⟩ := h
  exact ⟨by omega, by rwa [hStart, hEnd], by rw [hRead', hRead, hStart, hEnd, hText]⟩

theorem addNext (hs : Growing i s) (hNext : i.kindAt s.position ≠ Vocabulary.eof)
    (label : Option String) (expected : TypeId) : TextRead i s
      (i.addToken { s with position := s.position + 1 } label expected (i.tokenAt s.position)) := by
  have hIn := Input.lt_of_kindAt hNext
  have hText : (i.tokenAt s.position).isEof = false := by
    rw [Token.isEof, kind_tokenAt]
    exact beq_false_of_ne hNext
  have hGrowing : Growing i { s with position := s.position + 1 } := hs.of_frame (frame_position _)
  constructor
  · rw [position_addToken]
    exact Nat.le_succ _
  · intro _
    rw [position_addToken]
    exact hIn
  · rw [read_addToken hGrowing, position_addToken, hText, slice_one hIn]
    rfl

theorem addEnd (hs : Growing i s) {x : Token} (hEnd : x.isEof = true) (label : Option String)
    (expected : TypeId) : TextRead i s (i.addToken s label expected x) := by
  refine (refl s).congr rfl rfl (position_addToken _ _ _) ?_
  rw [read_addToken hs, hEnd, if_pos rfl, List.append_nil]

theorem leave (hs : Growing i s) {rule : RuleId} {occurrence : Nat}
    (hFrame : Frame i (i.enter s rule occurrence) t) (h : TextRead i (i.enter s rule occurrence) t)
    (label : Option String) : TextRead i s (i.leave t rule label) :=
  h.congr rfl (read_enter rule occurrence).symm (position_leave rule label)
    (read_leave hs hFrame label)

end TextRead

namespace Passes

theorem refl (s : State) : Passes i s s := ⟨.refl s, rfl⟩

theorem trans (h : Passes i s t) (h' : Passes i t u) : Passes i s u :=
  ⟨h.text.trans h'.text, h'.errors.trans h.errors⟩

theorem leave (hs : Growing i s) {rule : RuleId} {occurrence : Nat}
    (hFrame : Frame i (i.enter s rule occurrence) t) (h : Passes i (i.enter s rule occurrence) t)
    (label : Option String) : Passes i s (i.leave t rule label) :=
  ⟨h.text.leave hs hFrame label, (errors_leave rule label).trans h.errors⟩

end Passes

namespace Breaks

theorem trans (hFrame : Frame i s t) (h : Passes i s t) (h' : Breaks i t u) : Breaks i s u := by
  obtain ⟨hText, e, hErrors, hFound⟩ := h'
  exact ⟨h.text.trans hText, e, h.errors ▸ hErrors, hFrame.calls ▸ hFound⟩

theorem markRecovered (h : Breaks i s t) : Breaks i s t.markRecovered := by
  obtain ⟨hText, e, hErrors, hFound⟩ := h
  have hPosition : t.markRecovered.position = t.position := position_updateNode _
  refine ⟨hText.congr rfl rfl hPosition read_markRecovered, e, ?_, hPosition ▸ hFound⟩
  exact (errors_updateNode _).trans hErrors

/-- Rules around the one in which an error was found are on the stack of the error too. -/
theorem leave (hs : Growing i s) {rule : RuleId} {occurrence : Nat}
    (hFrame : Frame i (i.enter s rule occurrence) t) (h : Breaks i (i.enter s rule occurrence) t)
    (label : Option String) : Breaks i s (i.leave t rule label) := by
  obtain ⟨hText, e, hErrors, hFound⟩ := h
  refine ⟨hText.leave hs hFrame label, e, (errors_leave rule label).trans hErrors, ?_⟩
  rw [position_leave]
  refine ⟨hFound.token, hFound.previous, hFound.cause, List.IsPrefix.trans ?_ hFound.rules⟩
  rw [Input.enter, List.reverse_cons, List.map_append]
  exact List.prefix_append _ _

end Breaks

theorem breaks_fails (s : State) : i.FailsInside s fun _ => Breaks i s := by
  intro cause hCause
  refine ⟨(TextRead.refl s).congr rfl rfl rfl rfl, _, rfl, rfl, rfl, hCause, ?_⟩
  exact List.prefix_rfl

theorem breaks_consume (hs : Growing i s) (hOff : i.recoveryEnabled s = false) (occurrence : Nat)
    (expected : TypeId) (label : Option String) :
    (i.consume s occurrence expected label).Ends (Passes i s) fun _ => Breaks i s := by
  unfold Input.consume
  simp only
  split
  · refine ⟨?_, ?_⟩
    · split
      · next hEof => exact .addEnd hs hEof label expected
      · next hText =>
        refine .addNext hs ?_ label expected
        rw [← kind_tokenAt, ← Input.next_eq]
        simpa [Token.isEof] using hText
    · rw [errors_addToken]
      split <;> rfl
  · have hSame : i.recoveryEnabled (i.recordError s (.mismatchedToken expected)).1 = false := hOff
    simp only [hSame, Bool.false_eq_true, if_false]
    exact breaks_fails s _ fun hCause => by cases hCause

theorem passes_consumeSeparator (hs : Growing i s) {separator : Option TypeId}
    {decision : Option Decision}
    (hEnd : ∀ {token}, i.isMatch Vocabulary.eof token = true → token = Vocabulary.eof)
    (hSeparator : separator ≠ some Vocabulary.eof)
    (hContinues : i.continues s decision separator = true) :
    Passes i s (i.consumeSeparator s separator) := by
  refine ⟨?_, errors_consumeSeparator separator⟩
  cases separator with
  | none => exact .refl s
  | some token =>
    refine .addNext hs (fun hEof => hSeparator ?_) none token
    rw [Input.continues, hEof] at hContinues
    rw [hEnd hContinues]

end PredictiveParsing.Parse
