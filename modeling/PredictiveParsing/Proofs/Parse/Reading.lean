import PredictiveParsing.Proofs.Grammar.Compiled
import PredictiveParsing.Proofs.Grammar.Derivation
import PredictiveParsing.Proofs.Parse.FrameOfRun

/-!
# What runs read

A run without a new error reads what the productions of its operations derive. Without recovery, a
run that is interrupted has read the beginning of such a derivation, and has found its one error at
the token where it stands.
-/

namespace PredictiveParsing.Parse

open Relation

variable {α : Type}

/-- A faithful grammar in which the end of the input matches nothing else, and tokens in front of
the end. -/
structure Input.IsRegular (i : Input α) : Prop where
  faithful : i.grammar.IsFaithful
  atEnd : ∀ {token}, i.isMatch Vocabulary.eof token = true → token = Vocabulary.eof
  tokens : ∀ t ∈ i.tokens, t.kind ≠ Vocabulary.eof

def Input.rest (i : Input α) (s : State) : List Token := i.tokens.toList.drop s.position

abbrev Input.Steps (i : Input α) : Continuation × List Token → Continuation × List Token → Prop :=
  PredictiveParsing.Steps i.grammar.rules i.grammar.vocabulary

structure Inside (i : Input α) (s : State) : Prop where
  tidy : Tidy i s
  calls : s.calls ≠ []

variable {i : Input α} {s t u : State}

theorem Inside.of_frame (h : Inside i s) (hFrame : Frame i s t) : Inside i t :=
  ⟨h.tidy.of_frame hFrame, hFrame.calls ▸ h.calls⟩

theorem Tidy.inside_enter (h : Tidy i s) (rule : RuleId) (occurrence : Nat) :
    Inside i (i.enter s rule occurrence) := ⟨h.enter rule occurrence, by simp [Input.enter]⟩

section Reading

variable {ι κ : Type} {before middle after : ι → Continuation}

/-- Without a new error, what stands before has been derived down to what stands after. Without
recovery there is no new error. -/
structure ReadDone (i : Input α) (before after : ι → Continuation) (s t : State) : Prop where
  silent : i.recoveryEnabled s = false → t.errors = s.errors
  reads : t.errors.length = s.errors.length → ∀ k, i.Steps (before k, i.rest s) (after k, i.rest t)

/-- The one error at the next token, behind the beginning of a derivation. -/
structure FirstError (i : Input α) (before : ι → Continuation) (s : State) (error : Nat)
    (t : State) : Prop where
  index : error = s.errors.length
  found : ∃ e, t.errors = s.errors ++ [e] ∧ e.token = i.next t
  reads : ∀ k, ∃ c, i.Steps (before k, i.rest s) (c, i.rest t)

def ReadStopped (i : Input α) (before : ι → Continuation) (s : State) (error : Nat) (t : State) :
    Prop :=
  i.recoveryEnabled s = false → FirstError i before s error t

theorem ReadDone.of_eq (h : ∀ k xs, i.Steps (before k, xs) (after k, xs)) :
    ReadDone i before after s s := ⟨fun _ => rfl, fun _ k => h k _⟩

/-- Nothing is claimed of a run behind a new error, which there is with recovery only. -/
theorem ReadDone.of_recovered (hOn : i.recoveryEnabled s = true)
    (hErrors : s.errors.length < t.errors.length) : ReadDone i before after s t :=
  ⟨fun hOff => by simp [hOn] at hOff, fun hSame => absurd hSame (Nat.ne_of_gt hErrors)⟩

theorem ReadDone.trans (hFrame : Frame i s t) (hFrame' : Frame i t u)
    (h : ReadDone i before middle s t) (h' : ReadDone i middle after t u) :
    ReadDone i before after s u where
  silent hOff := (h'.silent (hFrame.recoveryEnabled.trans hOff)).trans (h.silent hOff)
  reads hSame k := by
    have hLe := hFrame.errors_length_le
    have hLe' := hFrame'.errors_length_le
    exact (h.reads (by omega) k).trans (h'.reads (by omega) k)

theorem ReadStopped.trans {e : Nat} (hFrame : Frame i s t) (h : ReadDone i before middle s t)
    (h' : ReadStopped i middle t e u) : ReadStopped i before s e u := by
  intro hOff
  have hErrors := h.silent hOff
  obtain ⟨hIndex, ⟨error, hFound, hToken⟩, hReads⟩ := h' (hFrame.recoveryEnabled.trans hOff)
  refine ⟨by rw [hIndex, hErrors], ⟨error, by rw [hFound, hErrors], hToken⟩, fun k => ?_⟩
  obtain ⟨c, hc⟩ := hReads k
  exact ⟨c, (h.reads (congrArg _ hErrors) k).trans hc⟩

variable {before' after' : κ → Continuation}

theorem ReadDone.extend (f : κ → ι) (h : ReadDone i before after s t)
    (hBefore : ∀ k xs, i.Steps (before' k, xs) (before (f k), xs))
    (hAfter : ∀ k xs, i.Steps (after (f k), xs) (after' k, xs)) :
    ReadDone i before' after' s t :=
  ⟨h.silent, fun hSame k => ((hBefore k _).trans (h.reads hSame (f k))).trans (hAfter k _)⟩

theorem ReadStopped.extend {e : Nat} (f : κ → ι) (h : ReadStopped i before s e t)
    (hBefore : ∀ k xs, i.Steps (before' k, xs) (before (f k), xs)) :
    ReadStopped i before' s e t := by
  intro hOff
  obtain ⟨hIndex, hFound, hReads⟩ := h hOff
  refine ⟨hIndex, hFound, fun k => ?_⟩
  obtain ⟨c, hc⟩ := hReads (f k)
  exact ⟨c, (hBefore k _).trans hc⟩

end Reading

def inSequence (ps : List Production) (k : List Production × Continuation) : Continuation :=
  .sequence (ps ++ k.1) :: k.2

section Sequence

variable {ps qs d : List Production} {p : Production} {e : Nat}

theorem ReadDone.sequence (hFrame : Frame i s t) (hFrame' : Frame i t u)
    (h : ReadDone i (inSequence ps) (inSequence []) s t)
    (h' : ReadDone i (inSequence qs) (inSequence []) t u) :
    ReadDone i (inSequence (ps ++ qs)) (inSequence []) s u := by
  refine .trans hFrame hFrame' (?_ : ReadDone i _ (inSequence qs) s t) h'
  refine h.extend (fun k => (qs ++ k.1, k.2)) (fun k xs => ?_) fun k xs => .refl
  rw [inSequence, List.append_assoc]
  exact .refl

theorem ReadStopped.sequence_left (qs : List Production)
    (h : ReadStopped i (inSequence ps) s e t) : ReadStopped i (inSequence (ps ++ qs)) s e t := by
  refine h.extend (fun k => (qs ++ k.1, k.2)) fun k xs => ?_
  rw [inSequence, List.append_assoc]
  exact .refl

theorem ReadStopped.sequence_right (hFrame : Frame i s t)
    (h : ReadDone i (inSequence ps) (inSequence []) s t)
    (h' : ReadStopped i (inSequence qs) t e u) :
    ReadStopped i (inSequence (ps ++ qs)) s e u := by
  refine .trans hFrame (?_ : ReadDone i _ (inSequence qs) s t) h'
  refine h.extend (fun k => (qs ++ k.1, k.2)) (fun k xs => ?_) fun k xs => .refl
  rw [inSequence, List.append_assoc]
  exact .refl

theorem ReadDone.omitted (h : p.Expands i.grammar.rules []) :
    ReadDone i (inSequence [p]) (inSequence []) s s :=
  .of_eq fun _ _ => steps_production h

theorem steps_into_nested {k : List Production × Continuation} {xs : List Token}
    (h : p.Expands i.grammar.rules [.sequence d]) :
    i.Steps (inSequence [p] k, xs) (inSequence d ([], .sequence k.1 :: k.2), xs) := by
  rw [inSequence, inSequence, List.append_nil]
  exact steps_production h

theorem ReadDone.nested (hExpands : p.Expands i.grammar.rules [.sequence d])
    (h : ReadDone i (inSequence d) (inSequence []) s t) :
    ReadDone i (inSequence [p]) (inSequence []) s t :=
  h.extend (fun k => ([], .sequence k.1 :: k.2)) (fun _ _ => steps_into_nested hExpands)
    fun _ _ => steps_expand .nil

theorem ReadStopped.nested (hExpands : p.Expands i.grammar.rules [.sequence d])
    (h : ReadStopped i (inSequence d) s e t) : ReadStopped i (inSequence [p]) s e t :=
  h.extend (fun k => ([], .sequence k.1 :: k.2)) fun _ _ => steps_into_nested hExpands

end Sequence

section Token

variable {token : TypeId} {rest : Continuation}

@[simp] theorem position_updateNode (f : Node → Node) : (s.updateNode f).position = s.position := by
  unfold State.updateNode
  split <;> rfl

@[simp] theorem errors_updateNode (f : Node → Node) : (s.updateNode f).errors = s.errors := by
  unfold State.updateNode
  split <;> rfl

@[simp] theorem position_addToken (label : Option String) (expected : TypeId) (x : Token) :
    (i.addToken s label expected x).position = s.position := by
  unfold Input.addToken
  split
  · exact position_updateNode _
  · rfl

@[simp] theorem errors_addToken (label : Option String) (expected : TypeId) (x : Token) :
    (i.addToken s label expected x).errors = s.errors := by
  unfold Input.addToken
  split
  · exact errors_updateNode _
  · rfl

theorem errors_consumeSeparator (separator : Option TypeId) :
    (i.consumeSeparator s separator).errors = s.errors := by
  cases separator with
  | none => rfl
  | some token => exact errors_addToken _ _ _

theorem kind_tokenAt (index : Nat) : (i.tokenAt index).kind = i.kindAt index := by
  unfold Input.tokenAt Input.kindAt
  cases i.tokens[index]? <;> rfl

theorem headKind_rest (s : State) : headKind (i.rest s) = i.kindAt s.position := by
  rw [headKind, Input.rest, List.head?_drop, Input.kindAt, Array.getElem?_toList]

theorem Input.lt_of_kindAt {index : Nat} (h : i.kindAt index ≠ Vocabulary.eof) :
    index < i.tokens.size := by
  by_contra hOut
  refine h ?_
  rw [Input.kindAt, Array.getElem?_eq_none (Nat.not_lt.mp hOut)]
  rfl

theorem rest_congr (h : t.position = s.position) : i.rest t = i.rest s := by
  rw [Input.rest, Input.rest, h]

namespace Input.IsRegular

variable (h : i.IsRegular)

include h

theorem rest_eq_nil (hEof : i.kindAt s.position = Vocabulary.eof) : i.rest s = [] := by
  rw [← headKind_rest] at hEof
  cases hRest : i.rest s with
  | nil => rfl
  | cons x xs =>
    have hMem : x ∈ i.rest s := hRest ▸ List.mem_cons_self
    rw [hRest] at hEof
    exact absurd hEof (h.tokens x (Array.mem_toList_iff.mp (List.mem_of_mem_drop hMem)))

/-- The next token is read if it matches; behind the end there are no tokens either. -/
theorem steps_token (hMatch : i.isMatch (i.kindAt s.position) token = true)
    (hNext : t.position = s.position + 1) :
    i.Steps (.token token :: rest, i.rest s) (rest, i.rest t) := by
  have hRest : i.rest t = (i.rest s).tail := by
    rw [Input.rest, Input.rest, hNext, List.tail_drop]
  cases hs : i.rest s with
  | nil =>
    rw [← headKind_rest, hs] at hMatch
    obtain rfl := h.atEnd hMatch
    rw [hRest, hs]
    exact .single .atEnd
  | cons x xs =>
    rw [← headKind_rest, hs] at hMatch
    rw [hRest, hs]
    exact .single (.read hMatch)

theorem steps_eof (hMatch : i.isMatch (i.kindAt s.position) token = true)
    (hEof : i.kindAt s.position = Vocabulary.eof) :
    i.Steps (.token token :: rest, i.rest s) (rest, i.rest s) := by
  rw [hEof] at hMatch
  obtain rfl := h.atEnd hMatch
  rw [h.rest_eq_nil hEof]
  exact .single .atEnd

theorem reads_consume (s : State) (occurrence : Nat) (label : Option String) :
    (i.consume s occurrence token label).Ends
      (ReadDone i (inSequence [.terminal token occurrence]) (inSequence []) s)
      (ReadStopped i (inSequence [.terminal token occurrence]) s) := by
  have hTerminal : ∀ k xs, i.Steps (inSequence [.terminal token occurrence] k, xs)
      (.token token :: inSequence [] k, xs) := fun k xs => steps_production .terminal
  unfold Input.consume
  simp only
  split
  · next hMatch =>
    rw [Input.next_eq, kind_tokenAt] at hMatch
    refine ⟨fun _ => ?_, fun _ k => (hTerminal k _).trans ?_⟩
    · split <;> simp
    · split
      · next hEof =>
        rw [Token.isEof, Input.next_eq, kind_tokenAt, beq_iff_eq] at hEof
        rw [rest_congr (position_addToken _ _ _)]
        exact h.steps_eof hMatch hEof
      · exact h.steps_token hMatch (position_addToken _ _ _)
  · split
    · next x t hRecovered =>
      split at hRecovered
      · next hOn =>
        refine .of_recovered hOn ?_
        simp only [errors_addToken, State.markRecovered, errors_updateNode]
        rcases Input.recoverToken?_cases hRecovered with ⟨-, rfl⟩ | ⟨-, -, -, rfl⟩
        · simp [Input.recordError]
        · simp [Input.recordError, State.addResynced]
      · cases hRecovered
    · exact fun _ => ⟨rfl, ⟨_, rfl, rfl⟩, fun k => ⟨_, .refl⟩⟩

end Input.IsRegular

end Token

theorem readStopped_fails {ι : Type} {before : ι → Continuation} (s : State) :
    i.Fails s (ReadStopped i before s) := by
  intro cause _
  exact ⟨rfl, ⟨_, rfl, rfl⟩, fun k => ⟨_, .refl⟩⟩

end PredictiveParsing.Parse
