import PredictiveParsing.Proofs.Parse.TokensKept

/-!
# Where the tokens of a tree come from

A run takes the tokens that it holds from the text. Others are the end of the input, or made up by
recovery.
-/

namespace PredictiveParsing.Parse

variable {α : Type} {i : Input α} {s t : State} {x : Token}

def Input.Has (i : Input α) (x : Token) : Prop := x = i.eof ∨ x ∈ i.tokens.toList

/-- A token of the text, the end of it, or one that recovery made up. -/
def Input.Offers (i : Input α) (x : Token) : Prop :=
  x.inserted = true ∨ x = i.eof ∨ x ∈ i.tokens.toList

def Sourced (i : Input α) (s : State) : Prop := ∀ x ∈ s.held, i.Offers x

theorem has_tokenAt (index : Nat) : i.Has (i.tokenAt index) := by
  by_cases h : index < i.tokens.size
  · have hGet : i.tokenAt index = i.tokens[index] := by simp [Input.tokenAt, h]
    rw [hGet]
    exact .inr (Array.mem_toList_iff.mpr (Array.getElem_mem h))
  · exact .inl (by simp [Input.tokenAt, h])

theorem offers_tokenAt (index : Nat) : i.Offers (i.tokenAt index) := .inr (has_tokenAt index)

theorem offers_slice {start stop : Nat} (h : x ∈ i.slice start stop) : i.Offers x := by
  rw [slice_eq] at h
  exact .inr (.inr (List.mem_of_mem_take (List.mem_of_mem_drop h)))

namespace Sourced

theorem of_held (h : Sourced i s) (hHeld : (t.held : Multiset Token) = s.held) : Sourced i t :=
  fun x hx => h x ((Multiset.coe_eq_coe.mp hHeld).mem_iff.mp hx)

theorem of_held_add (h : Sourced i s) {new : List Token}
    (hHeld : (t.held : Multiset Token) = s.held + new) (hNew : ∀ x ∈ new, i.Offers x) :
    Sourced i t := by
  intro x hx
  have hMem : x ∈ (t.held : Multiset Token) := hx
  rw [hHeld] at hMem
  rcases Multiset.mem_add.mp hMem with hOld | hAdded
  · exact h x hOld
  · exact hNew x hAdded

theorem moveTo (h : Sourced i s) (index : Nat) : Sourced i { s with position := index } := h

theorem markRecovered (h : Sourced i s) : Sourced i s.markRecovered :=
  h.of_held (congrArg _ held_markRecovered)

theorem recordError (h : Sourced i s) (cause : RecognitionCause) :
    Sourced i (i.recordError s cause).1 :=
  h.of_held (congrArg _ (held_recordError cause))

theorem addResynced {error : Nat} (h : Sourced i s) (hError : error < s.errors.length)
    {skipped : List Token} (hSkipped : ∀ x ∈ skipped, i.Offers x) :
    Sourced i (s.addResynced error skipped) :=
  h.of_held_add (held_addResynced hError skipped) hSkipped

theorem addToken (h : Sourced i s) (hs : Growing i s) (hx : i.Offers x) (label : Option String)
    (expected : TypeId) : Sourced i (i.addToken s label expected x) :=
  h.of_held_add (held_addToken hs.tree hs.nodes label expected x) (by simpa using hx)

theorem leave (hs : Growing i s) {rule : RuleId} {occurrence : Nat}
    (hFrame : Frame i (i.enter s rule occurrence) t) (h : Sourced i t) (label : Option String) :
    Sourced i (i.leave t rule label) := by
  have hDepth := hFrame.depth
  simp only [Input.enter, hs.tree, if_true, List.length_cons] at hDepth
  refine h.of_held ?_
  cases hOpen : t.openNodes with
  | nil => simp [hOpen] at hDepth
  | cons n outer =>
    cases outer with
    | nil =>
      rw [hOpen, List.length_singleton] at hDepth
      exact absurd (List.eq_nil_of_length_eq_zero (Nat.succ.inj hDepth).symm) hs.nodes
    | cons parent outer => exact held_leave hs.tree hOpen rule label

theorem resyncTo {error : Nat} (h : Sourced i s) (hError : error < s.errors.length) (index : Nat) :
    Sourced i (s.resyncTo i error index) :=
  (h.addResynced hError fun _ => offers_slice).moveTo index

end Sourced

theorem sourced_consume (hs : Growing i s) (occurrence : Nat) (expected : TypeId)
    (label : Option String) :
    (i.consume s occurrence expected label).Ends (fun t => Sourced i s → Sourced i t)
      fun _ t => Sourced i s → Sourced i t := by
  unfold Input.consume
  simp only
  split
  · split
    · exact fun h => h.addToken hs (offers_tokenAt _) label expected
    · have hNext := hs.of_frame (frame_position (s.position + 1))
      exact fun h => (h.moveTo _).addToken hNext (offers_tokenAt _) label expected
  · have hRecord := frame_recordError (i := i) (s := s) (.mismatchedToken expected)
    split
    · next x t hRecovered =>
      split at hRecovered
      · next hOn =>
        intro h
        have hFailed := h.recordError (.mismatchedToken expected)
        rcases Input.recoverToken?_cases hRecovered with ⟨rfl, rfl⟩ | ⟨-, -, rfl, rfl⟩
        · exact hFailed.markRecovered.addToken
            ((hs.of_frame hRecord).of_frame frame_markRecovered) (.inl rfl) label expected
        · have hLast : s.errors.length <
              (i.recordError s (.mismatchedToken expected)).1.errors.length := by
            simp [Input.recordError]
          have hOwn : ∀ x ∈ [i.next s], i.Offers x :=
            List.forall_mem_singleton.mpr (offers_tokenAt s.position)
          have hFrame := hRecord.trans ((frame_addResynced hOn s.errors.length [i.next s]).trans
            (frame_position (s.position + 2)))
          exact ((hFailed.addResynced hLast hOwn).moveTo (s.position + 2)).markRecovered.addToken
            ((hs.of_frame hFrame).of_frame frame_markRecovered) (offers_tokenAt _) label expected
      · cases hRecovered
    · exact fun h => h.recordError _

theorem sourced_kept : KeptInside i (Growing i) (fun s t => Sourced i s → Sourced i t)
    (fun s _ t => Sourced i s → Sourced i t) where
  inside h := h.inside
  frame := .of_frame
  enter h := accounts_kept.enter h
  beginTrial h := accounts_kept.beginTrial h
  refl _ := id
  trans _ _ hst htu h := htu (hst h)
  trans_stopped _ _ hst htu h := htu (hst h)
  attempt := id
  consume := sourced_consume
  fails _ cause h := h.recordError cause
  separator hs token _ h :=
    (h.moveTo _).addToken (hs.of_frame (frame_position _)) (offers_tokenAt _) none token
  markRecovered ht h := (ht h).markRecovered
  resync _ hStopped ht _ index _ h := (ht h).resyncTo hStopped.2.2 index
  leave hs _ _ hFrame ht label h :=
    (ht (h.of_held (congrArg _ (held_enter _ _)))).leave hs hFrame label
  leave_stopped hs _ _ hStopped ht label h :=
    (ht (h.of_held (congrArg _ (held_enter _ _)))).leave hs hStopped.1 label

/-! ## Parses without errors -/

theorem Sourced.leave_start {rule : RuleId} (hTree : i.grammar.config.outputTree = true)
    (hFrame : Frame i (i.enter .initial rule 0) t) (h : Sourced i t) :
    ∀ root, (i.leave t rule none).root = some root → ∀ x ∈ root.leaves, i.Offers x := by
  obtain ⟨n, hOpen⟩ := exists_root hTree hFrame
  intro root hSame x hx
  rw [leave_root hTree hOpen] at hSame
  obtain rfl := Option.some.inj hSame
  exact h x (by simp [State.held, hOpen, hx])

variable [Inhabited α]

/-- An error is found wherever a run is interrupted, whether or not the bodies of the rules let the
interruption through. -/
theorem Input.closed_of_errors_eq_nil (hTree : i.grammar.config.outputTree = true) (fuel : Nat)
    (rule : RuleId) :
    (i.invoke fuel rule 0 none .initial).Ends
      (fun s => s.errors = [] → s.terminated = false ∧ Closed i s ∧
        ∀ root, s.root = some root → ∀ x ∈ root.leaves, i.Offers x)
      (fun _ s => s.errors ≠ []) := by
  cases fuel with
  | zero => rw [Input.invoke]; trivial
  | succ fuel =>
    have hGrowing := growing_start hTree rule
    have hNone : Sourced i (i.enter .initial rule 0) := by
      intro x hx
      rw [held_enter] at hx
      cases hx
    apply Input.ends_invoke
    refine ((((accounts_kept.preserved (i := i)).within fuel).body (i.grammar.body rule) default
      _).and (((sourced_kept (i := i)).preserved.within fuel).body _ default _)).mono ?_ ?_
    · rintro t ⟨hAccount, hSource⟩ -
      obtain ⟨hFrame, hDone⟩ := hAccount hGrowing
      have hRunning : t.terminated = false := hFrame.terminated (.inr hGrowing.inside.calls)
      refine ⟨(terminated_leave rule none).trans hRunning,
        hDone.leave_start hTree hFrame fun hEnd => by simp [hRunning] at hEnd, ?_⟩
      exact ((hSource hGrowing).2 hNone).leave_start hTree hFrame
    · rintro e t ⟨hAccount, -⟩
      have hNonempty : (i.leave (i.recoverRule t e).1 rule none).errors ≠ [] := by
        refine List.ne_nil_of_length_pos ?_
        rw [errors_leave, errors_length_recoverRule]
        exact Nat.zero_lt_of_lt (hAccount hGrowing).1.2.2
      split
      · exact fun hErrors => absurd hErrors hNonempty
      · exact hNonempty

/-- The tree of a parse without errors holds all tokens of the text. What else it holds was made up,
or is the end of the input. -/
theorem Input.leaves_of_parsed (hTree : i.grammar.config.outputTree = true)
    (hEof : ∀ x ∈ i.tokens, x.kind ≠ Vocabulary.eof) {fuel : Nat} {rule : RuleId}
    {output : ParseOutput α} (hParse : i.parseFrom fuel rule = .parsed output)
    (hErrors : output.errors = []) :
    ∃ root made, output.tree = some root ∧ root.leaves.Perm (i.tokens.toList ++ made) ∧
      ∀ x ∈ made, x.inserted = true ∨ x = i.eof := by
  have hClosed := i.closed_of_errors_eq_nil hTree fuel rule
  rw [Input.parseFrom] at hParse
  cases hRun : i.invoke fuel rule 0 none .initial with
  | done a s =>
    rw [hRun] at hClosed hParse
    cases hParse
    obtain ⟨hNone, hEnd⟩ := (Input.errors_finish a s).mp hErrors
    obtain ⟨hRunning, hClosed, hOffers⟩ := hClosed hNone
    obtain ⟨root, hRoot, hKept⟩ := hClosed.finish hEof a
    obtain ⟨made, hMade, hPerm⟩ := hKept.held
    have hAll : i.tokens.toList.take s.position = i.tokens.toList := by
      rw [hRunning] at hEnd
      exact List.take_of_length_le (by simpa using hEnd)
    rw [hErrors, hAll, List.flatMap_nil, List.append_nil] at hPerm
    refine ⟨root, made, hRoot, hPerm, fun x hx => ?_⟩
    have hOffered := hOffers root ?_ x (hPerm.mem_iff.mpr (List.mem_append_right _ hx))
    · rcases hMade x hx with hInserted | hEnd
      · exact .inl hInserted
      · refine hOffered.imp_right fun h => h.resolve_right fun hText => ?_
        exact hEof x (Array.mem_toList_iff.mp hText) (beq_iff_eq.mp hEnd)
    · rcases i.finish_cases a s with ⟨-, hFinish⟩ | ⟨-, -, hFinish⟩
      · rwa [hFinish] at hRoot
      · rwa [hFinish] at hRoot
  | interrupted e a s =>
    rw [hRun] at hClosed hParse
    cases hParse
    exact absurd ((Input.errors_finish _ s).mp hErrors).1 hClosed
  | panicked why => rw [hRun] at hParse; cases hParse
  | outOfFuel => rw [hRun] at hParse; cases hParse

end PredictiveParsing.Parse
