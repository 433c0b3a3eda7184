import PredictiveParsing.Proofs.Parse.Bound
import PredictiveParsing.Proofs.Parse.Reading

/-!
# Runs that give a value

A run gives a value if under some bound of nested steps it ends with it, not interrupted. One rule
for each way in which a run without recovery goes on: a run gives a value if its parts do.
-/

namespace PredictiveParsing.Parse

/-- Under some bound of nested steps a run ends with a value, in a state that goes with it. -/
def Gives {β : Type} (run : Nat → Outcome β) (post : β → State → Prop) : Prop :=
  ∃ fuel b t, run fuel = .done b t ∧ post b t

variable {α β γ : Type} {i : Input α} {run run' : Nat → Outcome β} {a : α} {s t u : State}

namespace Gives

theorem exists_run {post : β → State → Prop} (h : Gives run post) :
    ∃ fuel b t, run fuel = .done b t ∧ post b t := h

theorem mono {post post' : β → State → Prop} (h : Gives run post)
    (hPost : ∀ b t, post b t → post' b t) : Gives run post' := by
  obtain ⟨fuel, b, t, hRun, ht⟩ := h
  exact ⟨fuel, b, t, hRun, hPost b t ht⟩

theorem step {post : β → State → Prop} (h : Gives run post)
    (hSucc : ∀ fuel, run' (fuel + 1) = run fuel) : Gives run' post := by
  obtain ⟨fuel, b, t, hRun, ht⟩ := h
  exact ⟨fuel + 1, b, t, (hSucc fuel).trans hRun, ht⟩

theorem finish {post : γ → State → Prop} {f g : β → γ}
    (h : Gives run fun b t => post (f b) t) : Gives (fun fuel => (run fuel).finish f g) post := by
  obtain ⟨fuel, b, t, hRun, ht⟩ := h.exists_run
  exact ⟨fuel, f b, t, congrArg (Outcome.finish f g) hRun, ht⟩

theorem of_done {b : β} {post : β → State → Prop} (h : post b t) :
    Gives (fun _ => .done b t) post := ⟨0, b, t, rfl, h⟩

variable [Inhabited α] {post mid : α → State → Prop}

theorem body_nil (h : post a s) : Gives (fun fuel => i.runBody fuel [] a s) post :=
  (of_done h).step fun fuel => by rw [Input.runBody]

theorem body_cons {op : Op α} {ops : List (Op α)}
    (hOp : Gives (fun fuel => i.runOp fuel op a s) mid)
    (hOps : ∀ b t, mid b t → Gives (fun fuel => i.runBody fuel ops b t) post) :
    Gives (fun fuel => i.runBody fuel (op :: ops) a s) post := by
  obtain ⟨n, b, t, hRun, ht⟩ := hOp.exists_run
  obtain ⟨m, c, u, hRest, hu⟩ := (hOps b t ht).exists_run
  have hFirst := (runOp_below (Nat.le_max_left n m) op a s).of_done hRun
  have hLater := (runBody_below (Nat.le_max_right n m) ops b t).of_done hRest
  refine ⟨max n m + 1, c, u, ?_, hu⟩
  simp only [Input.runBody, hFirst]
  exact hLater

theorem body_last {op : Op α} (h : Gives (fun fuel => i.runOp fuel op a s) post) :
    Gives (fun fuel => i.runBody fuel [op] a s) post :=
  .body_cons h fun _ _ => .body_nil

theorem consume {occurrence : Nat} {token : TypeId} {label : Option String} {act : Token → α → α}
    {x : Token} (hRun : i.consume s occurrence token label = .done x t) (h : post (act x a) t) :
    Gives (fun fuel => i.runOp fuel (.consume occurrence token label act) a s) post := by
  have hDone : Gives (fun _ => i.consume s occurrence token label) fun x t => post (act x a) t :=
    ⟨0, x, t, hRun, h⟩
  exact hDone.finish.step fun _ => Input.runOp_consume

theorem subrule {occurrence : Nat} {rule : String} {label : Option String} {act : α → α → α}
    {id : RuleId} (hName : i.grammar.ruleNamed? rule = some id)
    (h : Gives (fun fuel => i.invoke fuel id occurrence label s) fun b t => post (act b a) t) :
    Gives (fun fuel => i.runOp fuel (.subrule occurrence rule label act) a s) post :=
  h.finish.step fun _ => Input.runOp_subrule hName

theorem choice {occurrence : Nat} {branches : List (Branch (Op α))} {branch : Branch (Op α)}
    {act : α → α → α} (hGates : ∀ gate ∈ branches.map (·.gate), gate = none)
    (hBranch : ∀ mask, i.branchAt? s occurrence branches mask = some branch)
    (h : Gives (fun fuel => i.runBody fuel branch.body default s) fun b t => post (act b a) t) :
    Gives (fun fuel => i.runOp fuel (.choice occurrence branches act) a s) post := by
  obtain ⟨n, b, t, hRun, ht⟩ := h.exists_run
  have hAsked := Input.askGates_plain (i := i) (s := s) hGates
  generalize (branches.map (·.gate)).length + 1 = m at hAsked
  have hAnswers := (askGates_below (Nat.le_max_left m n) (branches.map (·.gate)) s).of_done hAsked
  have hBody := (runBody_below (Nat.le_max_right m n) branch.body default s).of_done hRun
  refine ⟨max m n + 1, act b a, t, ?_, ht⟩
  simp only [Input.runOp_choice_taken hAnswers (hBranch _), hBody]
  rfl

theorem invoke {rule : RuleId} {occurrence : Nat} {label : Option String}
    (h : Gives (fun fuel => i.runBody fuel (i.grammar.body rule) default
      (i.enter s rule occurrence)) fun b t => post b (i.leave t rule label)) :
    Gives (fun fuel => i.invoke fuel rule occurrence label s) post := by
  obtain ⟨n, b, t, hRun, ht⟩ := h.exists_run
  refine ⟨n + 1, b, i.leave t rule label, ?_, ht⟩
  simp only [Input.invoke, hRun]

theorem repetition {mandatory : Bool} {separator : Option TypeId} {occurrence : Nat}
    {body : List (Op α)} {act : α → α}
    (h : Gives (fun fuel => i.runLoop fuel ⟨s.key (.ofRepetition mandatory separator) occurrence,
      mandatory, separator, body⟩ true a s) fun b t => post (act b) t) :
    Gives (fun fuel => i.runOp fuel (.repetition mandatory separator occurrence body act) a s)
      post :=
  h.finish.step fun _ => Input.runOp_repetition

/-! ## Repetitions without separators -/

variable {loop : Input.Loop α}

omit [Inhabited α] in
theorem continues_eq_enters (hSeparator : loop.separator = none) :
    i.continues s (i.decisionAt? loop.key) loop.separator =
      i.enters s (i.decisionAt? loop.key) := by
  rw [hSeparator]
  rfl

theorem loop_again (hSeparator : loop.separator = none)
    (hEnters : i.enters s (i.decisionAt? loop.key) = true)
    (h : Gives (fun fuel => i.runIteration fuel loop a s) post) :
    Gives (fun fuel => i.runLoop fuel loop false a s) post := by
  refine h.step fun fuel => ?_
  rw [Input.runLoop_continued ((continues_eq_enters hSeparator).trans hEnters), hSeparator]
  rfl

theorem loop_left (hSeparator : loop.separator = none)
    (hEnters : i.enters s (i.decisionAt? loop.key) = false) (hOff : i.recoveryEnabled s = false)
    (h : post a s) : Gives (fun fuel => i.runLoop fuel loop false a s) post :=
  (of_done h).step fun _ =>
    Input.runLoop_left ((continues_eq_enters hSeparator).trans hEnters)
      (Input.skipToNextIteration_unaided hOff _ _ _)

theorem loop_first (hOptional : loop.mandatory = false) (hSeparator : loop.separator = none)
    (hOff : i.recoveryEnabled s = false)
    (h : Gives (fun fuel => i.runLoop fuel loop false a s) post) :
    Gives (fun fuel => i.runLoop fuel loop true a s) post := by
  have hSame : ∀ fuel, i.runLoop fuel loop true a s = i.runLoop fuel loop false a s := by
    intro fuel
    cases fuel with
    | zero => rw [Input.runLoop, Input.runLoop]
    | succ fuel =>
      have hContinues := continues_eq_enters (i := i) (s := s) hSeparator
      cases hEnters : i.enters s (i.decisionAt? loop.key) with
      | true =>
        rw [Input.runLoop_entered hEnters, Input.runLoop_continued (hContinues.trans hEnters),
          hSeparator]
        rfl
      | false =>
        rw [Input.runLoop_omitted hEnters hOptional,
          Input.runLoop_left (hContinues.trans hEnters)
            (Input.skipToNextIteration_unaided hOff _ _ _)]
  obtain ⟨fuel, b, t, hRun, ht⟩ := h.exists_run
  exact ⟨fuel, b, t, (hSame fuel).trans hRun, ht⟩

theorem iteration (hBody : Gives (fun fuel => i.runBody fuel loop.body a s) mid)
    (hMoves : ∀ b t, mid b t → t.position ≠ s.position)
    (hLater : ∀ b t, mid b t → Gives (fun fuel => i.runLoop fuel loop false b t) post) :
    Gives (fun fuel => i.runIteration fuel loop a s) post := by
  obtain ⟨n, b, t, hRun, ht⟩ := hBody.exists_run
  obtain ⟨m, c, u, hRest, hu⟩ := (hLater b t ht).exists_run
  have hFirst := (runBody_below (Nat.le_max_left n m) loop.body a s).of_done hRun
  have hLoop := (runLoop_below (Nat.le_max_right n m) loop false b t).of_done hRest
  refine ⟨max n m + 1, c, u, ?_, hu⟩
  simp only [Input.runIteration, hFirst, if_neg (hMoves b t ht)]
  exact hLoop

end Gives

/-! ## Runs that read tokens -/

/-- A run has gone on in its rule to where `rest` is ahead, and has found no error. -/
structure Advances (i : Input α) (s : State) (rest : List Token) (t : State) : Prop where
  frame : Frame i s t
  errors : t.errors = s.errors
  ahead : i.rest t = rest

theorem Advances.trans {ys zs : List Token} (h : Advances i s ys t) (h' : Advances i t zs u) :
    Advances i s zs u :=
  ⟨h.frame.trans h'.frame, h'.errors.trans h.errors, h'.ahead⟩

theorem Advances.position_ne {xs ys : List Token} {x : Token} (hs : i.rest s = x :: xs ++ ys)
    (h : Advances i s ys t) : t.position ≠ s.position := by
  intro hSame
  have hLength := congrArg List.length (h.ahead.symm.trans ((rest_congr hSame).trans hs))
  simp only [List.cons_append, List.length_cons, List.length_append] at hLength
  omega

variable [Inhabited α]

theorem gives_consume {x : Token} {rest : List Token} {token : TypeId}
    (hs : i.rest s = x :: rest) (hMatch : i.isMatch x.kind token = true)
    (hEof : x.kind ≠ Vocabulary.eof) (occurrence : Nat) (label : Option String)
    (act : Token → α → α) :
    Gives (fun fuel => i.runOp fuel (.consume occurrence token label act) a s)
      fun b t => b = act x a ∧ Advances i s rest t := by
  have hNext : i.next s = x := by
    have hHead := congrArg List.head? hs
    rw [Input.rest, List.head?_drop, Array.getElem?_toList, List.head?_cons] at hHead
    rw [Input.next_eq, Input.tokenAt, hHead, Option.getD_some]
  have hInText : x.isEof = false := beq_false_of_ne hEof
  have hRun : i.consume s occurrence token label =
      .done x (i.addToken { s with position := s.position + 1 } label token x) := by
    simp only [Input.consume, hInText, hNext, hMatch, if_true, Bool.false_eq_true, if_false]
  refine .consume hRun ⟨rfl, (frame_position _).trans (frame_addToken _ _ _), ?_, ?_⟩
  · rw [errors_addToken]
  · rw [rest_congr (position_addToken label token x), Input.rest, ← List.tail_drop]
    exact congrArg List.tail hs

theorem gives_invoke {rule : RuleId} {rest : List Token} {value : α → Prop} (occurrence : Nat)
    (label : Option String)
    (h : Gives (fun fuel => i.runBody fuel (i.grammar.body rule) default
      (i.enter s rule occurrence))
      fun b t => value b ∧ Advances i (i.enter s rule occurrence) rest t) :
    Gives (fun fuel => i.invoke fuel rule occurrence label s)
      fun b t => value b ∧ Advances i s rest t := by
  refine .invoke (h.mono fun b t ⟨hb, ht⟩ => ⟨hb, ht.frame.leave, ?_, ?_⟩)
  · rw [errors_leave]
    exact ht.errors
  · rw [rest_congr (position_leave rule label)]
    exact ht.ahead

end PredictiveParsing.Parse
