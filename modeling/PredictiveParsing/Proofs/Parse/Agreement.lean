import PredictiveParsing.Proofs.Parse.Bound
import PredictiveParsing.Proofs.Parse.FirstFound
import PredictiveParsing.Proofs.Parse.Placed
import PredictiveParsing.Proofs.Parse.ReadingOfRun

/-!
# Agreement of runs with and without recovery

Two runs from one state, with and without recovery, stay the same until recovery is used. That
happens at the token of the first error, or where a repetition skips tokens in front of a token that
nothing around it can begin with. Without recovery that token is not read any more either, and is
where the first error is found in the end.
-/

namespace PredictiveParsing.Parse

open Relation

variable {α : Type}

structure Input.IsUnaided (i : Input α) (sources : List (RuleBody α)) : Prop where
  regular : i.IsRegular
  compiled : i.grammar.IsCompiled sources
  recovery : i.grammar.config.recovery = false

/-- The next token begins neither what comes behind in the rule nor what follows a rule around. -/
structure Stuck (i : Input α) (c : Continuation) (s : State) : Prop where
  notEnd : i.kindAt s.position ≠ Vocabulary.eof
  unexpected : ¬ BeginsWith i.grammar.rules i.grammar.vocabulary c (i.kindAt s.position)
  outside : i.followsAny (i.kindAt s.position) s.calls = false

/-- What the outcome without recovery says of the one with recovery. -/
def Agrees {β : Type} (i : Input α) (after : Continuation) (o o' : Outcome β) : Prop :=
  match o with
  | .done _ t => o' = o ∨ (Stuck i after t ∧ o'.Reports (i.next t))
  | .interrupted _ _ t => o'.Reports (i.next t)
  | _ => True

variable {i : Input α} {b : Bool} {r : RuleId} {s t : State} {sources : List (RuleBody α)}
  {c c' : Continuation} {k : List Production × Continuation}

theorem Input.IsUnaided.recoveryEnabled (h : i.IsUnaided sources) (s : State) :
    i.recoveryEnabled s = false := by
  rw [Input.recoveryEnabled, h.recovery, Bool.false_and]

theorem next_congr (h : t.position = s.position) : i.next t = i.next s := by
  rw [Input.next_eq, Input.next_eq, h]

namespace Stuck

theorem position_eq (h : Stuck i c s) (hSteps : i.Steps (c, i.rest s) (c', i.rest t)) :
    t.position = s.position ∧ Unfolds i.grammar.rules c c' := by
  rcases steps_cases hSteps with ⟨hSame, hUnfolds⟩ | hBegins
  · refine ⟨?_, hUnfolds⟩
    have hIn := Input.lt_of_kindAt h.notEnd
    have hLength := congrArg List.length hSame
    simp only [Input.rest, List.length_drop, Array.length_toList] at hLength
    omega
  · rw [headKind_rest] at hBegins
    exact absurd hBegins h.unexpected

theorem unfold (h : Stuck i c s) (hUnfolds : Unfolds i.grammar.rules c c') : Stuck i c' s where
  notEnd := h.notEnd
  unexpected := by
    rintro ⟨token, ⟨rest, hFirst⟩, hMatch⟩
    exact h.unexpected ⟨token, ⟨rest, hUnfolds.trans hFirst⟩, hMatch⟩
  outside := h.outside

theorem of_position (h : Stuck i c s) (hPosition : t.position = s.position)
    (hCalls : t.calls = s.calls) : Stuck i c t := by
  obtain ⟨hEnd, hUnexpected, hOutside⟩ := h
  rw [← hPosition] at hEnd hUnexpected hOutside
  exact ⟨hEnd, hUnexpected, hCalls ▸ hOutside⟩

variable {β : Type} {ι : Type} {o o' : Outcome β}

/-- Without recovery, a run that begins stuck stays so, or is interrupted there. -/
theorem agrees (before after : ι → Continuation) (n : ι) (h : Stuck i (before n) s)
    (hOff : i.recoveryEnabled s = false)
    (hFrames : o.Ends (Frame i s) (Stopped i s))
    (hReads : o.Ends (ReadDone i before after s) (ReadStopped i before s))
    (hReports : o'.Reports (i.next s)) : Agrees i (after n) o o' := by
  cases o with
  | done a t =>
    obtain ⟨hPosition, hUnfolds⟩ :=
      h.position_eq (hReads.reads (congrArg _ (hReads.silent hOff)) n)
    refine .inr ⟨(h.unfold hUnfolds).of_position hPosition hFrames.calls, ?_⟩
    rwa [next_congr hPosition]
  | interrupted e a t =>
    obtain ⟨c, hSteps⟩ := (hReads hOff).reads n
    have hReported : o'.Reports (i.next t) := by
      rwa [next_congr (h.position_eq hSteps).1]
    exact hReported
  | panicked why => trivial
  | outOfFuel => trivial

end Stuck

namespace Agrees

variable {β γ : Type} {o o' : Outcome β}

theorem of_eq (o : Outcome β) (h : o.Ends (fun _ => True) fun _ t => FirstAt (i.next t) t) :
    Agrees i c o o := by
  cases o with
  | done a t => exact .inl rfl
  | interrupted e a t => exact h
  | panicked why => trivial
  | outOfFuel => trivial

theorem finish (h : Agrees i c o o') (f g : β → γ) :
    Agrees i c (o.finish f g) (o'.finish f g) := by
  cases o with
  | done a t =>
    rcases h with rfl | ⟨hStuck, hReports⟩
    · exact .inl rfl
    · exact .inr ⟨hStuck, Outcome.ends_finish.mpr hReports⟩
  | interrupted e a t =>
    have hReported : (o'.finish f g).Reports (i.next t) := Outcome.ends_finish.mpr h
    exact hReported
  | panicked why => trivial
  | outOfFuel => trivial

theorem unfold (h : Agrees i c o o') (hUnfolds : Unfolds i.grammar.rules c c') :
    Agrees i c' o o' := by
  cases o with
  | done a t => exact h.imp_right fun ⟨hStuck, hReports⟩ => ⟨hStuck.unfold hUnfolds, hReports⟩
  | interrupted e a t => exact h
  | panicked why => trivial
  | outOfFuel => trivial

end Agrees

def agreement (i : Input α) (after : Continuation) : Outcome.Relation where
  Holds := Agrees i after
  finish := Agrees.finish

end PredictiveParsing.Parse
