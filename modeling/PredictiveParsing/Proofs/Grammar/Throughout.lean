import PredictiveParsing.Grammar.Analysis
import PredictiveParsing.Proofs.Grammar.Derivation

/-!
# Properties of all productions

What holds of every production of the rules, nested ones included, holds throughout every
continuation that comes up in a derivation, and throughout the places of a rule and what is behind
them.
-/

namespace PredictiveParsing

def Segment.parts : Segment → List Production
  | .sequence definition => definition
  | .again definition _ => definition
  | .token _ => []

def Throughout (P : Production → Prop) (c : Continuation) : Prop :=
  ∀ segment ∈ c, ∀ p ∈ Production.nodesOf segment.parts, P p

def AllRules (P : Production → Prop) (rules : List Rule) : Prop :=
  ∀ r ∈ rules, ∀ p ∈ r.nodes, P p

instance (P : Production → Prop) [DecidablePred P] (rules : List Rule) :
    Decidable (AllRules P rules) := inferInstanceAs (Decidable (∀ r ∈ rules, ∀ p ∈ r.nodes, P p))

variable {P : Production → Prop} {rules : List Rule} {c d : Continuation} {segment : Segment}
  {Q : Segment → Prop} {ps : List Production} {p : Production}

theorem throughout_nil : Throughout P [] := fun _ hSegment => by cases hSegment

theorem throughout_cons : Throughout P (segment :: c) ↔
    (∀ p ∈ Production.nodesOf segment.parts, P p) ∧ Throughout P c := List.forall_mem_cons

theorem throughout_append : Throughout P (c ++ d) ↔ Throughout P c ∧ Throughout P d :=
  List.forall_mem_append

theorem throughout_sequence :
    Throughout P [.sequence ps] ↔ ∀ p ∈ Production.nodesOf ps, P p := by
  rw [throughout_cons]
  exact and_iff_left throughout_nil

theorem throughout_token {token : TypeId} : Throughout P (.token token :: c) ↔ Throughout P c := by
  rw [throughout_cons]
  exact and_iff_right fun q hq => by cases hq

namespace Production

theorem mem_nodes_self (p : Production) : p ∈ p.nodes := by
  cases p with
  | terminal | nonTerminal | option | repetition | alternation => exact List.mem_cons_self

theorem mem_nodesOfBranches {branch : Alternative Production}
    {alternatives : List (Alternative Production)} (h : branch ∈ alternatives)
    (hp : p ∈ nodesOf branch.definition) : p ∈ nodesOfBranches alternatives := by
  induction alternatives with
  | nil => cases h
  | cons other rest ih =>
    rw [nodesOfBranches, List.mem_append]
    rcases List.mem_cons.mp h with rfl | h
    · exact .inl hp
    · exact .inr (ih h)

end Production

/-- A property of segments that they have if what they come from has another one. -/
structure Segment.Inherits (P : Production → Prop) (Q : Segment → Prop) : Prop where
  token : ∀ token, Q (.token token)
  sequence : ∀ ps, (∀ p ∈ Production.nodesOf ps, P p) → Q (.sequence ps)
  again : ∀ mandatory separator definition occurrence,
    (∀ p ∈ (Production.repetition mandatory separator definition occurrence).nodes, P p) →
      Q (.again definition separator)

theorem Segment.Inherits.parts :
    Inherits P fun segment => ∀ p ∈ Production.nodesOf segment.parts, P p where
  token _ _ hp := by cases hp
  sequence _ h := h
  again _ _ _ _ h := fun q hq => h q (List.mem_cons_of_mem _ hq)

namespace AllRules

variable (h : AllRules P rules)

include h

theorem definition (id : RuleId) : Throughout P [.sequence (definitionOf rules id)] := by
  rw [throughout_sequence]
  intro p hp
  rw [definitionOf] at hp
  cases hr : rules[id]? with
  | none => simp [hr, Production.nodesOf] at hp
  | some r =>
    rw [hr] at hp
    exact h r (List.mem_of_getElem? hr) p hp

theorem inherits (hQ : Segment.Inherits P Q) (hExpands : p.Expands rules c)
    (hp : ∀ q ∈ p.nodes, P q) : ∀ segment ∈ c, Q segment := by
  cases hExpands with
  | terminal => exact List.forall_mem_singleton.mpr (hQ.token _)
  | reference _ =>
    exact List.forall_mem_singleton.mpr (hQ.sequence _ (throughout_sequence.mp (h.definition _)))
  | noOption | noIteration => exact List.forall_mem_nil _
  | option =>
    exact List.forall_mem_singleton.mpr
      (hQ.sequence _ fun q hq => hp q (List.mem_cons_of_mem _ hq))
  | iteration =>
    have hNested := hQ.sequence _ fun q hq => hp q (List.mem_cons_of_mem _ hq)
    exact List.forall_mem_cons.mpr ⟨hNested, List.forall_mem_singleton.mpr (hQ.again _ _ _ _ hp)⟩
  | alternative branch hBranch =>
    exact List.forall_mem_singleton.mpr (hQ.sequence _ fun q hq =>
      hp q (List.mem_cons_of_mem _ (Production.mem_nodesOfBranches hBranch hq)))

theorem expands (hExpands : segment.Expands rules c)
    (hParts : ∀ p ∈ Production.nodesOf segment.parts, P p) : Throughout P c := by
  cases hExpands with
  | nil | stop => exact throughout_nil
  | cons hp =>
    refine throughout_append.mpr ⟨h.inherits .parts hp fun q hq => ?_, ?_⟩
    · exact hParts q (List.mem_append_left _ hq)
    · exact throughout_sequence.mpr fun q hq => hParts q (List.mem_append_right _ hq)
  | another => exact throughout_cons.mpr ⟨hParts, throughout_cons.mpr ⟨hParts, throughout_nil⟩⟩
  | separated =>
    refine throughout_token.mpr ?_
    exact throughout_cons.mpr ⟨hParts, throughout_cons.mpr ⟨hParts, throughout_nil⟩⟩

theorem unfold (hUnfold : Unfold rules c d) (hc : Throughout P c) : Throughout P d := by
  cases hUnfold with
  | head hExpands =>
    obtain ⟨hParts, hRest⟩ := throughout_cons.mp hc
    exact throughout_append.mpr ⟨h.expands hExpands hParts, hRest⟩

end AllRules

namespace Site

mutual

theorem inherits_within (hQ : Segment.Inherits P Q) {after : Continuation}
    (hAfter : ∀ segment ∈ after, Q segment) (p : Production) (hp : ∀ q ∈ p.nodes, P q) :
    ∀ site ∈ within after p,
      (∀ q ∈ site.production.nodes, P q) ∧ ∀ segment ∈ site.after, Q segment := by
  cases p with
  | terminal | nonTerminal =>
    intro site hSite
    obtain rfl := List.mem_singleton.mp hSite
    exact ⟨hp, hAfter⟩
  | option definition occurrence =>
    intro site hSite
    rcases List.mem_cons.mp hSite with rfl | hSite
    · exact ⟨hp, hAfter⟩
    · exact inherits_along hQ hAfter definition
        (fun q hq => hp q (List.mem_cons_of_mem _ hq)) site hSite
  | repetition mandatory separator definition occurrence =>
    intro site hSite
    rcases List.mem_cons.mp hSite with rfl | hSite
    · exact ⟨hp, hAfter⟩
    · exact inherits_along hQ (List.forall_mem_cons.mpr ⟨hQ.again _ _ _ _ hp, hAfter⟩) definition
        (fun q hq => hp q (List.mem_cons_of_mem _ hq)) site hSite
  | alternation alternatives occurrence =>
    intro site hSite
    rcases List.mem_cons.mp hSite with rfl | hSite
    · exact ⟨hp, hAfter⟩
    · exact inherits_amongBranches hQ hAfter alternatives
        (fun q hq => hp q (List.mem_cons_of_mem _ hq)) site hSite

theorem inherits_along (hQ : Segment.Inherits P Q) {after : Continuation}
    (hAfter : ∀ segment ∈ after, Q segment) (ps : List Production)
    (hps : ∀ q ∈ Production.nodesOf ps, P q) : ∀ site ∈ along after ps,
      (∀ q ∈ site.production.nodes, P q) ∧ ∀ segment ∈ site.after, Q segment := by
  cases ps with
  | nil => intro site hSite; simp [along] at hSite
  | cons p ps =>
    intro site hSite
    have hRest : ∀ q ∈ Production.nodesOf ps, P q :=
      fun q hq => hps q (List.mem_append_right _ hq)
    rcases List.mem_append.mp hSite with hSite | hSite
    · exact inherits_within hQ (List.forall_mem_cons.mpr ⟨hQ.sequence ps hRest, hAfter⟩) p
        (fun q hq => hps q (List.mem_append_left _ hq)) site hSite
    · exact inherits_along hQ hAfter ps hRest site hSite

theorem inherits_amongBranches (hQ : Segment.Inherits P Q) {after : Continuation}
    (hAfter : ∀ segment ∈ after, Q segment) (branches : List (Alternative Production))
    (hBranches : ∀ q ∈ Production.nodesOfBranches branches, P q) :
    ∀ site ∈ amongBranches after branches,
      (∀ q ∈ site.production.nodes, P q) ∧ ∀ segment ∈ site.after, Q segment := by
  cases branches with
  | nil => intro site hSite; simp [amongBranches] at hSite
  | cons branch rest =>
    intro site hSite
    rcases List.mem_append.mp hSite with hSite | hSite
    · exact inherits_along hQ hAfter branch.definition
        (fun q hq => hBranches q (List.mem_append_left _ hq)) site hSite
    · exact inherits_amongBranches hQ hAfter rest
        (fun q hq => hBranches q (List.mem_append_right _ hq)) site hSite

end

end Site

end PredictiveParsing
