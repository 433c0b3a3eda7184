import PredictiveParsing.Grammar.Lookahead
import PredictiveParsing.Proofs.Grammar.Throughout
import PredictiveParsing.Proofs.Traversal

/-!
# One step of expanding

What a continuation is replaced by when it goes on by one step, in the order in which the ways are
tried. Expanding takes such steps until there is no more room.
-/

namespace PredictiveParsing

def Production.IsResolved (rules : List Rule) : Production → Prop
  | .nonTerminal _ target _ => ∃ id, target = some id ∧ id < rules.length
  | _ => True

instance (rules : List Rule) : DecidablePred (Production.IsResolved rules)
  | .nonTerminal _ none _ => .isFalse nofun
  | .nonTerminal _ (some target) _ => decidable_of_iff (target < rules.length)
      ⟨fun h => ⟨target, rfl, h⟩, fun ⟨_, hSame, h⟩ => Option.some.inj hSame ▸ h⟩
  | .terminal _ _ => .isTrue trivial
  | .option _ _ => .isTrue trivial
  | .repetition _ _ _ _ => .isTrue trivial
  | .alternation _ _ => .isTrue trivial

def Partial.behind (path : Path) (q : Partial) : Partial := { q with path := path ++ q.path }

def Partial.before (rest : Continuation) (q : Partial) : Partial := { q with rest := q.rest ++ rest }

theorem Partial.behind_nil : behind [] = id := by
  funext q
  rfl

theorem Partial.behind_comp_behind (path path' : Path) :
    behind path ∘ behind path' = behind (path ++ path') := by
  funext q
  simp only [behind, Function.comp, List.append_assoc]

/-- A property that segments have if all that they are made of has another one, which the rules
have throughout. -/
structure Segment.IsKept (rules : List Rule) (P : Production → Prop) (Q : Segment → Prop) : Prop
    extends Segment.Inherits P Q where
  parts : ∀ segment, Q segment → ∀ p ∈ Production.nodesOf segment.parts, P p
  resolved : ∀ p, P p → p.IsResolved rules
  rules : AllRules P rules

theorem Segment.isKept_parts {rules : List Rule} {P : Production → Prop}
    (hResolved : ∀ p, P p → p.IsResolved rules) (hRules : AllRules P rules) :
    Segment.IsKept rules P fun segment => ∀ p ∈ Production.nodesOf segment.parts, P p where
  toInherits := .parts
  parts _ h := h
  resolved := hResolved
  rules := hRules

theorem Segment.IsKept.throughout {rules : List Rule} {P : Production → Prop} {Q : Segment → Prop}
    {c : Continuation} (h : Segment.IsKept rules P Q) (hc : ∀ segment ∈ c, Q segment) :
    Throughout (Production.IsResolved rules) c :=
  fun segment hSegment p hp => h.resolved p (h.parts segment (hc segment hSegment) p hp)

namespace Lookahead

variable {rules : List Rule} {fuel room : Nat} {c rest : Continuation} {p : Production}
  {ps : List Production} {q : Partial} {P : Production → Prop}

abbrev remaining (ps : List Production) (rest : Continuation) : Continuation :=
  if ps.isEmpty then rest else .sequence ps :: rest

theorem forall_mem_remaining {Q : Segment → Prop} (hps : Q (.sequence ps))
    (hRest : ∀ segment ∈ rest, Q segment) : ∀ segment ∈ remaining ps rest, Q segment := by
  unfold remaining
  split
  · exact hRest
  · exact List.forall_mem_cons.mpr ⟨hps, hRest⟩

/-- The ways in which a production goes on: what is read, and what takes its place. -/
def ways (rules : List Rule) : Production → List Partial
  | .terminal token _ => [⟨[token], []⟩]
  | .nonTerminal _ none _ => [⟨[], []⟩]
  | .nonTerminal _ (some target) _ => [⟨[], [.sequence (definitionOf rules target)]⟩]
  | .option definition _ => [⟨[], [.sequence definition]⟩, ⟨[], []⟩]
  | .repetition true separator definition _ =>
    [⟨[], [.sequence definition, .again definition separator]⟩]
  | .repetition false none definition _ => [⟨[], [.again definition none]⟩]
  | .repetition false (some s) definition _ =>
    [⟨[], [.sequence definition, .again definition (some s)]⟩, ⟨[], []⟩]
  | .alternation alternatives _ => alternatives.map fun a => ⟨[], [.sequence a.definition]⟩

def another (definition : List Production) : Option TypeId → Continuation
  | none => [.sequence definition, .again definition none]
  | some s => [.token s, .sequence definition, .again definition (some s)]

def successors (rules : List Rule) : Continuation → List Partial
  | [] => []
  | .token token :: rest => [⟨[token], rest⟩]
  | .again definition separator :: rest =>
    [⟨[], another definition separator ++ rest⟩, ⟨[], rest⟩]
  | .sequence [] :: rest => [⟨[], rest⟩]
  | .sequence (p :: ps) :: rest => (ways rules p).map (Partial.before (remaining ps rest))

/-- A production that does not read a token is replaced by what it stands for; only an iteration
that can be left out is first put off. -/
theorem ways_cases (hp : p.IsResolved rules) (hq : q ∈ ways rules p) :
    (∃ token occurrence, p = .terminal token occurrence ∧ q = ⟨[token], []⟩) ∨
      (∃ d, p.Expands rules d ∧ q = ⟨[], d⟩) ∨
      ∃ definition occurrence, p = .repetition false none definition occurrence ∧
        q = ⟨[], [.again definition none]⟩ := by
  cases p with
  | terminal token occurrence => exact .inl ⟨token, occurrence, rfl, List.mem_singleton.mp hq⟩
  | nonTerminal name target occurrence =>
    obtain ⟨id, rfl, hTarget⟩ := hp
    exact .inr (.inl ⟨_, .reference hTarget, List.mem_singleton.mp hq⟩)
  | option definition occurrence =>
    rcases List.mem_pair.mp hq with rfl | rfl
    · exact .inr (.inl ⟨_, .option, rfl⟩)
    · exact .inr (.inl ⟨_, .noOption, rfl⟩)
  | repetition mandatory separator definition occurrence =>
    cases mandatory with
    | true => exact .inr (.inl ⟨_, .iteration, List.mem_singleton.mp hq⟩)
    | false =>
      cases separator with
      | none => exact .inr (.inr ⟨definition, occurrence, rfl, List.mem_singleton.mp hq⟩)
      | some s =>
        rcases List.mem_pair.mp hq with rfl | rfl
        · exact .inr (.inl ⟨_, .iteration, rfl⟩)
        · exact .inr (.inl ⟨_, .noIteration, rfl⟩)
  | alternation alternatives occurrence =>
    obtain ⟨branch, hBranch, rfl⟩ := List.mem_map.mp hq
    exact .inr (.inl ⟨_, .alternative branch hBranch, rfl⟩)

theorem path_of_mem_successors (hc : Throughout (Production.IsResolved rules) c)
    (hq : q ∈ successors rules c) : q.path = [] ∨ ∃ token, q.path = [token] := by
  cases c with
  | nil => cases hq
  | cons segment rest =>
    cases segment with
    | token token =>
      obtain rfl := List.mem_singleton.mp hq
      exact .inr ⟨token, rfl⟩
    | again definition separator =>
      rcases List.mem_pair.mp hq with rfl | rfl <;> exact .inl rfl
    | sequence definition =>
      cases definition with
      | nil =>
        obtain rfl := List.mem_singleton.mp hq
        exact .inl rfl
      | cons p ps =>
        obtain ⟨way, hWay, rfl⟩ := List.mem_map.mp hq
        have hp := (throughout_cons.mp hc).1 p
          (List.mem_append_left _ (Production.mem_nodes_self p))
        rcases ways_cases hp hWay with ⟨token, _, rfl, rfl⟩ | ⟨d, -, rfl⟩ | ⟨_, _, rfl, rfl⟩
        · exact .inr ⟨token, rfl⟩
        · exact .inl rfl
        · exact .inl rfl

theorem keeps_successors {Q : Segment → Prop} (hQ : Segment.IsKept rules P Q)
    (hc : ∀ segment ∈ c, Q segment) (hq : q ∈ successors rules c) :
    ∀ segment ∈ q.rest, Q segment := by
  cases c with
  | nil => cases hq
  | cons segment rest =>
    obtain ⟨hFirst, hRest⟩ := List.forall_mem_cons.mp hc
    cases segment with
    | token token =>
      obtain rfl := List.mem_singleton.mp hq
      exact hRest
    | again definition separator =>
      rcases List.mem_pair.mp hq with rfl | rfl
      · have hBody : Q (.sequence definition) := hQ.sequence _ (hQ.parts _ hFirst)
        refine List.forall_mem_append.mpr ⟨?_, hRest⟩
        cases separator with
        | none => exact List.forall_mem_cons.mpr ⟨hBody, List.forall_mem_singleton.mpr hFirst⟩
        | some s =>
          exact List.forall_mem_cons.mpr ⟨hQ.token s,
            List.forall_mem_cons.mpr ⟨hBody, List.forall_mem_singleton.mpr hFirst⟩⟩
      · exact hRest
    | sequence definition =>
      cases definition with
      | nil =>
        obtain rfl := List.mem_singleton.mp hq
        exact hRest
      | cons p ps =>
        obtain ⟨way, hWay, rfl⟩ := List.mem_map.mp hq
        have hNodes := hQ.parts _ hFirst
        have hp : ∀ q ∈ p.nodes, P q := fun q hq => hNodes q (List.mem_append_left _ hq)
        refine List.forall_mem_append.mpr ⟨?_, forall_mem_remaining ?_ hRest⟩
        · rcases ways_cases (hQ.resolved p (hp p (Production.mem_nodes_self p))) hWay with
            ⟨token, _, rfl, rfl⟩ | ⟨d, hExpands, rfl⟩ | ⟨_, _, rfl, rfl⟩
          · exact List.forall_mem_nil _
          · exact hQ.rules.inherits hQ.toInherits hExpands hp
          · exact List.forall_mem_singleton.mpr (hQ.again _ _ _ _ hp)
        · exact hQ.sequence _ fun q hq => hNodes q (List.mem_append_right _ hq)

def goOn (rules : List Rule) (fuel room : Nat) (q : Partial) : Option (List Partial) :=
  (expand rules fuel (room - q.path.length) q.rest).map (List.map (Partial.behind q.path))

theorem goOn_silent : goOn rules fuel room ⟨[], c⟩ = expand rules fuel room c := by
  rw [goOn, Partial.behind_nil, List.map_id_fun, Option.map_id_fun, id, List.length_nil, Nat.sub_zero]

theorem goOn_token (token : TypeId) : goOn rules fuel (room + 1) ⟨[token], c⟩ =
    (expand rules fuel room c).map (prepend token) := rfl

theorem flatten_mapM_one {β γ : Type} (f : β → Option (List γ)) (x : β) :
    ([x].mapM f).map List.flatten = f x := by
  rw [List.mapM_cons]
  cases f x <;> simp

theorem flatten_mapM_two {β γ : Type} (f : β → Option (List γ)) (x y : β) :
    ([x, y].mapM f).map List.flatten = (do return (← f x) ++ (← f y)) := by
  rw [List.mapM_cons, List.mapM_cons]
  cases f x <;> cases f y <;> simp

theorem expand_eq_ways : expand rules (fuel + 1) (room + 1) (.sequence (p :: ps) :: rest) =
    (((ways rules p).map (Partial.before (remaining ps rest))).mapM
      (goOn rules fuel (room + 1))).map List.flatten := by
  cases p with
  | terminal token occurrence =>
    rw [ways, List.map_singleton, flatten_mapM_one]
    exact (goOn_token token).symm
  | nonTerminal name target occurrence =>
    cases target <;>
    · rw [ways, List.map_singleton, flatten_mapM_one]
      exact goOn_silent.symm
  | option definition occurrence =>
    rw [ways, List.map_cons, List.map_singleton, flatten_mapM_two, Partial.before, Partial.before,
      goOn_silent, goOn_silent]
    rfl
  | repetition mandatory separator definition occurrence =>
    cases mandatory with
    | true =>
      rw [ways, List.map_singleton, flatten_mapM_one]
      exact goOn_silent.symm
    | false =>
      cases separator with
      | none =>
        rw [ways, List.map_singleton, flatten_mapM_one]
        exact goOn_silent.symm
      | some s =>
        rw [ways, List.map_cons, List.map_singleton, flatten_mapM_two, Partial.before,
          Partial.before, goOn_silent, goOn_silent]
        rfl
  | alternation alternatives occurrence =>
    have hEach : ((ways rules (.alternation alternatives occurrence)).map
        (Partial.before (remaining ps rest))).mapM (goOn rules fuel (room + 1)) =
        alternatives.mapM fun a =>
          expand rules fuel (room + 1) (.sequence a.definition :: remaining ps rest) := by
      rw [ways, List.map_map, List.mapM_map]
      exact mapM_congr fun a _ => goOn_silent
    rw [hEach, Option.map_eq_bind]
    rfl

/-- While there is room, expanding takes one step and goes on from all that it leads to. -/
theorem expand_eq_successors (hc : c ≠ []) : expand rules (fuel + 1) (room + 1) c =
    ((successors rules c).mapM (goOn rules fuel (room + 1))).map List.flatten := by
  cases c with
  | nil => exact absurd rfl hc
  | cons segment rest =>
    cases segment with
    | token token => rw [successors, flatten_mapM_one, goOn_token, expand]
    | again definition separator =>
      rw [successors, flatten_mapM_two, goOn_silent, goOn_silent]
      cases separator <;> rfl
    | sequence definition =>
      cases definition with
      | nil => rw [successors, flatten_mapM_one, goOn_silent, expand]
      | cons p ps => exact expand_eq_ways

end Lookahead

end PredictiveParsing
