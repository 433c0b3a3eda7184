import Mathlib.Logic.Function.Iterate
import PredictiveParsing.Proofs.Grammar.Coverage
import PredictiveParsing.Proofs.Grammar.Leftover
import PredictiveParsing.Proofs.Grammar.MoreLookahead

/-!
# The worklist of expanding

Expanding as a loop over partials that have to go on. In rules that have passed the checks of
structure the loop ends for all that is made of their productions, whatever the length of the paths,
so every such grammar is analysed.
-/

namespace PredictiveParsing

variable {v : Vocabulary} {rules : List Rule} {c : Continuation} {p q : Production}
  {ps : List Production}

/-! ## Parts of the rules -/

namespace Production

theorem mem_nodesOf (h : p ∈ ps) : p ∈ nodesOf ps := by
  induction ps with
  | nil => cases h
  | cons q ps ih =>
    rcases List.mem_cons.mp h with rfl | h
    · exact List.mem_append_left _ (mem_nodes_self p)
    · exact List.mem_append_right _ (ih h)

mutual

theorem size_le_of_mem_nodes (p : Production) (hq : q ∈ p.nodes) : q.size ≤ p.size := by
  cases p with
  | terminal | nonTerminal =>
    obtain rfl := List.mem_singleton.mp hq
    exact Nat.le_refl _
  | option definition occurrence | repetition mandatory separator definition occurrence =>
    rcases List.mem_cons.mp hq with rfl | hq
    · exact Nat.le_refl _
    · exact Nat.le_add_left_of_le (size_le_of_mem_nodesOf definition hq)
  | alternation alternatives occurrence =>
    rcases List.mem_cons.mp hq with rfl | hq
    · exact Nat.le_refl _
    · exact Nat.le_add_left_of_le (size_le_of_mem_nodesOfBranches alternatives hq)

theorem size_le_of_mem_nodesOf (ps : List Production) (hq : q ∈ nodesOf ps) :
    q.size ≤ sizeAll ps := by
  cases ps with
  | nil => cases hq
  | cons p ps =>
    rw [sizeAll]
    rcases List.mem_append.mp hq with hq | hq
    · exact Nat.le_add_right_of_le (size_le_of_mem_nodes p hq)
    · exact Nat.le_add_left_of_le (size_le_of_mem_nodesOf ps hq)

theorem size_le_of_mem_nodesOfBranches (branches : List (Alternative Production))
    (hq : q ∈ nodesOfBranches branches) : q.size ≤ sizeOfBranches branches := by
  cases branches with
  | nil => cases hq
  | cons branch rest =>
    rw [sizeOfBranches]
    rcases List.mem_append.mp hq with hq | hq
    · exact Nat.le_add_right_of_le (size_le_of_mem_nodesOf branch.definition hq)
    · exact Nat.le_add_left_of_le (size_le_of_mem_nodesOfBranches rest hq)

end

end Production

namespace Lookahead

theorem size_le_largest_of_mem {r : Rule} (hr : r ∈ rules) (hp : p ∈ r.nodes) :
    p.size ≤ largest rules :=
  (Production.size_le_of_mem_nodesOf _ hp).trans ((le_foldl_max _ 0).2 _ (List.mem_map_of_mem hr))

end Lookahead

namespace Segment

theorem isKept_isPartOf (hRules : AllRules (Production.IsResolved rules) rules) :
    IsKept rules (fun p => ∃ r ∈ rules, p ∈ r.nodes) (IsPartOf rules) where
  token := .token
  sequence ps h := .sequence fun p hp => h p (Production.mem_nodesOf hp)
  again mandatory separator definition occurrence h := by
    obtain ⟨r, hr, hp⟩ := h _ (Production.mem_nodes_self _)
    exact .again hr hp
  parts _ h := h.inherits fun r hr p hp => ⟨r, hr, hp⟩
  resolved p := fun ⟨r, hr, hp⟩ => hRules r hr p hp
  rules r hr p hp := ⟨r, hr, hp⟩

variable {most : RuleId → Nat} {m : Nat} {segment : Segment} {fs : FirstSets}

theorem IsPartOf.leftover_le (h : segment.IsPartOf rules) (hMost : ∀ r, most r ≤ m) :
    segment.leftover fs most ≤ segment.size + (m + Production.spread (Lookahead.largest rules)) := by
  cases h with
  | token token => exact Nat.zero_le _
  | @sequence ps h =>
    have hSmall : ∀ p ∈ ps, p.size ≤ Lookahead.largest rules := fun p hp => by
      obtain ⟨r, hr, hp⟩ := h p hp
      exact Lookahead.size_le_largest_of_mem hr hp
    have hLe : Production.leftoverAll fs most ps ≤ _ :=
      Production.leftoverAll_le_of_small hMost ps hSmall
    rw [leftover, size]
    omega
  | @again r mandatory separator other definition occurrence hr h =>
    have hLe : Production.leftoverAll fs most definition ≤ _ :=
      Production.leftoverAll_le definition fun q _ => hMost q
    have hSpread := Production.spread_mono (Lookahead.size_le_largest_of_mem hr h)
    rw [Production.size, Nat.add_comm 1, Production.spread_succ] at hSpread
    rw [leftover, size]
    omega

theorem leftoverAll_le (hc : ∀ segment ∈ c, segment.IsPartOf rules) (hMost : ∀ r, most r ≤ m) :
    leftoverAll fs most c ≤ sizeAll c + (m + Production.spread (Lookahead.largest rules)) := by
  induction c with
  | nil => exact Nat.zero_le _
  | cons segment c ih =>
    obtain ⟨hFirst, hRest⟩ := List.forall_mem_cons.mp hc
    have hOwn : segment.leftover fs most ≤ _ := hFirst.leftover_le hMost
    have hLater := ih hRest
    rw [leftoverAll, sizeAll]
    split <;> omega

end Segment

/-! ## Any number of tokens -/

namespace Lookahead

variable {weigh most : RuleId → Nat} {room fuel m : Nat} {path : Path}

theorem gives_expand (hRules : AllRules (Production.IsSound rules) rules)
    (hWeights : Outweighs (.ofRules rules) weigh rules) (hWeigh : ∀ r, weigh r ≤ nested rules)
    (hMost : Suffices (.ofRules rules) most rules)
    (hBound : ∀ r, most r ≤ (rules.length + 1) * (Production.spread (largest rules) + 1))
    (hc : ∀ segment ∈ c, segment.IsPartOf rules)
    (hSize : Segment.sizeAll c + room * nested rules ≤ m)
    (hFuel : room * (m * nested rules + 1) < fuel) :
    Gives (fun p => p.path.length = room ∨ p.rest = []) (expand rules fuel room c) := by
  have hKept := Segment.isKept_isPartOf fun r hr p hp => (hRules r hr p hp).1
  have hNested : 4 ≤ nested rules :=
    (Nat.le_add_left 4 _).trans (Nat.le_self_pow (Nat.succ_ne_zero _) _)
  induction room generalizing c fuel with
  | zero =>
    obtain ⟨fuel, rfl⟩ : ∃ n, fuel = n + 1 := Nat.exists_eq_add_of_le' (by omega)
    exact ⟨_, rfl, List.forall_mem_singleton.mpr (.inl rfl)⟩
  | succ room ih =>
    have hStart : Segment.leftoverAll (.ofRules rules) most c ≤ _ :=
      Segment.leftoverAll_le hc hBound
    have hLess : (rules.length + 2) * (Production.spread (largest rules) + 1) ≤ nested rules :=
      leftover_le_nested
    rw [Nat.succ_mul] at hLess hSize hFuel
    have hEffort : Segment.effortAll (.ofRules rules) weigh c ≤ m * nested rules :=
      (Segment.effortAll_le (Nat.le_of_succ_le hNested) hWeigh c).trans
        (Nat.mul_le_mul_right _ (by omega))
    have hEnough : Segment.effortAll (.ofRules rules) weigh c +
        (room * (m * nested rules + 1) + 1) < fuel := by omega
    -- What is left behind the next token stays below what it can be at the start.
    refine gives_expand_succ (C := fun d => (∀ segment ∈ d, segment.IsPartOf rules) ∧
        Segment.leftoverAll (.ofRules rules) most d ≤ Segment.leftoverAll (.ofRules rules) most c)
      ?_ (.inr rfl) ⟨hc, Nat.le_refl _⟩ hEnough
    rintro d ⟨hd, hLeft⟩ q hq
    have hSound : ∀ segment ∈ d, segment.IsSound rules := fun s hs => (hd s hs).isSound hRules
    have hRest := keeps_successors hKept hd hq
    rcases leftover_of_mem_successors hMost hSound hq with
      ⟨hSilent, hLe⟩ | ⟨⟨token, hToken⟩, hLe⟩
    · exact .inl ⟨hSilent, ⟨hRest, hLe.trans hLeft⟩,
        effort_lt_of_mem_successors hWeights hSound hq hSilent⟩
    · refine .inr ⟨token, hToken, fun fuel hFuel => ?_⟩
      obtain ⟨ps, hps, hAll⟩ := ih hRest (by omega) hFuel
      refine ⟨ps, hps, fun p hp => ?_⟩
      rcases hAll p hp with hFull | hEnd
      · exact .inl (congrArg (· + 1) hFull)
      · exact .inr hEnd

theorem gives_expand? (hRules : AllRules (Production.IsSound rules) rules)
    (hOrdered : ∀ r, Structure.IsOrdered (Structure.openingRules (.ofRules rules) rules) r)
    (hc : ∀ segment ∈ c, segment.IsPartOf rules) (room : Nat) :
    Gives (fun p => p.path.length = room ∨ p.rest = []) (expand? rules room c) := by
  obtain ⟨weigh, hWeights, hWeigh⟩ := exists_weights hOrdered
  obtain ⟨most, hMost, hBound⟩ := exists_most hOrdered
  refine gives_expand hRules hWeights hWeigh hMost hBound hc (Nat.le_refl _) ?_
  have hSome : 0 < nested rules := Nat.pow_pos (Nat.succ_pos _)
  rw [stepBound_eq, Nat.mul_assoc]
  refine Nat.mul_lt_mul_of_lt_of_le (Nat.lt_succ_self room) ?_ (Nat.mul_pos (by omega) hSome)
  calc (Segment.sizeAll c + room * nested rules) * nested rules + 1
      ≤ (Segment.sizeAll c + room * nested rules + 1) * nested rules := by
        rw [Nat.succ_mul]
        omega
    _ ≤ _ := by
        rw [Nat.succ_mul room]
        exact Nat.mul_le_mul_right _ (by omega)

/-! ## The loop -/

/-- Partials that have to go on, the next one first, and those that have not. -/
structure Work where
  pending : List Partial
  done : List Partial

/-- One round of the loop: the next partial is done if it is long enough or has come to its end, and
otherwise gives way to what it goes on with. -/
def Work.next (rules : List Rule) (maxLen : Nat) : Work → Work
  | ⟨[], done⟩ => ⟨[], done⟩
  | ⟨p :: pending, done⟩ =>
    if maxLen ≤ p.path.length ∨ p.rest.isEmpty then ⟨pending, done ++ [p]⟩
    else ⟨(successors rules p.rest).map (Partial.behind p.path) ++ pending, done⟩

def Work.Reaches (rules : List Rule) (maxLen : Nat) (w w' : Work) : Prop :=
  ∃ n, (Work.next rules maxLen)^[n] w = w'

variable {maxLen : Nat} {pending done : List Partial}

theorem Work.Reaches.trans {w w' w'' : Work} (h : Reaches rules maxLen w w')
    (h' : Reaches rules maxLen w' w'') : Reaches rules maxLen w w'' := by
  obtain ⟨n, rfl⟩ := h
  obtain ⟨n', rfl⟩ := h'
  exact ⟨n' + n, Function.iterate_add_apply _ _ _ _⟩

theorem Work.reaches_done (h : maxLen ≤ path.length ∨ c = []) :
    Reaches rules maxLen ⟨⟨path, c⟩ :: pending, done⟩ ⟨pending, done ++ [⟨path, c⟩]⟩ := by
  rw [← List.isEmpty_iff] at h
  exact ⟨1, if_pos h⟩

theorem Work.reaches_successors (hRoom : path.length < maxLen) (hc : c ≠ []) :
    Reaches rules maxLen ⟨⟨path, c⟩ :: pending, done⟩
      ⟨(successors rules c).map (Partial.behind path) ++ pending, done⟩ := by
  refine ⟨1, if_neg ?_⟩
  rw [List.isEmpty_iff, not_or]
  exact ⟨Nat.not_le.mpr hRoom, hc⟩

theorem Work.reaches_flatten {qs : List Partial} {all : List (List Partial)}
    (h : List.Forall₂ (fun q ps => ∀ pending done,
      Reaches rules maxLen ⟨q :: pending, done⟩ ⟨pending, done ++ ps⟩) qs all) :
    Reaches rules maxLen ⟨qs ++ pending, done⟩ ⟨pending, done ++ all.flatten⟩ := by
  induction h generalizing done with
  | nil =>
    rw [List.nil_append, List.flatten_nil, List.append_nil]
    exact ⟨0, rfl⟩
  | cons hFirst _ ih =>
    rw [List.cons_append, List.flatten_cons, ← List.append_assoc]
    exact (hFirst _ _).trans ih

/-- The loop does what expanding does: the next partial is left with all that is found from it. -/
theorem Work.reaches_expand {found : List Partial}
    (h : expand rules fuel (maxLen - path.length) c = some found) :
    Reaches rules maxLen ⟨⟨path, c⟩ :: pending, done⟩
      ⟨pending, done ++ found.map (Partial.behind path)⟩ := by
  induction fuel generalizing path c found pending done with
  | zero => cases h
  | succ fuel ih =>
    by_cases hFull : maxLen ≤ path.length
    · rw [Nat.sub_eq_zero_of_le hFull, expand] at h
      cases h
      have hDone : Reaches rules maxLen ⟨⟨path, c⟩ :: pending, done⟩ _ := reaches_done (.inl hFull)
      simpa [Partial.behind] using hDone
    · have hRoom := Nat.lt_of_not_le hFull
      obtain ⟨room, hLeft⟩ : ∃ n, maxLen - path.length = n + 1 :=
        Nat.exists_eq_add_of_le' (Nat.sub_pos_of_lt hRoom)
      rw [hLeft] at h
      by_cases hc : c = []
      · subst hc
        rw [expand] at h
        cases h
        have hDone : Reaches rules maxLen ⟨⟨path, []⟩ :: pending, done⟩ _ := reaches_done (.inr rfl)
        simpa [Partial.behind] using hDone
      · rw [expand_eq_successors hc] at h
        obtain ⟨all, hAll, rfl⟩ := Option.map_eq_some_iff.mp h
        refine (reaches_successors hRoom hc).trans ?_
        rw [List.map_flatten]
        refine reaches_flatten ?_
        rw [List.forall₂_map_left_iff, List.forall₂_map_right_iff]
        refine (forall₂_of_mapM hAll).imp fun q ps hGone pending done => ?_
        obtain ⟨later, hLater, rfl⟩ := Option.map_eq_some_iff.mp hGone
        have hFirst : expand rules fuel (maxLen - (path ++ q.path).length) q.rest = some later := by
          rw [List.length_append, ← Nat.sub_sub, hLeft]
          exact hLater
        rw [List.map_map, Partial.behind_comp_behind]
        exact ih hFirst

end Lookahead

/-! ## Compiling -/

theorem Structure.exists_ofRules?_of_errors (hRules : AllRules (Production.IsResolved rules) rules)
    (hSound : errors v rules (.ofRules rules) = []) (k : Nat) :
    ∃ a, Analysis.ofRules? v rules (.ofRules rules) k = some a :=
  exists_ofRules? (opens_of_errors hRules hSound) (areSound_of_errors hRules hSound) _

theorem Grammar.compile_ends {α : Type} (bodies : List (RuleBody α)) (config : ParserConfig) :
    (∃ g, compile v bodies config = .ok g) ∨ ∃ es, compile v bodies config = .error (.invalid es) := by
  cases hNamed : recordingErrors v bodies with
  | cons e es =>
    refine .inr ⟨e :: es, ?_⟩
    rw [compile, hNamed]
  | nil =>
    let rules := Names.resolve (bodies.map RuleBody.record)
    cases hSound : Structure.errors v rules (.ofRules rules) with
    | cons e es =>
      refine .inr ⟨e :: es, ?_⟩
      simp only [compile, hNamed]
      rw [hSound]
    | nil =>
      obtain ⟨analysis, hAnalysis⟩ := Structure.exists_ofRules?_of_errors
        (areResolved_of_named hNamed) hSound config.maxLookahead
      simp only [compile, hNamed]
      rw [hSound, hAnalysis]
      simp only
      split
      · exact .inr ⟨_, rfl⟩
      · exact .inl ⟨_, rfl⟩

/-- In resolved rules without structural errors, the loop of expanding ends for all that is made of
their productions, from every path and for every length, with what expanding finds; so such rules can
be analysed with any lookahead, and compiling ends. -/
theorem expansion_ends (hRules : AllRules (Production.IsResolved rules) rules)
    (hSound : Structure.errors v rules (.ofRules rules) = []) :
    (∀ (c : Continuation) (path : Path) (maxLen : Nat), (∀ segment ∈ c, segment.IsPartOf rules) →
      ∃ found, Lookahead.expand? rules (maxLen - path.length) c = some found ∧
        Lookahead.Work.Reaches rules maxLen ⟨[⟨path, c⟩], []⟩
          ⟨[], found.map (Partial.behind path)⟩) ∧
      (∀ k, ∃ a, Analysis.ofRules? v rules (.ofRules rules) k = some a) ∧
      ∀ (α : Type) (bodies : List (RuleBody α)) (config : ParserConfig),
        (∃ g, Grammar.compile v bodies config = .ok g) ∨
          ∃ es, Grammar.compile v bodies config = .error (.invalid es) := by
  refine ⟨fun c path maxLen hc => ?_, Structure.exists_ofRules?_of_errors hRules hSound,
    fun _ => Grammar.compile_ends⟩
  obtain ⟨found, hFound, -⟩ := Lookahead.gives_expand? (Structure.areSound_of_errors hRules hSound)
    (Structure.isOrdered_of_leftRecursions (List.append_eq_nil_iff.mp hSound).1) hc
    (maxLen - path.length)
  exact ⟨found, hFound, Lookahead.Work.reaches_expand hFound⟩

open Listing in
theorem expansion_ends_listing : ∃ found,
    Lookahead.expand? lists 3 [.sequence (definitionOf lists 1)] = some found ∧
      Lookahead.Work.Reaches lists 4 ⟨[⟨[2], [.sequence (definitionOf lists 1)]⟩], []⟩
        ⟨[], found.map (Partial.behind [2])⟩ := by
  have hResolved : AllRules (Production.IsResolved lists) lists := by decide
  have hSound : Structure.errors vocabulary lists (.ofRules lists) = [] := by decide +kernel
  exact (expansion_ends hResolved hSound).1 _ [2] 4
    (isPartOf_alternatives _ List.mem_cons_self)

end PredictiveParsing
