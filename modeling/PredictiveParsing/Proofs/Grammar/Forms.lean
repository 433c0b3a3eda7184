import PredictiveParsing.Proofs.Grammar.FirstTokens
import PredictiveParsing.Proofs.Grammar.Sites

/-!
# Expansions of a rule's own body

A body is a row of productions. In an expansion some of its options, branches and numbers of
iterations are chosen, and separators stand between the iterations; references to rules stay what
they are. What comes behind a production in an expansion is what the place of the production has
behind it, with the iterations of the loops around it chosen.
-/

namespace PredictiveParsing

open Relation

inductive Part where
  | production (p : Production)
  | separator (token : TypeId)

namespace Part

def row (ps : List Production) : List Part := ps.map .production

/-- Some further iterations of a loop, each behind a separator if there is one. -/
def further (separator : Option TypeId) (definition : List Production) : Nat → List Part
  | 0 => []
  | n + 1 => separator.toList.map .separator ++ (row definition ++ further separator definition n)

end Part

open PredictiveParsing.Part (row further)

inductive Production.Chooses : Production → List Part → Prop
  | noOption {definition : List Production} {occurrence : Nat} :
      Chooses (.option definition occurrence) []
  | option {definition : List Production} {occurrence : Nat} :
      Chooses (.option definition occurrence) (row definition)
  | noIteration {separator : Option TypeId} {definition : List Production} {occurrence : Nat} :
      Chooses (.repetition false separator definition occurrence) []
  | iterations {mandatory : Bool} {separator : Option TypeId} {definition : List Production}
      {occurrence : Nat} (n : Nat) :
      Chooses (.repetition mandatory separator definition occurrence)
        (row definition ++ further separator definition n)
  | alternative {alternatives : List (Alternative Production)} {occurrence : Nat}
      (branch : Alternative Production) (h : branch ∈ alternatives) :
      Chooses (.alternation alternatives occurrence) (row branch.definition)

inductive Choice : List Part → List Part → Prop
  | choose (front back : List Part) {p : Production} {parts : List Part} (h : p.Chooses parts) :
      Choice (front ++ .production p :: back) (front ++ (parts ++ back))

abbrev Choices : List Part → List Part → Prop := ReflTransGen Choice

/-- A row of parts that a rule's own body can become. -/
def IsExpansion (rules : List Rule) (r : RuleId) (form : List Part) : Prop :=
  Choices (row (definitionOf rules r)) form

namespace Part

def Vanishes (rules : List Rule) : Part → Prop
  | .production p => Nullable rules [.sequence [p]]
  | .separator _ => False

def BeginsWith (rules : List Rule) (token : TypeId) : Part → Prop
  | .separator other => other = token
  | .production (.terminal other _) => other = token
  | .production (.nonTerminal _ (some callee) _) =>
    First rules [.sequence (definitionOf rules callee)] token
  | .production _ => False

end Part

inductive LeadsWith (rules : List Rule) (token : TypeId) : List Part → Prop
  | here {part : Part} {rest : List Part} (h : part.BeginsWith rules token) :
      LeadsWith rules token (part :: rest)
  | behind {part : Part} {rest : List Part} (hNull : part.Vanishes rules)
      (h : LeadsWith rules token rest) : LeadsWith rules token (part :: rest)

/-- In some expansion of a rule, a production is followed by what tokens of a kind are read as. -/
def FollowsWithin (rules : List Rule) (v : Vocabulary) (r : RuleId) (p : Production)
    (kind : TypeId) : Prop :=
  ∃ front back token, IsExpansion rules r (front ++ .production p :: back) ∧
    LeadsWith rules token back ∧ v.isMatch kind token = true

variable {rules : List Rule} {c d : Continuation} {a b form front back parts : List Part}
  {p q : Production} {ps qs : List Production} {token : TypeId} {site : Site}

theorem Choice.append_left (h : Choice a b) (front : List Part) : Choice (front ++ a) (front ++ b) := by
  obtain ⟨before, back, hChooses⟩ := h
  rw [← List.append_assoc, ← List.append_assoc]
  exact .choose (front ++ before) back hChooses

theorem Choice.append_right (h : Choice a b) (back : List Part) : Choice (a ++ back) (b ++ back) := by
  obtain ⟨front, behind, hChooses⟩ := h
  rw [List.append_assoc, List.append_assoc, List.append_assoc, List.cons_append]
  exact .choose front (behind ++ back) hChooses

theorem choices_append_left (h : Choices a b) (front : List Part) :
    Choices (front ++ a) (front ++ b) :=
  h.lift (front ++ ·) fun _ _ hChoice => hChoice.append_left front

theorem choices_append_right (h : Choices a b) (back : List Part) :
    Choices (a ++ back) (b ++ back) :=
  h.lift (· ++ back) fun _ _ hChoice => hChoice.append_right back

theorem choices_chosen (h : p.Chooses parts) (back : List Part) :
    Choices (.production p :: back) (parts ++ back) := .single (.choose [] back h)

/-! ## From places to expansions -/

/-- What comes behind a place, with the iterations of its loops chosen. -/
inductive Realizes : Continuation → List Part → Prop
  | nil : Realizes [] []
  | sequence {c : Continuation} {back : List Part} (ps : List Production) (h : Realizes c back) :
      Realizes (.sequence ps :: c) (row ps ++ back)
  | again {c : Continuation} {back : List Part} (definition : List Production)
      (separator : Option TypeId) (n : Nat) (h : Realizes c back) :
      Realizes (.again definition separator :: c) (further separator definition n ++ back)
  | token {c : Continuation} {back : List Part} (token : TypeId) (h : Realizes c back) :
      Realizes (.token token :: c) (.separator token :: back)

theorem exists_realizes (c : Continuation) : ∃ back, Realizes c back := by
  induction c with
  | nil => exact ⟨_, .nil⟩
  | cons segment c ih =>
    obtain ⟨back, h⟩ := ih
    cases segment with
    | sequence ps => exact ⟨_, h.sequence ps⟩
    | again definition separator => exact ⟨_, h.again definition separator 0⟩
    | token token => exact ⟨_, h.token token⟩

namespace Site

mutual

theorem exists_choices_within {c : Continuation} (q : Production) (h : site ∈ within c q)
    (hBack : Realizes site.after back) : ∃ behind front, Realizes c behind ∧
      Choices (.production q :: behind) (front ++ .production site.production :: back) := by
  cases q with
  | terminal | nonTerminal =>
    obtain rfl := List.mem_singleton.mp h
    exact ⟨back, [], hBack, .refl⟩
  | option definition occurrence =>
    rcases List.mem_cons.mp h with rfl | h
    · exact ⟨back, [], hBack, .refl⟩
    · obtain ⟨behind, front, hBehind, hChoices⟩ := exists_choices_along definition h hBack
      exact ⟨behind, front, hBehind, (choices_chosen .option behind).trans hChoices⟩
  | repetition mandatory separator definition occurrence =>
    rcases List.mem_cons.mp h with rfl | h
    · exact ⟨back, [], hBack, .refl⟩
    · obtain ⟨_, front, hBehind, hChoices⟩ := exists_choices_along definition h hBack
      cases hBehind with
      | again _ _ n hBehind =>
        refine ⟨_, front, hBehind, (choices_chosen (.iterations n) _).trans ?_⟩
        rwa [List.append_assoc]
  | alternation alternatives occurrence =>
    rcases List.mem_cons.mp h with rfl | h
    · exact ⟨back, [], hBack, .refl⟩
    · obtain ⟨branch, hBranch, behind, front, hBehind, hChoices⟩ :=
        exists_choices_amongBranches alternatives h hBack
      exact ⟨behind, front, hBehind, (choices_chosen (.alternative branch hBranch) behind).trans hChoices⟩

theorem exists_choices_along {c : Continuation} (ps : List Production) (h : site ∈ along c ps)
    (hBack : Realizes site.after back) : ∃ behind front, Realizes c behind ∧
      Choices (row ps ++ behind) (front ++ .production site.production :: back) := by
  cases ps with
  | nil => simp [along] at h
  | cons p ps =>
    rcases List.mem_append.mp h with h | h
    · obtain ⟨_, front, hBehind, hChoices⟩ := exists_choices_within p h hBack
      cases hBehind with
      | sequence _ hBehind => exact ⟨_, front, hBehind, hChoices⟩
    · obtain ⟨behind, front, hBehind, hChoices⟩ := exists_choices_along ps h hBack
      exact ⟨behind, .production p :: front, hBehind,
        choices_append_left hChoices [.production p]⟩

theorem exists_choices_amongBranches {c : Continuation} (branches : List (Alternative Production))
    (h : site ∈ amongBranches c branches) (hBack : Realizes site.after back) :
    ∃ branch ∈ branches, ∃ behind front, Realizes c behind ∧
      Choices (row branch.definition ++ behind) (front ++ .production site.production :: back) := by
  cases branches with
  | nil => simp [amongBranches] at h
  | cons branch rest =>
    rcases List.mem_append.mp h with h | h
    · exact ⟨branch, List.mem_cons_self, exists_choices_along branch.definition h hBack⟩
    · obtain ⟨other, hOther, hChoices⟩ := exists_choices_amongBranches rest h hBack
      exact ⟨other, List.mem_cons_of_mem _ hOther, hChoices⟩

end

/-! ## From expansions to places -/

theorem mem_within_self (c : Continuation) (p : Production) : ⟨p, c⟩ ∈ within c p := by
  cases p with
  | terminal | nonTerminal | option | repetition | alternation => exact List.mem_cons_self

theorem mem_along_split (c : Continuation) (ps qs : List Production) :
    ⟨p, .sequence qs :: c⟩ ∈ along c (ps ++ p :: qs) := by
  induction ps with
  | nil => exact List.mem_append_left _ (mem_within_self _ p)
  | cons q ps ih => exact List.mem_append_right _ ih

mutual

theorem within_subset_within {c : Continuation} (q : Production) (h : site ∈ within c q) :
    within site.after site.production ⊆ within c q := by
  cases q with
  | terminal | nonTerminal =>
    obtain rfl := List.mem_singleton.mp h
    exact List.Subset.refl _
  | option definition occurrence =>
    rcases List.mem_cons.mp h with rfl | h
    · exact List.Subset.refl _
    · exact List.subset_cons_of_subset _ (within_subset_along definition h)
  | repetition mandatory separator definition occurrence =>
    rcases List.mem_cons.mp h with rfl | h
    · exact List.Subset.refl _
    · exact List.subset_cons_of_subset _ (within_subset_along definition h)
  | alternation alternatives occurrence =>
    rcases List.mem_cons.mp h with rfl | h
    · exact List.Subset.refl _
    · exact List.subset_cons_of_subset _ (within_subset_amongBranches alternatives h)

theorem within_subset_along {c : Continuation} (ps : List Production) (h : site ∈ along c ps) :
    within site.after site.production ⊆ along c ps := by
  cases ps with
  | nil => simp [along] at h
  | cons p ps =>
    rcases List.mem_append.mp h with h | h
    · exact List.subset_append_of_subset_left _ (within_subset_within p h)
    · exact List.subset_append_of_subset_right _ (within_subset_along ps h)

theorem within_subset_amongBranches {c : Continuation} (branches : List (Alternative Production))
    (h : site ∈ amongBranches c branches) :
    within site.after site.production ⊆ amongBranches c branches := by
  cases branches with
  | nil => simp [amongBranches] at h
  | cons branch rest =>
    rcases List.mem_append.mp h with h | h
    · exact List.subset_append_of_subset_left _ (within_subset_along branch.definition h)
    · exact List.subset_append_of_subset_right _ (within_subset_amongBranches rest h)

end

end Site

theorem split_append {β : Type} {l m front back : List β} {x : β}
    (h : l ++ m = front ++ x :: back) :
    (∃ mid, l = front ++ x :: mid ∧ back = mid ++ m) ∨ ∃ mid, m = mid ++ x :: back := by
  rcases List.append_eq_append_iff.mp h with ⟨mid, rfl, hSplit⟩ | ⟨mid, rfl, hSplit⟩
  · exact .inr ⟨mid, hSplit⟩
  · cases mid with
    | nil => exact .inr ⟨[], hSplit.symm⟩
    | cons y mid =>
      obtain ⟨rfl, rfl⟩ := List.cons.inj hSplit
      exact .inl ⟨mid, rfl, rfl⟩

theorem split_row (h : row ps = front ++ .production p :: back) :
    ∃ before behind, ps = before ++ p :: behind ∧ back = row behind := by
  obtain ⟨before, rest, rfl, -, hRest⟩ := List.map_eq_append_iff.mp h
  obtain ⟨q, behind, rfl, hSame, rfl⟩ := List.map_eq_cons_iff.mp hRest
  cases hSame
  exact ⟨before, behind, rfl, rfl⟩

theorem split_further {separator : Option TypeId} {definition : List Production} {n : Nat}
    (h : further separator definition n = front ++ .production p :: back) :
    ∃ before behind m, definition = before ++ p :: behind ∧
      back = row behind ++ further separator definition m := by
  induction n generalizing front with
  | zero => cases List.append_ne_nil_of_right_ne_nil front (List.cons_ne_nil _ _) h.symm
  | succ n ih =>
    rcases split_append h with ⟨mid, hSeparator, -⟩ | ⟨mid, hRest⟩
    · have hMem : .production p ∈ separator.toList.map Part.separator := by
        rw [hSeparator]
        exact List.mem_append_right _ List.mem_cons_self
      obtain ⟨_, -, hSame⟩ := List.mem_map.mp hMem
      cases hSame
    · rcases split_append hRest with ⟨mid, hRow, rfl⟩ | ⟨mid, hFurther⟩
      · obtain ⟨before, behind, hDefinition, rfl⟩ := split_row hRow
        exact ⟨before, behind, n, hDefinition, rfl⟩
      · exact ih hFurther

def PlacedBefore (body : List Production) (p : Production) (back : List Part) : Prop :=
  ∃ after behind, ⟨p, after⟩ ∈ Site.along [] body ∧ Realizes after behind ∧ Choices behind back

theorem PlacedBefore.chosen {body : List Production} (h : PlacedBefore body q back)
    (hChooses : q.Chooses parts) (hSplit : parts = front ++ .production p :: b) :
    PlacedBefore body p (b ++ back) := by
  obtain ⟨after, behind, hSite, hBehind, hChoices⟩ := h
  have hNested := Site.within_subset_along body hSite
  cases hChooses with
  | noOption | noIteration =>
    cases List.append_ne_nil_of_right_ne_nil front (List.cons_ne_nil _ _) hSplit.symm
  | option =>
    obtain ⟨ps, qs, rfl, rfl⟩ := split_row hSplit
    exact ⟨_, _, hNested (List.mem_cons_of_mem _ (Site.mem_along_split after ps qs)),
      hBehind.sequence qs, choices_append_left hChoices _⟩
  | alternative branch hBranch =>
    obtain ⟨ps, qs, hDefinition, rfl⟩ := split_row hSplit
    have hMem : ⟨p, .sequence qs :: after⟩ ∈ Site.along after branch.definition := by
      rw [hDefinition]
      exact Site.mem_along_split after ps qs
    exact ⟨_, _, hNested (List.mem_cons_of_mem _ (Site.mem_amongBranches hBranch hMem)),
      hBehind.sequence qs, choices_append_left hChoices _⟩
  | @iterations mandatory separator definition occurrence n =>
    obtain ⟨ps, qs, m, rfl, rfl⟩ : ∃ ps qs m, definition = ps ++ p :: qs ∧
        b = row qs ++ further separator definition m := by
      rcases split_append hSplit with ⟨mid, hRow, rfl⟩ | ⟨mid, hFurther⟩
      · obtain ⟨ps, qs, hDefinition, rfl⟩ := split_row hRow
        exact ⟨ps, qs, n, hDefinition, rfl⟩
      · exact split_further hFurther
    refine ⟨_, _, hNested (List.mem_cons_of_mem _ (Site.mem_along_split _ ps qs)),
      (hBehind.again _ separator m).sequence qs, ?_⟩
    rw [List.append_assoc]
    exact choices_append_left (choices_append_left hChoices _) _

/-- Wherever a production stands in an expansion, what comes behind it comes from one of its
places. The invariant is carried by the choices, each of which is in front of the production, behind
it or has brought it up. -/
theorem placedBefore_of_choices {body : List Production} (h : Choices (row body) form) :
    ∀ {front p back}, form = front ++ .production p :: back → PlacedBefore body p back := by
  induction h with
  | refl =>
    intro front p back hSplit
    obtain ⟨ps, qs, rfl, rfl⟩ := split_row hSplit
    exact ⟨_, _, Site.mem_along_split [] ps qs, Realizes.nil.sequence qs,
      by rw [List.append_nil]⟩
  | tail _ hChoice ih =>
    intro front p back hSplit
    obtain ⟨before, behind, hChooses⟩ := hChoice
    rcases split_append hSplit with ⟨mid, rfl, rfl⟩ | ⟨mid, hRest⟩
    · obtain ⟨after, start, hSite, hStart, hChoices⟩ := ih (List.append_assoc _ _ _)
      exact ⟨after, start, hSite, hStart, hChoices.tail (.choose mid behind hChooses)⟩
    · rcases split_append hRest with ⟨mid, hParts, rfl⟩ | ⟨mid, rfl⟩
      · exact (ih rfl).chosen hChooses hParts
      · exact ih (List.append_assoc before (_ :: mid) _).symm

end PredictiveParsing
