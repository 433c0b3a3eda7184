import PredictiveParsing.Proofs.Grammar.ReorderedAnalysis
import PredictiveParsing.Proofs.Grammar.Unambiguous

/-!
# Tables of rules in another order

The tables of an analysis list the places of the rules one rule after the other. In another order of
the rules they hold the same under the new numbers, and the same ambiguities are reported.
-/

namespace PredictiveParsing

/-! ## Keys -/

theorem DecisionKey.rename_injective {σ : RuleId → RuleId} (h : Function.Injective σ) :
    Function.Injective (DecisionKey.rename σ) := by
  rintro ⟨rule, kind, occurrence⟩ ⟨rule', kind', occurrence'⟩ hSame
  simpa [rename, h.eq_iff] using hSame

theorem TerminalSite.rename_injective {σ : RuleId → RuleId} (h : Function.Injective σ) :
    Function.Injective (TerminalSite.rename σ) := by
  rintro ⟨rule, kind, occurrence⟩ ⟨rule', kind', occurrence'⟩ hSame
  simpa [rename, h.eq_iff] using hSame

theorem CallSite.rename_injective {σ : RuleId → RuleId} (h : Function.Injective σ) :
    Function.Injective (CallSite.rename σ) := by
  rintro ⟨caller, callee, occurrence⟩ ⟨caller', callee', occurrence'⟩ hSame
  simpa [rename, h.eq_iff] using hSame

theorem lookup_map_keys {κ κ' β : Type} [BEq κ] [LawfulBEq κ] [BEq κ'] [LawfulBEq κ'] {f : κ → κ'}
    (hInjective : Function.Injective f) (entries : List (κ × β)) (k : κ) :
    (entries.map (Prod.map f id)).lookup (f k) = entries.lookup k := by
  induction entries with
  | nil => rfl
  | cons entry entries ih =>
    have hSame : (f k == f entry.1) = (k == entry.1) :=
      Bool.eq_iff_iff.mpr (by simp [hInjective.eq_iff])
    rw [List.map_cons, Prod.map, List.lookup_cons, List.lookup_cons, hSame, ih]
    rfl

namespace Analysis

variable {rules : List Rule} {κ β : Type} [BEq κ] [LawfulBEq κ]
  {entryOf? : RuleId × Site → Option (κ × β)}

def entriesOf (entryOf? : RuleId × Site → Option (κ × β)) (id : RuleId) (r : Rule) : List (κ × β) :=
  (Site.ofRule r).filterMap fun site => entryOf? (id, site)

theorem lookup_sites {owner : κ → RuleId}
    (hOwner : ∀ id site k b, entryOf? (id, site) = some (k, b) → owner k = id) (k : κ) :
    ((sites rules).filterMap entryOf?).lookup k =
      (((rules[owner k]?).map (entriesOf entryOf? (owner k))).getD []).lookup k := by
  have hOther : ∀ {id : RuleId} {r : Rule}, owner k ≠ id →
      (entriesOf entryOf? id r).lookup k = none := by
    intro id r hId
    refine List.lookup_eq_none_iff.mpr fun ⟨k', b⟩ hEntry => bne_iff_ne.mpr ?_
    obtain ⟨site, -, hEntry⟩ := List.mem_filterMap.mp hEntry
    rintro rfl
    exact hId (hOwner id site k b hEntry)
  -- A further rule gets the last number, so the induction is from the end of the rules.
  induction rules using List.reverseRecOn with
  | nil => rfl
  | append_singleton rules r ih =>
    have hSites : (sites (rules ++ [r])).filterMap entryOf? =
        (sites rules).filterMap entryOf? ++ entriesOf entryOf? rules.length r := by
      simp [sites, entriesOf, List.zipIdx_append, List.filterMap_append, List.filterMap_map]
    rw [hSites, List.lookup_append, ih]
    rcases Nat.lt_trichotomy (owner k) rules.length with hLt | hEq | hGt
    · rw [List.getElem?_append_left hLt, hOther (Nat.ne_of_lt hLt), Option.or_none]
    · rw [hEq, List.getElem?_concat_length, List.getElem?_eq_none (Nat.le_refl _)]
      rfl
    · rw [List.getElem?_eq_none (Nat.le_of_lt hGt), hOther (Nat.ne_of_gt hGt),
        List.getElem?_eq_none (by rw [List.length_append]; exact hGt)]
      rfl

end Analysis

namespace IsReordering

variable {σ : Equiv.Perm RuleId} {rules rules' : List Rule} (h : IsReordering σ rules rules')

include h

theorem lookup {κ β : Type} [BEq κ] [LawfulBEq κ]
    {entryOf? entryOf?' : RuleId × Site → Option (κ × β)} {owner : κ → RuleId} {change : κ → κ}
    (hInjective : Function.Injective change)
    (hOwner : ∀ id site k b, entryOf? (id, site) = some (k, b) → owner k = id)
    (hOwner' : ∀ id site k b, entryOf?' (id, site) = some (k, b) → owner k = id)
    (hChange : ∀ k, owner (change k) = σ (owner k))
    (hEntry : ∀ r site,
      entryOf?' (σ r, site.rename σ) = (entryOf? (r, site)).map (Prod.map change id))
    (k : κ) : ((Analysis.sites rules').filterMap entryOf?').lookup (change k) =
      ((Analysis.sites rules).filterMap entryOf?).lookup k := by
  rw [Analysis.lookup_sites hOwner', Analysis.lookup_sites hOwner, hChange, h.place]
  cases rules[owner k]? with
  | none => rfl
  | some r =>
    have hEntries : Analysis.entriesOf entryOf?' (σ (owner k)) (r.rename σ) =
        (Analysis.entriesOf entryOf? (owner k) r).map (Prod.map change id) := by
      rw [Analysis.entriesOf, Analysis.entriesOf, Site.ofRule_rename, List.filterMap_map,
        List.map_filterMap]
      exact congrArg (fun f => (Site.ofRule r).filterMap f) (funext (hEntry (owner k)))
    rw [Option.map_some, Option.map_some, Option.map_some, Option.getD_some, Option.getD_some,
      hEntries, lookup_map_keys hInjective]

/-! ## The four tables -/

section Tables

variable {v : Vocabulary} {k : Nat} {a a' : Analysis}
  (ha : Analysis.ofRules? v rules (.ofRules rules) k = some a)
  (ha' : Analysis.ofRules? v rules' (.ofRules rules') k = some a')

include ha ha'

theorem decisionAt? (key : DecisionKey) : a'.decisionAt? (key.rename σ) = a.decisionAt? key := by
  have hOwner : ∀ rules id site key d,
      Analysis.decisionOf? v rules k (id, site) = some (key, d) → key.rule = id := by
    intro rules id site key d hEntry
    obtain ⟨_, -, hEq⟩ := Option.map_eq_some_iff.mp hEntry
    cases hEq
    rfl
  rw [Analysis.decisionAt?, Analysis.decisionAt?, (Analysis.tables_of_ofRules? ha).1,
    (Analysis.tables_of_ofRules? ha').1]
  refine h.lookup (DecisionKey.rename_injective σ.injective) (hOwner rules) (hOwner rules')
    (fun _ => rfl) (fun r site => ?_) key
  rw [Analysis.decisionOf?, Analysis.decisionOf?, h.decision?, Option.map_map]
  refine congrArg (Option.map · _) (funext fun d => ?_)
  simp [Analysis.key, Site.rename, DecisionKey.rename]

theorem terminalFollow (site : TerminalSite) :
    a'.terminalFollows.lookup (site.rename σ) = a.terminalFollows.lookup site := by
  have hOwner : ∀ fs id site key set,
      Analysis.terminalFollow? fs v (id, site) = some (key, set) → key.rule = id := by
    rintro fs id ⟨p, after⟩ key set hEntry
    cases p with
    | terminal =>
      cases hEntry
      rfl
    | nonTerminal | option | repetition | alternation => cases hEntry
  rw [(Analysis.tables_of_ofRules? ha).2.1, (Analysis.tables_of_ofRules? ha').2.1]
  refine h.lookup (TerminalSite.rename_injective σ.injective) (hOwner _) (hOwner _) (fun _ => rfl)
    (fun r site => ?_) site
  obtain ⟨p, after⟩ := site
  cases p with
  | terminal =>
    simp [Site.rename, Production.rename, Analysis.terminalFollow?, h.follow, TerminalSite.rename]
  | nonTerminal | option | repetition | alternation =>
    simp [Site.rename, Production.rename, Analysis.terminalFollow?]

theorem callFollow (site : CallSite) :
    a'.callFollows.lookup (site.rename σ) = a.callFollows.lookup site := by
  have hOwner : ∀ fs id site key set,
      Analysis.callFollow? fs v (id, site) = some (key, set) → key.caller = id := by
    rintro fs id ⟨p, after⟩ key set hEntry
    cases p with
    | nonTerminal name target =>
      cases target with
      | none => cases hEntry
      | some target =>
        cases hEntry
        rfl
    | terminal | option | repetition | alternation => cases hEntry
  rw [(Analysis.tables_of_ofRules? ha).2.2.1, (Analysis.tables_of_ofRules? ha').2.2.1]
  refine h.lookup (CallSite.rename_injective σ.injective) (hOwner _) (hOwner _) (fun _ => rfl)
    (fun r site => ?_) site
  obtain ⟨p, after⟩ := site
  cases p with
  | nonTerminal name target =>
    cases target with
    | none => simp [Site.rename, Production.rename, Analysis.callFollow?]
    | some target =>
      simp [Site.rename, Production.rename, Analysis.callFollow?, h.follow, CallSite.rename]
  | terminal | option | repetition | alternation =>
    simp [Site.rename, Production.rename, Analysis.callFollow?]

theorem repetitionExit (key : DecisionKey) :
    a'.repetitionExits.lookup (key.rename σ) = a.repetitionExits.lookup key := by
  have hOwner : ∀ fs id site key set,
      Analysis.repetitionExit? fs v (id, site) = some (key, set) → key.rule = id := by
    rintro fs id ⟨p, after⟩ key set hEntry
    cases p with
    | repetition =>
      cases hEntry
      rfl
    | terminal | nonTerminal | option | alternation => cases hEntry
  rw [(Analysis.tables_of_ofRules? ha).2.2.2, (Analysis.tables_of_ofRules? ha').2.2.2]
  refine h.lookup (DecisionKey.rename_injective σ.injective) (hOwner _) (hOwner _) (fun _ => rfl)
    (fun r site => ?_) key
  obtain ⟨p, after⟩ := site
  cases p with
  | repetition mandatory separator definition occurrence =>
    simp [Site.rename, Production.rename, Analysis.repetitionExit?, h.follow, Analysis.key,
      DecisionKey.rename, Production.kind, Production.occurrence]
  | terminal | nonTerminal | option | alternation =>
    simp [Site.rename, Production.rename, Analysis.repetitionExit?]

/-! ## Ambiguities -/

theorem alternationErrors (id : RuleId) (r : Rule) (branches : List (Alternative Production))
    (occurrence : Nat) :
    Ambiguity.alternationErrors v (.ofRules rules') a' (σ id) (r.rename σ)
        (Production.renameBranches σ branches) occurrence =
      Ambiguity.alternationErrors v (.ofRules rules) a id r branches occurrence := by
  have hEmpty : Ambiguity.emptyBranches (.ofRules rules') (r.rename σ)
      (Production.renameBranches σ branches) occurrence =
        Ambiguity.emptyBranches (.ofRules rules) r branches occurrence := by
    rw [Ambiguity.emptyBranches, Ambiguity.emptyBranches, Production.renameBranches_eq_map,
      List.zipIdx_map, List.filterMap_map, List.length_map]
    refine congrArg (fun f => List.filterMap f branches.zipIdx) (funext ?_)
    rintro ⟨b, index⟩
    simp [Production.renameBranch, h.nullableAll, Rule.rename]
  have hChecked : ∀ paths, Ambiguity.checkedPaths (Production.renameBranches σ branches) paths =
      Ambiguity.checkedPaths branches paths := by
    intro paths
    rw [Ambiguity.checkedPaths, Ambiguity.checkedPaths, Production.renameBranches_eq_map]
    refine congrArg (fun f => List.filterMap f paths.zipIdx) (funext ?_)
    rintro ⟨ps, index⟩
    simp only [List.getElem?_map]
    cases branches[index]? with
    | none => rfl
    | some b => rfl
  have hDecision : a'.decisionAt? ⟨σ id, .or, occurrence⟩ = a.decisionAt? ⟨id, .or, occurrence⟩ :=
    h.decisionAt? ha ha' ⟨id, .or, occurrence⟩
  rw [Ambiguity.alternationErrors, Ambiguity.alternationErrors, hEmpty, hDecision]
  cases a.decisionAt? ⟨id, .or, occurrence⟩ with
  | none => rfl
  | some d =>
    simp only [hChecked]
    rfl

theorem ambiguities_eq_nil : Ambiguity.errors v rules' (.ofRules rules') a' = [] ↔
    Ambiguity.errors v rules (.ofRules rules) a = [] := by
  rw [Ambiguity.errors_eq_nil, Ambiguity.errors_eq_nil]
  constructor
  · intro hNone id r hr branches occurrence hNode
    rw [← h.alternationErrors ha ha']
    refine hNone (σ id) (r.rename σ) ?_ _ occurrence ?_
    · rw [h.place, hr, Option.map_some]
    · rw [Rule.nodes_rename]
      refine List.mem_map.mpr ⟨_, hNode, ?_⟩
      rw [Production.rename]
  · intro hNone id' r' hr' branches' occurrence hNode'
    obtain ⟨id, rfl⟩ := σ.surjective id'
    rw [h.place] at hr'
    obtain ⟨r, hr, rfl⟩ := Option.map_eq_some_iff.mp hr'
    rw [Rule.nodes_rename] at hNode'
    obtain ⟨p, hNode, hRenamed⟩ := List.mem_map.mp hNode'
    cases p with
    | alternation branches =>
      rw [Production.rename] at hRenamed
      cases hRenamed
      rw [h.alternationErrors ha ha']
      exact hNone id r hr branches _ hNode
    | terminal | nonTerminal | option | repetition =>
      rw [Production.rename] at hRenamed
      cases hRenamed

end Tables

theorem exists_ofRules? {v : Vocabulary} {k : Nat} {a : Analysis} {fs fs' : FirstSets}
    (ha : Analysis.ofRules? v rules fs k = some a) :
    ∃ a', Analysis.ofRules? v rules' fs' k = some a' := by
  refine exists_bind_mapM ?_ fun decisions => ⟨_, rfl⟩
  rintro ⟨id', site'⟩ hSite'
  obtain ⟨id, rfl⟩ := σ.surjective id'
  obtain ⟨r', hr', hSite'⟩ := Analysis.mem_sites.mp hSite'
  rw [h.place] at hr'
  obtain ⟨r, hr, rfl⟩ := Option.map_eq_some_iff.mp hr'
  rw [Site.ofRule_rename] at hSite'
  obtain ⟨site, hSite, rfl⟩ := List.mem_map.mp hSite'
  obtain ⟨d?, hDecision⟩ :=
    Analysis.exists_decision_of_ofRules? ha (Analysis.mem_sites.mpr ⟨r, hr, hSite⟩)
  exact ⟨_, Option.map_eq_some_iff.mpr ⟨d?, (h.decision? v k site).trans hDecision, rfl⟩⟩

end IsReordering

end PredictiveParsing
