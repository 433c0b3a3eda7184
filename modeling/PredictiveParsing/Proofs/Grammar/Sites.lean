import PredictiveParsing.Proofs.Grammar.Compiled
import PredictiveParsing.Proofs.Grammar.FirstSets
import PredictiveParsing.Proofs.Traversal

/-!
# Places of a grammar

In a compiled grammar the tables of the analysis hold, under the key of a place, what was computed
for that place: no two places of a rule have the same key.
-/

namespace PredictiveParsing

namespace Site

variable {fs : FirstSets} {site : Site}

mutual

theorem map_production_within (after : Continuation) (p : Production) :
    (within after p).map (·.production) = p.nodes := by
  cases p with
  | terminal token occurrence => rfl
  | nonTerminal name target occurrence => rfl
  | option definition occurrence =>
    rw [within, List.map_cons, map_production_along, Production.nodes]
  | repetition mandatory separator definition occurrence =>
    rw [within, List.map_cons, map_production_along, Production.nodes]
  | alternation alternatives occurrence =>
    rw [within, List.map_cons, map_production_amongBranches, Production.nodes]

theorem map_production_along (after : Continuation) (ps : List Production) :
    (along after ps).map (·.production) = Production.nodesOf ps := by
  cases ps with
  | nil => simp [along, Production.nodesOf]
  | cons p ps =>
    rw [along, List.map_append, map_production_within, map_production_along, Production.nodesOf]

theorem map_production_amongBranches (after : Continuation)
    (branches : List (Alternative Production)) :
    (amongBranches after branches).map (·.production) = Production.nodesOfBranches branches := by
  cases branches with
  | nil => simp [amongBranches, Production.nodesOfBranches]
  | cons branch rest =>
    rw [amongBranches, List.map_append, map_production_along, map_production_amongBranches,
      Production.nodesOfBranches]

end

theorem mem_amongBranches {after : Continuation} {branches : List (Alternative Production)}
    {branch : Alternative Production} (hBranch : branch ∈ branches)
    (hSite : site ∈ along after branch.definition) : site ∈ amongBranches after branches := by
  induction branches with
  | nil => cases hBranch
  | cons other rest ih =>
    rcases List.mem_cons.mp hBranch with rfl | hBranch
    · exact List.mem_append_left _ hSite
    · exact List.mem_append_right _ (ih hBranch)

end Site

namespace Structure

variable {v : Vocabulary} {rules : List Rule}

theorem areSolid_of_errors (h : errors v rules (.ofRules rules) = []) : AreSolid rules := by
  intro r hr p hp
  have hRule := List.flatMap_eq_nil_iff.mp (List.append_eq_nil_iff.mp h).2 r hr
  have hShape := (List.append_eq_nil_iff.mp hRule).2
  rw [shapeErrors, List.filterMap_eq_nil_iff] at hShape
  have hNone := hShape p hp
  cases p with
  | repetition mandatory separator definition occurrence =>
    simp only at hNone
    split at hNone
    · cases hNone
    · next hFull => exact Bool.eq_false_iff.mpr hFull
  | terminal | nonTerminal | option | alternation => trivial

theorem nodup_of_duplicatesFrom {ks seen : List OccurrenceKey} (hSeen : seen.Nodup)
    (h : duplicatesFrom seen ks = []) : ks.Nodup ∧ ∀ k ∈ ks, k ∉ seen := by
  induction ks generalizing seen with
  | nil => simp
  | cons k ks ih =>
    obtain ⟨hFirst, hRest⟩ := List.append_eq_nil_iff.mp h
    have hNew : k ∉ seen := by
      intro hk
      rw [if_pos (List.count_eq_one_of_mem hSeen hk)] at hFirst
      cases hFirst
    obtain ⟨hNodup, hOther⟩ := ih (List.nodup_cons.mpr ⟨hNew, hSeen⟩) hRest
    refine ⟨List.nodup_cons.mpr ⟨fun hk => hOther k hk List.mem_cons_self, hNodup⟩, ?_⟩
    intro k' hk'
    rcases List.mem_cons.mp hk' with rfl | hk'
    · exact hNew
    · exact fun hSeen => hOther k' hk' (List.mem_cons_of_mem _ hSeen)

theorem nodup_keys_of_errors (h : errors v rules (.ofRules rules) = []) {r : Rule} (hr : r ∈ rules) :
    ((Site.ofRule r).map fun site => OccurrenceKey.of v site.production).Nodup := by
  have hRule := List.flatMap_eq_nil_iff.mp (List.append_eq_nil_iff.mp h).2 r hr
  have hKeys := List.map_eq_nil_iff.mp (List.append_eq_nil_iff.mp hRule).1
  have hNodup := (nodup_of_duplicatesFrom List.nodup_nil hKeys).1
  rwa [Rule.nodes, ← Site.map_production_along [], List.map_map] at hNodup

end Structure

namespace Production

variable {find? : String → Option RuleId}

mutual

theorem nodes_resolve (p : Production) :
    nodes (resolve find? p) = (nodes p).map (resolve find?) := by
  cases p with
  | terminal token occurrence => simp [resolve, nodes]
  | nonTerminal name target occurrence => simp [resolve, nodes]
  | option definition occurrence =>
    simp [resolve, nodes, nodesOf_resolveAll definition]
  | repetition mandatory separator definition occurrence =>
    simp [resolve, nodes, nodesOf_resolveAll definition]
  | alternation alternatives occurrence =>
    simp [resolve, nodes, nodesOf_resolveBranches alternatives]

theorem nodesOf_resolveAll (ps : List Production) :
    nodesOf (resolveAll find? ps) = (nodesOf ps).map (resolve find?) := by
  cases ps with
  | nil => simp [resolveAll, nodesOf]
  | cons p ps => simp [resolveAll, nodesOf, nodes_resolve p, nodesOf_resolveAll ps]

theorem nodesOf_resolveBranches (branches : List (Alternative Production)) :
    nodesOfBranches (resolveBranches find? branches) =
      (nodesOfBranches branches).map (resolve find?) := by
  cases branches with
  | nil => simp [resolveBranches, nodesOfBranches]
  | cons branch rest =>
    simp [resolveBranches, nodesOfBranches, nodesOf_resolveAll branch.definition,
      nodesOf_resolveBranches rest]

end

end Production

namespace Grammar

variable {α : Type} {g : Grammar α} {sources : List (RuleBody α)}

theorem target_of_named {v : Vocabulary} (h : recordingErrors v sources = []) {r : Rule}
    (hr : r ∈ Names.resolve (sources.map RuleBody.record)) {name : String} {target : Option RuleId}
    {occurrence : Nat} (hNode : .nonTerminal name target occurrence ∈ r.nodes) :
    ∃ id, target = some id ∧
      PredictiveParsing.ruleNamed? (sources.map RuleBody.record) name = some id := by
  have hUnresolved := (List.append_eq_nil_iff.mp h).2
  rw [Names.resolve] at hr
  obtain ⟨recorded, hRecorded, rfl⟩ := List.mem_map.mp hr
  rw [Rule.nodes, Production.nodesOf_resolveAll] at hNode
  obtain ⟨q, hq, hResolve⟩ := List.mem_map.mp hNode
  cases q with
  | nonTerminal name' target' occurrence' =>
    rw [Production.resolve] at hResolve
    cases hResolve
    have hNone := List.map_eq_nil_iff.mp
      (List.flatMap_eq_nil_iff.mp hUnresolved recorded hRecorded)
    have hFound := List.filter_eq_nil_iff.mp hNone name
      (List.mem_append_left _ (List.mem_filterMap.mpr ⟨_, hq, rfl⟩))
    cases hId : PredictiveParsing.ruleNamed? (sources.map RuleBody.record) name with
    | none => simp [hId] at hFound
    | some id => exact ⟨id, rfl, rfl⟩
  | terminal | option | repetition | alternation =>
    rw [Production.resolve] at hResolve
    cases hResolve

theorem IsCompiled.target (h : g.IsCompiled sources) {r : Rule} (hr : r ∈ g.rules) {name : String}
    {target : Option RuleId} {occurrence : Nat}
    (hNode : .nonTerminal name target occurrence ∈ r.nodes) :
    ∃ id, target = some id ∧ g.ruleNamed? name = some id := by
  rw [h.rules] at hr
  rw [Grammar.ruleNamed?, h.rules, ruleNamed?_resolve]
  exact target_of_named h.named hr hNode

end Grammar

/-! ## Looking up places -/

theorem lookup_eq_some {κ β : Type} [BEq κ] [LawfulBEq κ] {entries : List (κ × β)} {k : κ} {b : β}
    (hKeys : (entries.map Prod.fst).Nodup) (h : (k, b) ∈ entries) : entries.lookup k = some b := by
  induction entries with
  | nil => cases h
  | cons entry entries ih =>
    obtain ⟨k', b'⟩ := entry
    obtain ⟨hFirst, hRest⟩ := List.nodup_cons.mp hKeys
    rcases List.mem_cons.mp h with hEq | hLater
    · cases hEq
      exact List.lookup_cons_self
    · have hOther : k ≠ k' := by
        rintro rfl
        exact hFirst (List.mem_map.mpr ⟨_, hLater, rfl⟩)
      rw [List.lookup_cons, beq_false_of_ne hOther]
      exact ih hRest hLater

theorem ProductionKind.ofRepetition_ne (mandatory : Bool) (separator : Option TypeId) :
    ofRepetition mandatory separator ≠ .consume ∧ ofRepetition mandatory separator ≠ .subrule := by
  cases mandatory <;> cases separator <;> exact ⟨nofun, nofun⟩

namespace Structure.OccurrenceKey

theorem of_eq {v : Vocabulary} {p q : Production} (hKind : p.kind = q.kind)
    (hOccurrence : p.occurrence = q.occurrence) (hToken : p.kind ≠ .consume)
    (hRule : p.kind ≠ .subrule) : of v p = of v q := by
  have hNone : ∀ {p : Production}, p.kind ≠ .consume → p.kind ≠ .subrule →
      of v p = ⟨p.kind, none, p.occurrence⟩ := by
    intro p hToken hRule
    cases p with
    | terminal => exact absurd rfl hToken
    | nonTerminal => exact absurd rfl hRule
    | option | repetition | alternation => rfl
  rw [hNone hToken hRule, hNone (hKind ▸ hToken) (hKind ▸ hRule), hKind, hOccurrence]

end Structure.OccurrenceKey

namespace Analysis

variable {v : Vocabulary} {rules : List Rule} {fs : FirstSets} {k : Nat} {a : Analysis}

theorem mem_sites {id : RuleId} {site : Site} :
    (id, site) ∈ sites rules ↔ ∃ r, rules[id]? = some r ∧ site ∈ Site.ofRule r := by
  simp only [sites, List.mem_flatMap, List.mem_map]
  constructor
  · rintro ⟨⟨r, id'⟩, hr, site', hSite, hEq⟩
    cases hEq
    exact ⟨r, List.mk_mem_zipIdx_iff_getElem?.mp hr, hSite⟩
  · rintro ⟨r, hr, hSite⟩
    exact ⟨(r, id), List.mk_mem_zipIdx_iff_getElem?.mpr hr, site, hSite, rfl⟩

theorem mem_nodes_of_site {id : RuleId} {site : Site} (h : (id, site) ∈ sites rules) :
    ∃ r, rules[id]? = some r ∧ site.production ∈ r.nodes := by
  obtain ⟨r, hr, hSite⟩ := mem_sites.mp h
  refine ⟨r, hr, ?_⟩
  rw [Rule.nodes, ← Site.map_production_along []]
  exact List.mem_map_of_mem (f := fun site : Site => site.production) hSite

def decisionOf? (v : Vocabulary) (rules : List Rule) (k : Nat) :
    RuleId × Site → Option (DecisionKey × Decision)
  | (rule, site) => ((decision? v rules k site).join).map fun d => (key rule site.production, d)

theorem tables_of_ofRules? (h : ofRules? v rules fs k = some a) :
    a.decisions = (sites rules).filterMap (decisionOf? v rules k) ∧
      a.terminalFollows = (sites rules).filterMap (terminalFollow? fs v) ∧
      a.callFollows = (sites rules).filterMap (callFollow? fs v) ∧
      a.repetitionExits = (sites rules).filterMap (repetitionExit? fs v) := by
  simp only [ofRules?, Option.bind_eq_bind, Option.bind_eq_some_iff] at h
  obtain ⟨decisions, hDecisions, hEq⟩ := h
  cases hEq
  refine ⟨?_, rfl, rfl, rfl⟩
  rw [filterMap_of_mapM hDecisions]
  refine congrArg (fun f => (sites rules).filterMap f) (funext ?_)
  rintro ⟨rule, site⟩
  rw [decisionOf?]
  cases decision? v rules k site with
  | none => rfl
  | some d? => rfl

theorem exists_decision_of_ofRules? (h : ofRules? v rules fs k = some a) {id : RuleId} {site : Site}
    (hSite : (id, site) ∈ sites rules) : ∃ d?, decision? v rules k site = some d? := by
  simp only [ofRules?, Option.bind_eq_bind, Option.bind_eq_some_iff] at h
  obtain ⟨decisions, hDecisions, -⟩ := h
  obtain ⟨_, -, hEntry⟩ := (mem_of_mapM hDecisions).1 _ hSite
  obtain ⟨d?, hDecision, -⟩ := Option.map_eq_some_iff.mp hEntry
  exact ⟨d?, hDecision⟩

def placeKey (v : Vocabulary) (place : RuleId × Site) : RuleId × Structure.OccurrenceKey :=
  (place.1, .of v place.2.production)

theorem placeKey_eq {r r' : RuleId} {site site' : Site}
    (hKey : key r site.production = key r' site'.production)
    (hToken : site.production.kind ≠ .consume) (hRule : site.production.kind ≠ .subrule) :
    placeKey v (r, site) = placeKey v (r', site') := by
  simp only [key, DecisionKey.mk.injEq] at hKey
  exact Prod.ext hKey.1 (Structure.OccurrenceKey.of_eq hKey.2.1 hKey.2.2 hToken hRule)

theorem kind_of_decision? {site : Site} {d : Decision}
    (h : decision? v rules k site = some (some d)) :
    site.production.kind ≠ .consume ∧ site.production.kind ≠ .subrule := by
  obtain ⟨p, after⟩ := site
  cases p with
  | terminal | nonTerminal => cases h
  | option | alternation => exact ⟨nofun, nofun⟩
  | repetition mandatory separator definition occurrence =>
    exact ProductionKind.ofRepetition_ne mandatory separator

theorem nodup_placeKeys (h : Structure.errors v rules (.ofRules rules) = []) :
    ((sites rules).map (placeKey v)).Nodup := by
  rw [sites, List.map_flatMap, List.nodup_flatMap]
  constructor
  · rintro ⟨r, id⟩ hr
    have hKeys := Structure.nodup_keys_of_errors h (List.mem_of_getElem?
      (List.mk_mem_zipIdx_iff_getElem?.mp hr))
    rw [List.map_map]
    exact List.Nodup.of_map Prod.snd (by rwa [List.map_map])
  · have hIds : (rules.zipIdx.map Prod.snd).Nodup := by
      rw [List.zipIdx_map_snd]
      exact List.nodup_range'
    rw [List.Nodup, List.pairwise_map] at hIds
    refine hIds.imp fun {x y} hOther => List.disjoint_left.mpr fun key hx hy => hOther ?_
    simp only [List.map_map, List.mem_map] at hx hy
    obtain ⟨_, -, rfl⟩ := hx
    obtain ⟨_, -, hEq⟩ := hy
    exact (congrArg Prod.fst hEq).symm

theorem nodup_table (h : Structure.errors v rules (.ofRules rules) = []) {κ β : Type}
    {entryOf? : RuleId × Site → Option (κ × β)}
    (hKeys : ∀ {place place' k b b'}, place ∈ sites rules → place' ∈ sites rules →
      entryOf? place = some (k, b) → entryOf? place' = some (k, b') →
        placeKey v place = placeKey v place') :
    (((sites rules).filterMap entryOf?).map Prod.fst).Nodup := by
  have hPlaces := nodup_placeKeys h
  rw [List.Nodup, List.pairwise_map] at hPlaces ⊢
  rw [List.pairwise_filterMap]
  refine hPlaces.imp_of_mem fun hPlace hPlace' hOther => ?_
  rintro ⟨k, b⟩ hEntry ⟨k', b'⟩ hEntry' rfl
  exact hOther (hKeys hPlace hPlace' hEntry hEntry')

end Analysis

theorem AllRules.inherits_site {P : Production → Prop} {Q : Segment → Prop} {rules : List Rule}
    (h : AllRules P rules) (hQ : Segment.Inherits P Q) {r : RuleId} {site : Site}
    (hSite : (r, site) ∈ Analysis.sites rules) :
    (∀ q ∈ site.production.nodes, P q) ∧ ∀ segment ∈ site.after, Q segment := by
  obtain ⟨rule, hRule, hSite⟩ := Analysis.mem_sites.mp hSite
  exact Site.inherits_along hQ (List.forall_mem_nil _) rule.definition
    (h rule (List.mem_of_getElem? hRule)) site hSite

theorem AllRules.site {P : Production → Prop} {rules : List Rule} (h : AllRules P rules)
    {r : RuleId} {site : Site} (hSite : (r, site) ∈ Analysis.sites rules) :
    (∀ q ∈ site.production.nodes, P q) ∧ Throughout P site.after :=
  h.inherits_site .parts hSite

namespace Grammar.IsCompiled

variable {α : Type} {g : Grammar α} {sources : List (RuleBody α)} (h : g.IsCompiled sources)
  {r id : RuleId} {site site' : Site}

include h

theorem areSolid : AreSolid g.rules := Structure.areSolid_of_errors h.sound

theorem isSolid_after (hSite : (r, site) ∈ Analysis.sites g.rules) :
    IsSolid g.rules site.after := (h.areSolid.site hSite).2

theorem target_of_site {name : String} {target : Option RuleId} {occurrence : Nat}
    {after : Continuation}
    (hSite : (r, ⟨.nonTerminal name target occurrence, after⟩) ∈ Analysis.sites g.rules) :
    ∃ id, target = some id ∧ g.ruleNamed? name = some id := by
  obtain ⟨rule, hRule, hNode⟩ := Analysis.mem_nodes_of_site hSite
  exact h.target (List.mem_of_getElem? hRule) hNode

omit h in
theorem name_eq {name name' : String} (hName : g.ruleNamed? name = some id)
    (hName' : g.ruleNamed? name' = some id) : name = name' :=
  (ruleName_of_ruleNamed? hName).symm.trans (ruleName_of_ruleNamed? hName')

/-! No two places have the same key, so none replaces the entry of another. -/

theorem nodup_terminalFollows : (g.analysis.terminalFollows.map Prod.fst).Nodup := by
  rw [(Analysis.tables_of_ofRules? h.analysed).2.1]
  refine Analysis.nodup_table h.sound ?_
  rintro ⟨r, p, after⟩ ⟨r', p', after'⟩ key b b' - - hEntry hEntry'
  cases p with
  | terminal token occurrence =>
    cases hEntry
    cases p' with
    | terminal token' occurrence' =>
      cases hEntry'
      rfl
    | nonTerminal | option | repetition | alternation => cases hEntry'
  | nonTerminal | option | repetition | alternation => cases hEntry

theorem nodup_callFollows : (g.analysis.callFollows.map Prod.fst).Nodup := by
  rw [(Analysis.tables_of_ofRules? h.analysed).2.2.1]
  refine Analysis.nodup_table h.sound ?_
  rintro ⟨r, p, after⟩ ⟨r', p', after'⟩ key b b' hSite hSite' hEntry hEntry'
  cases p with
  | nonTerminal name target occurrence =>
    obtain ⟨id, rfl, hName⟩ := h.target_of_site hSite
    cases hEntry
    cases p' with
    | nonTerminal name' target' occurrence' =>
      obtain ⟨id', rfl, hName'⟩ := h.target_of_site hSite'
      cases hEntry'
      obtain rfl := name_eq hName hName'
      rfl
    | terminal | option | repetition | alternation => cases hEntry'
  | terminal | option | repetition | alternation => cases hEntry

theorem nodup_repetitionExits : (g.analysis.repetitionExits.map Prod.fst).Nodup := by
  rw [(Analysis.tables_of_ofRules? h.analysed).2.2.2]
  refine Analysis.nodup_table h.sound ?_
  rintro ⟨r, p, after⟩ ⟨r', p', after'⟩ key b b' - - hEntry hEntry'
  cases p with
  | repetition mandatory separator definition occurrence =>
    obtain ⟨hToken, hRule⟩ := ProductionKind.ofRepetition_ne mandatory separator
    cases p' with
    | repetition mandatory' separator' definition' occurrence' =>
      obtain ⟨hKey, -⟩ := Prod.mk.inj (Option.some.inj hEntry)
      obtain ⟨hKey', -⟩ := Prod.mk.inj (Option.some.inj hEntry')
      exact Analysis.placeKey_eq (hKey.trans hKey'.symm) hToken hRule
    | terminal | nonTerminal | option | alternation => cases hEntry'
  | terminal | nonTerminal | option | alternation => cases hEntry

theorem nodup_decisions : (g.analysis.decisions.map Prod.fst).Nodup := by
  rw [(Analysis.tables_of_ofRules? h.analysed).1]
  refine Analysis.nodup_table h.sound ?_
  rintro ⟨r, site⟩ ⟨r', site'⟩ key d d' - - hEntry hEntry'
  obtain ⟨_, hDecision, hEq⟩ := Option.map_eq_some_iff.mp hEntry
  obtain ⟨_, -, hEq'⟩ := Option.map_eq_some_iff.mp hEntry'
  obtain ⟨hToken, hRule⟩ := Analysis.kind_of_decision? (Option.join_eq_some_iff.mp hDecision)
  obtain ⟨hKey, -⟩ := Prod.mk.inj hEq
  obtain ⟨hKey', -⟩ := Prod.mk.inj hEq'
  exact Analysis.placeKey_eq (hKey.trans hKey'.symm) hToken hRule

theorem terminalFollow {token : TypeId} {occurrence : Nat} {after : Continuation}
    (hSite : (r, ⟨.terminal token occurrence, after⟩) ∈ Analysis.sites g.rules) :
    g.analysis.terminalFollows.lookup ⟨r, token, occurrence⟩ =
      some ((FirstSets.ofRules g.rules).follow g.vocabulary after) := by
  refine lookup_eq_some h.nodup_terminalFollows ?_
  rw [(Analysis.tables_of_ofRules? h.analysed).2.1]
  exact List.mem_filterMap.mpr ⟨_, hSite, rfl⟩

theorem callFollow {name : String} {occurrence : Nat} {after : Continuation}
    (hSite : (r, ⟨.nonTerminal name (some id) occurrence, after⟩) ∈ Analysis.sites g.rules) :
    g.analysis.callFollows.lookup ⟨r, id, occurrence⟩ =
      some ((FirstSets.ofRules g.rules).follow g.vocabulary after) := by
  refine lookup_eq_some h.nodup_callFollows ?_
  rw [(Analysis.tables_of_ofRules? h.analysed).2.2.1]
  exact List.mem_filterMap.mpr ⟨_, hSite, rfl⟩

theorem repetitionExit {mandatory : Bool} {separator : Option TypeId}
    {definition : List Production} {occurrence : Nat} {after : Continuation}
    (hSite : (r, ⟨.repetition mandatory separator definition occurrence, after⟩) ∈
      Analysis.sites g.rules) :
    g.analysis.repetitionExits.lookup ⟨r, .ofRepetition mandatory separator, occurrence⟩ =
      some ((FirstSets.ofRules g.rules).follow g.vocabulary after) := by
  refine lookup_eq_some h.nodup_repetitionExits ?_
  rw [(Analysis.tables_of_ofRules? h.analysed).2.2.2]
  exact List.mem_filterMap.mpr ⟨_, hSite, rfl⟩

theorem decisionAt? {d : Decision} (hSite : (r, site) ∈ Analysis.sites g.rules)
    (hDecision : Analysis.decision? g.vocabulary g.rules g.config.maxLookahead site =
      some (some d)) :
    g.analysis.decisionAt? (Analysis.key r site.production) = some d := by
  refine lookup_eq_some h.nodup_decisions ?_
  rw [(Analysis.tables_of_ofRules? h.analysed).1]
  refine List.mem_filterMap.mpr ⟨_, hSite, ?_⟩
  rw [Analysis.decisionOf?, hDecision]
  rfl

end Grammar.IsCompiled

end PredictiveParsing
