import Mathlib.Logic.Equiv.Basic
import PredictiveParsing.Proofs.Grammar.ReorderedTables

/-!
# Declaring rules in another order

If rules have names of their own, a name leads to the same rule in any order of the declarations,
and resolving gives the same rules in the other order. What compiles in one order compiles in any.
-/

namespace PredictiveParsing

/-! ## Places -/

def behindFirst (σ : Equiv.Perm Nat) : Equiv.Perm Nat where
  toFun
    | 0 => 0
    | n + 1 => σ n + 1
  invFun
    | 0 => 0
    | n + 1 => σ.symm n + 1
  left_inv n := by
    cases n with
    | zero => rfl
    | succ n => exact congrArg (· + 1) (σ.symm_apply_apply n)
  right_inv n := by
    cases n with
    | zero => rfl
    | succ n => exact congrArg (· + 1) (σ.apply_symm_apply n)

theorem exists_places {β : Type} {xs ys : List β} (h : xs.Perm ys) :
    ∃ σ : Equiv.Perm Nat, ∀ n, ys[σ n]? = xs[n]? := by
  induction h with
  | nil => exact ⟨Equiv.refl Nat, fun _ => rfl⟩
  | cons x _ ih =>
    obtain ⟨σ, hPlaces⟩ := ih
    refine ⟨behindFirst σ, fun n => ?_⟩
    cases n with
    | zero => rfl
    | succ n => exact hPlaces n
  | swap x y xs =>
    refine ⟨Equiv.swap 0 1, fun n => ?_⟩
    match n with
    | 0 => rfl
    | 1 => rfl
    | n + 2 =>
      rw [Equiv.swap_apply_of_ne_of_ne (by omega) (by omega)]
      rfl
  | trans _ _ ih ih' =>
    obtain ⟨σ, hPlaces⟩ := ih
    obtain ⟨τ, hPlaces'⟩ := ih'
    exact ⟨σ.trans τ, fun n => (hPlaces' (σ n)).trans (hPlaces n)⟩

/-! ## Names -/

section Names

variable {rules rules' : List Rule} {v : Vocabulary}

theorem ruleNamed?_eq_some (hNames : (rules.map (·.name)).Nodup) {name : String} {id : RuleId} :
    ruleNamed? rules name = some id ↔ ∃ r, rules[id]? = some r ∧ r.name = name := by
  rw [ruleNamed?, List.findIdx?_eq_some_iff_getElem]
  constructor
  · rintro ⟨hLt, hName, -⟩
    exact ⟨rules[id], List.getElem?_eq_getElem hLt, beq_iff_eq.mp hName⟩
  · rintro ⟨r, hr, rfl⟩
    obtain ⟨hLt, rfl⟩ := List.getElem?_eq_some_iff.mp hr
    -- An earlier rule of this name would be at the same place.
    refine ⟨hLt, beq_self_eq_true _, fun j hj hSame => Nat.ne_of_gt hj ?_⟩
    have hLt' : id < (rules.map (·.name)).length := by rwa [List.length_map]
    refine (List.getElem?_inj hLt' hNames).mp ?_
    rw [List.getElem?_map, List.getElem?_map, List.getElem?_eq_getElem hLt,
      List.getElem?_eq_getElem (Nat.lt_trans hj hLt), Option.map_some, Option.map_some,
      beq_iff_eq.mp hSame]

theorem ruleNamed?_eq_none {name : String} :
    ruleNamed? rules name = none ↔ ∀ r ∈ rules, r.name ≠ name := by
  simp [ruleNamed?, List.findIdx?_eq_none_iff]

theorem ruleNamed?_of_places {σ : Equiv.Perm RuleId} (hPlaces : ∀ id, rules'[σ id]? = rules[id]?)
    (hNames : (rules.map (·.name)).Nodup) (hNames' : (rules'.map (·.name)).Nodup)
    (name : String) : ruleNamed? rules' name = (ruleNamed? rules name).map σ := by
  ext id'
  obtain ⟨id, rfl⟩ := σ.surjective id'
  rw [ruleNamed?_eq_some hNames', hPlaces, ← ruleNamed?_eq_some hNames]
  simp

namespace Names

theorem clashesFrom_eq_nil {seen : List String} : clashesFrom v seen rules = [] ↔
    (rules.map (·.name)).Nodup ∧ ∀ r ∈ rules, r.name ∉ seen ∧ v.lookup? r.name = none := by
  induction rules generalizing seen with
  | nil => simp [clashesFrom]
  | cons r rules ih =>
    have hSeen : (if seen.contains r.name then [DefinitionError.duplicateRule r.name]
        else []) = [] ↔ r.name ∉ seen := by simp
    have hToken : (if (v.lookup? r.name).isSome then [DefinitionError.nameCollision r.name]
        else []) = [] ↔ v.lookup? r.name = none := by simp
    rw [clashesFrom, List.append_eq_nil_iff, List.append_eq_nil_iff, ih, hSeen, hToken,
      List.map_cons, List.nodup_cons, List.forall_mem_cons]
    constructor
    · rintro ⟨⟨hNew, hFree⟩, hRest, hOther⟩
      refine ⟨⟨fun hName => ?_, hRest⟩, ⟨hNew, hFree⟩, fun r' hr' => ?_⟩
      · obtain ⟨r', hr', hSame⟩ := List.mem_map.mp hName
        exact (hOther r' hr').1 (hSame ▸ List.mem_cons_self)
      · exact ⟨fun hSeen => (hOther r' hr').1 (List.mem_cons_of_mem _ hSeen), (hOther r' hr').2⟩
    · rintro ⟨⟨hName, hRest⟩, ⟨hNew, hFree⟩, hOther⟩
      refine ⟨⟨hNew, hFree⟩, hRest, fun r' hr' => ⟨fun hSeen => ?_, (hOther r' hr').2⟩⟩
      rcases List.mem_cons.mp hSeen with hSame | hSeen
      · exact hName (List.mem_map.mpr ⟨r', hr', hSame⟩)
      · exact (hOther r' hr').1 hSeen

theorem clashes_eq_nil : clashes v rules = [] ↔
    (rules.map (·.name)).Nodup ∧ ∀ r ∈ rules, v.lookup? r.name = none := by
  simp [clashes, clashesFrom_eq_nil]

theorem unresolved_eq_nil : unresolved rules = [] ↔
    ∀ r ∈ rules, ∀ name ∈ referenced r, ∃ r' ∈ rules, r'.name = name := by
  rw [unresolved, List.flatMap_eq_nil_iff]
  refine forall_congr' fun r => imp_congr_right fun _ => ?_
  rw [List.map_eq_nil_iff, List.filter_eq_nil_iff]
  refine forall_congr' fun name => imp_congr_right fun _ => ?_
  rw [Option.isNone_iff_eq_none, ruleNamed?_eq_none]
  simp

end Names

end Names

namespace Grammar

variable {α : Type} {v : Vocabulary} {bodies bodies' : List (RuleBody α)}

theorem recordingErrors_perm (hPerm : bodies.Perm bodies') (h : recordingErrors v bodies = []) :
    recordingErrors v bodies' = [] := by
  have hRecorded := hPerm.map RuleBody.record
  obtain ⟨hBefore, hResolved⟩ := List.append_eq_nil_iff.mp h
  obtain ⟨hOccurrences, hDistinct⟩ := List.append_eq_nil_iff.mp hBefore
  obtain ⟨hNames, hFree⟩ := Names.clashes_eq_nil.mp hDistinct
  refine List.append_eq_nil_iff.mpr ⟨List.append_eq_nil_iff.mpr ⟨?_, ?_⟩, ?_⟩
  · refine List.flatMap_eq_nil_iff.mpr fun r hr => ?_
    exact List.flatMap_eq_nil_iff.mp hOccurrences r (hPerm.mem_iff.mpr hr)
  · refine Names.clashes_eq_nil.mpr ⟨(hRecorded.map (·.name)).nodup_iff.mp hNames, fun r hr => ?_⟩
    exact hFree r (hRecorded.mem_iff.mpr hr)
  · refine Names.unresolved_eq_nil.mpr fun r hr name hName => ?_
    obtain ⟨r', hr', hSame⟩ :=
      Names.unresolved_eq_nil.mp hResolved r (hRecorded.mem_iff.mpr hr) name hName
    exact ⟨r', hRecorded.mem_iff.mp hr', hSame⟩

end Grammar

theorem isReordering_resolve {σ : Equiv.Perm RuleId} {rules rules' : List Rule}
    (hPerm : rules.Perm rules') (hPlaces : ∀ id, rules'[σ id]? = rules[id]?)
    (hNames : (rules.map (·.name)).Nodup) :
    IsReordering σ (Names.resolve rules) (Names.resolve rules') := by
  have hNamed := ruleNamed?_of_places hPlaces hNames ((hPerm.map (·.name)).nodup_iff.mp hNames)
  have hResolved : ∀ r : Rule,
      Rule.rename σ { r with definition := Production.resolveAll (ruleNamed? rules) r.definition } =
        { r with definition := Production.resolveAll (ruleNamed? rules') r.definition } := by
    intro r
    rw [Production.resolveAll_renameAll hNamed]
    rfl
  constructor
  · intro id
    rw [Names.resolve, Names.resolve, List.getElem?_map, List.getElem?_map, hPlaces,
      Option.map_map]
    exact congrArg (Option.map · _) (funext fun r => (hResolved r).symm)
  · rw [Names.resolve, Names.resolve, List.map_map]
    exact (List.Perm.of_eq (List.map_congr_left fun r _ => hResolved r)).trans (hPerm.map _)

namespace Grammar

variable {α : Type} {v : Vocabulary} {bodies bodies' : List (RuleBody α)} {config : ParserConfig}
  {g : Grammar α}

theorem IsCompiled.names_nodup (h : g.IsCompiled bodies) :
    ((bodies.map RuleBody.record).map (·.name)).Nodup := by
  have hDistinct := (List.append_eq_nil_iff.mp (List.append_eq_nil_iff.mp h.named).1).2
  exact (Names.clashes_eq_nil.mp hDistinct).1

theorem IsCompiled.exists_reordering (h : g.IsCompiled bodies) (hPerm : bodies.Perm bodies') :
    ∃ σ : Equiv.Perm RuleId, (∀ id, bodies'[σ id]? = bodies[id]?) ∧
      IsReordering σ g.rules (Names.resolve (bodies'.map RuleBody.record)) := by
  obtain ⟨σ, hPlaces⟩ := exists_places hPerm
  refine ⟨σ, hPlaces, ?_⟩
  rw [h.rules]
  refine isReordering_resolve (hPerm.map _) (fun id => ?_) h.names_nodup
  rw [List.getElem?_map, List.getElem?_map, hPlaces]

theorem exists_compile_of_perm (hPerm : bodies.Perm bodies')
    (h : compile v bodies config = .ok g) : ∃ g', compile v bodies' config = .ok g' := by
  obtain ⟨hCompiled, rfl, rfl⟩ := compile_ok h
  obtain ⟨σ, -, hReordering⟩ := hCompiled.exists_reordering hPerm
  obtain ⟨analysis, hAnalysis⟩ := hReordering.exists_ofRules? hCompiled.analysed
  have hCompiled' : IsCompiled
      { vocabulary := g.vocabulary, config := g.config
        rules := Names.resolve (bodies'.map RuleBody.record), bodies := bodies'.map (·.body)
        analysis, warnings := [] } bodies' :=
    { rules := rfl
      bodies := rfl
      named := recordingErrors_perm hPerm hCompiled.named
      sound := (hReordering.errors_eq_nil g.vocabulary).mpr hCompiled.sound
      analysed := hAnalysis
      unambiguous := fun hStrict => (hReordering.ambiguities_eq_nil hCompiled.analysed
        hAnalysis).mpr (hCompiled.unambiguous hStrict) }
  have hAccepted := compile_of_isCompiled hCompiled'
  exact ⟨_, hAccepted⟩

end Grammar

end PredictiveParsing
