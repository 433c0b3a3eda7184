import PredictiveParsing.Proofs.Grammar.Starts

/-!
# Growing paths

Rounds only add to what an alternative has found. So each path of the result begins with one that
the alternative was first expanded to, and a first path that no other alternative shares is kept
as it is.
-/

namespace PredictiveParsing

namespace Lookahead

variable {v : Vocabulary} {rules : List Rule} {k n j : Nat} {f f' : Found} {p : Partial}
  {partials : List (List Partial)} {growing : List Partial} {found found' : List Found}
  {path : Path}

def isFinal (v : Vocabulary) (k : Nat) (partials : List (List Partial)) (index : Nat)
    (p : Partial) : Bool :=
  isUnique v partials index p.path || p.rest.isEmpty || k ≤ p.path.length

theorem isUnique_iff {partials : List (List Partial)} : isUnique v partials j path = true ↔
    ∀ other ps, partials[other]? = some ps → other ≠ j → ∀ q ∈ ps, overlap v path q.path = false := by
  rw [isUnique, List.all_eq_true]
  constructor
  · intro h other ps hPs hOther q hq
    have hAll := h (ps, other) (List.mk_mem_zipIdx_iff_getElem?.mpr hPs)
    rw [Bool.or_eq_true, beq_iff_eq, List.all_eq_true] at hAll
    exact (Bool.not_eq_true' _).mp (hAll.resolve_left hOther q hq)
  · rintro h ⟨ps, other⟩ hPs
    rw [List.mk_mem_zipIdx_iff_getElem?] at hPs
    rw [Bool.or_eq_true, beq_iff_eq, List.all_eq_true]
    refine or_iff_not_imp_left.mpr fun hOther q hq => ?_
    rw [h other ps hPs hOther q hq, Bool.not_false]

def Grows (rules : List Rule) (p q : Partial) : Prop :=
  ∃ longer, expand? rules 1 p.rest = some longer ∧
    ∃ more ∈ longer, { more with path := p.path ++ more.path } = q

/-- What becomes of some paths that an alternative may have to grow. -/
structure Settles (v : Vocabulary) (rules : List Rule) (k : Nat) (partials : List (List Partial))
    (j : Nat) (growing : List Partial) (f f' : Found) : Prop where
  kept : ∀ path ∈ f.paths, path ∈ f'.paths
  final : ∀ p ∈ growing, isFinal v k partials j p = true → p.path ∈ f'.paths
  begun : ∀ path ∈ f'.paths, path ∈ f.paths ∨
    ∃ p ∈ growing, isFinal v k partials j p = true ∧ p.path = path
  waiting : ∀ q ∈ f.growing, q ∈ f'.growing
  grown : ∀ q ∈ f'.growing, q ∈ f.growing ∨
    ∃ p ∈ growing, isFinal v k partials j p = false ∧ Grows rules p q
  grows : ∀ p ∈ growing, isFinal v k partials j p = false →
    ∃ longer, expand? rules 1 p.rest = some longer ∧
      ∀ more ∈ longer, { more with path := p.path ++ more.path } ∈ f'.growing

theorem settle_final (h : isFinal v k partials j p = true) : settle v rules k partials j f p =
    some { f with paths := if f.paths.contains p.path then f.paths else f.paths ++ [p.path] } :=
  if_pos h

theorem settle_open (h : isFinal v k partials j p = false) : settle v rules k partials j f p =
    (expand? rules 1 p.rest).map fun longer =>
      { f with growing :=
        f.growing ++ longer.map fun q => { q with path := p.path ++ q.path } } :=
  if_neg (by rw [← isFinal, h]; exact Bool.false_ne_true)

theorem settles_settle (h : settle v rules k partials j f p = some f') :
    Settles v rules k partials j [p] f f' := by
  cases hFinal : isFinal v k partials j p with
  | true =>
    rw [settle_final hFinal] at h
    cases h
    have hMem : ∀ path, path ∈ (if f.paths.contains p.path then f.paths
        else f.paths ++ [p.path]) ↔ path ∈ f.paths ∨ p.path = path := by
      intro path
      split
      · next hKnown =>
        rw [List.contains_iff_mem] at hKnown
        exact ⟨.inl, fun h => h.elim id fun hSame => hSame ▸ hKnown⟩
      · simp [eq_comm]
    constructor
    · exact fun path hPath => (hMem path).mpr (.inl hPath)
    · exact List.forall_mem_singleton.mpr fun _ => (hMem _).mpr (.inr rfl)
    · exact fun path hPath => ((hMem path).mp hPath).imp_right fun hSame =>
        ⟨p, List.mem_singleton_self p, hFinal, hSame⟩
    · exact fun q hq => hq
    · exact fun q hq => .inl hq
    · exact List.forall_mem_singleton.mpr fun hOpen => by rw [hFinal] at hOpen; cases hOpen
  | false =>
    rw [settle_open hFinal] at h
    obtain ⟨longer, hLonger, rfl⟩ := Option.map_eq_some_iff.mp h
    constructor
    · exact fun path hPath => hPath
    · exact List.forall_mem_singleton.mpr fun hSettled => by rw [hFinal] at hSettled; cases hSettled
    · exact fun path hPath => .inl hPath
    · exact fun q hq => List.mem_append_left _ hq
    · intro q hq
      refine (List.mem_append.mp hq).imp_right fun hq => ?_
      exact ⟨p, List.mem_singleton_self p, hFinal, longer, hLonger, List.mem_map.mp hq⟩
    · exact List.forall_mem_singleton.mpr fun _ => ⟨longer, hLonger, fun more hMore =>
        List.mem_append_right _ (List.mem_map_of_mem hMore)⟩

theorem settles_foldlM (h : growing.foldlM (settle v rules k partials j) f = some f') :
    Settles v rules k partials j growing f f' := by
  induction growing generalizing f with
  | nil =>
    cases h
    exact ⟨fun _ h => h, List.forall_mem_nil _, fun _ h => .inl h, fun _ h => h,
      fun _ h => .inl h, List.forall_mem_nil _⟩
  | cons p growing ih =>
    rw [List.foldlM_cons] at h
    obtain ⟨middle, hFirst, hRest⟩ := Option.bind_eq_some_iff.mp h
    have hOne := settles_settle hFirst
    have hMore := ih hRest
    constructor
    · exact fun path hPath => hMore.kept path (hOne.kept path hPath)
    · refine List.forall_mem_cons.mpr ⟨fun hFinal => ?_, hMore.final⟩
      exact hMore.kept _ (hOne.final p (List.mem_singleton_self p) hFinal)
    · intro path hPath
      rcases hMore.begun path hPath with hPath | ⟨q, hq, hSame⟩
      · exact (hOne.begun path hPath).imp_right fun ⟨q, hq, hSame⟩ =>
          ⟨q, List.mem_singleton.mp hq ▸ List.mem_cons_self, hSame⟩
      · exact .inr ⟨q, List.mem_cons_of_mem _ hq, hSame⟩
    · exact fun q hq => hMore.waiting q (hOne.waiting q hq)
    · intro q hq
      rcases hMore.grown q hq with hq | ⟨r, hr, hGrown⟩
      · exact (hOne.grown q hq).imp_right fun ⟨r, hr, hGrown⟩ =>
          ⟨r, List.mem_singleton.mp hr ▸ List.mem_cons_self, hGrown⟩
      · exact .inr ⟨r, List.mem_cons_of_mem _ hr, hGrown⟩
    · refine List.forall_mem_cons.mpr ⟨fun hOpen => ?_, hMore.grows⟩
      obtain ⟨longer, hLonger, hAll⟩ := hOne.grows p (List.mem_singleton_self p) hOpen
      exact ⟨longer, hLonger, fun more hMem => hMore.waiting _ (hAll more hMem)⟩

theorem settles_round (h : round v rules k found = some found') {f f' : Found}
    (hf : found[j]? = some f) (hf' : found'[j]? = some f') :
    Settles v rules k (found.map (·.growing)) j f.growing ⟨f.paths, []⟩ f' := by
  have hStep := getElem?_of_mapM h j
  rw [List.getElem?_zipIdx, hf, hf'] at hStep
  have hSettled : f.growing.foldlM (settle v rules k (found.map (·.growing)) j) ⟨f.paths, []⟩ =
      some f' := by simpa using hStep.symm
  exact settles_foldlM hSettled

theorem length_round (h : round v rules k found = some found') : found'.length = found.length := by
  rw [length_of_mapM h, List.length_zipIdx]

structure LeadsTo (p : Partial) (path : Path) : Prop where
  isPrefix : p.path <+: path
  ended : p.rest = [] → path = p.path

theorem LeadsTo.refl (p : Partial) : LeadsTo p p.path := ⟨List.prefix_rfl, fun _ => rfl⟩

theorem LeadsTo.of_grows {q : Partial} (hFinal : isFinal v k partials j p = false)
    (hGrows : Grows rules p q) (h : LeadsTo q path) : LeadsTo p path := by
  obtain ⟨_, -, more, -, rfl⟩ := hGrows
  refine ⟨(List.prefix_append _ _).trans h.isPrefix, fun hEnd => ?_⟩
  simp [isFinal, hEnd] at hFinal

structure Found.Extends (f f' : Found) : Prop where
  kept : ∀ path ∈ f.paths, path ∈ f'.paths
  begun : ∀ path ∈ f'.paths, path ∈ f.paths ∨ ∃ p ∈ f.growing, LeadsTo p path

theorem Found.Extends.refl (f : Found) : f.Extends f := ⟨fun _ h => h, fun _ h => .inl h⟩

theorem extends_rounds (h : rounds v rules k n found = some found') :
    found'.length = found.length ∧ ∀ (j : Nat) (f f' : Found), found[j]? = some f →
      found'[j]? = some f' → f.Extends f' := by
  have hSame : ∀ (found : List Found) (j : Nat) (f f' : Found), found[j]? = some f →
      found[j]? = some f' → f.Extends f' := by
    intro found j f f' hf hf'
    obtain rfl := Option.some.inj (hf.symm.trans hf')
    exact .refl f
  induction n generalizing found with
  | zero =>
    rw [rounds] at h
    cases h
    exact ⟨rfl, hSame _⟩
  | succ n ih =>
    rw [rounds] at h
    split at h
    · cases h
      exact ⟨rfl, hSame _⟩
    · obtain ⟨middle, hRound, hRest⟩ := Option.bind_eq_some_iff.mp h
      obtain ⟨hLength, hExtends⟩ := ih hRest
      refine ⟨hLength.trans (length_round hRound), fun j f f'' hf hf'' => ?_⟩
      obtain ⟨f', hf'⟩ := exists_getElem?_of_length hLength hf''
      have hSettles := settles_round hRound hf hf'
      have hMore := hExtends j f' f'' hf' hf''
      refine ⟨fun path hPath => hMore.kept path (hSettles.kept path hPath), fun path hPath => ?_⟩
      rcases hMore.begun path hPath with hPath | ⟨q, hq, hLeads⟩
      · exact (hSettles.begun path hPath).imp_right fun ⟨p, hp, _, hSame⟩ => ⟨p, hp, hSame ▸ .refl p⟩
      · rcases hSettles.grown q hq with hq | ⟨p, hp, hOpen, hGrows⟩
        · cases hq
        · exact .inr ⟨p, hp, .of_grows hOpen hGrows hLeads⟩

theorem mem_rounds_of_final (h : rounds v rules k (n + 1) found = some found') {f f' : Found}
    (hf : found[j]? = some f) (hf' : found'[j]? = some f') (hp : p ∈ f.growing)
    (hFinal : isFinal v k (found.map (·.growing)) j p = true) : p.path ∈ f'.paths := by
  rw [rounds] at h
  split at h
  · next hSettled =>
    have hNone := List.all_eq_true.mp hSettled f (List.mem_of_getElem? hf)
    rw [List.isEmpty_iff.mp hNone] at hp
    cases hp
  · obtain ⟨middle, hRound, hRest⟩ := Option.bind_eq_some_iff.mp h
    obtain ⟨hLength, hExtends⟩ := extends_rounds hRest
    obtain ⟨g, hg⟩ := exists_getElem?_of_length hLength hf'
    exact (hExtends j g f' hg hf').kept _ ((settles_round hRound hf hg).final p hp hFinal)

variable {cs : List Continuation} {c : Continuation} {result : List (List Path)}
  {paths : List Path}

theorem paths?_eq_some (h : paths? v rules k cs = some result) :
    ∃ start found, rounds v rules k (max k 1) start = some found ∧
      result = found.map (·.paths) ∧ start.length = cs.length ∧
      ∀ (j : Nat) c, cs[j]? = some c → ∃ fuel ps, expand rules fuel 1 c = some ps ∧
        start[j]? = some ⟨[], ps⟩ := by
  simp only [paths?, Option.bind_eq_bind, Option.bind_eq_some_iff] at h
  obtain ⟨start, hStart, found, hRounds, hResult⟩ := h
  cases hResult
  refine ⟨start, found, hRounds, rfl, length_of_mapM hStart, fun j c hc => ?_⟩
  have hLt : j < start.length := by
    rw [length_of_mapM hStart]
    exact (List.getElem?_eq_some_iff.mp hc).1
  have hOne := getElem?_of_mapM hStart j
  rw [hc, Option.bind_some, List.getElem?_eq_getElem hLt] at hOne
  obtain ⟨ps, hExpand, hFound⟩ := Option.map_eq_some_iff.mp hOne.symm
  exact ⟨_, ps, hExpand, (List.getElem?_eq_getElem hLt).trans (congrArg some hFound.symm)⟩

theorem length_paths? (h : paths? v rules k cs = some result) : result.length = cs.length := by
  obtain ⟨start, found, hRounds, rfl, hLength, -⟩ := paths?_eq_some h
  rw [List.length_map, (extends_rounds hRounds).1, hLength]

variable (hRules : AllRules (Production.IsResolved rules) rules)
  (hAll : ∀ c ∈ cs, Throughout (Production.IsResolved rules) c)
  (h : paths? v rules k cs = some result) (hc : cs[j]? = some c) (hPaths : result[j]? = some paths)

include hRules hAll h hc hPaths

theorem begun_of_mem_paths? (hPath : path ∈ paths) : ∃ p, Starts rules c p ∧ p <+: path := by
  obtain ⟨start, found, hRounds, rfl, -, hStart⟩ := paths?_eq_some h
  obtain ⟨fuel, ps, hExpand, hj⟩ := hStart j c hc
  rw [List.getElem?_map] at hPaths
  obtain ⟨f', hf', rfl⟩ := Option.map_eq_some_iff.mp hPaths
  rcases ((extends_rounds hRounds).2 j _ f' hj hf').begun path hPath with hNone | ⟨p, hp, hLeads⟩
  · cases hNone
  · refine ⟨p.path, ?_, hLeads.isPrefix⟩
    exact (mem_expand_one hRules (hAll c (List.mem_of_getElem? hc)) hExpand).mp
      (List.mem_map_of_mem hp)

/-- What an alternative can begin with is one of its paths if no other alternative can begin with
the same. -/
theorem mem_paths?_of_unique (hStarts : Starts rules c path)
    (hUnique : ∀ other c', other ≠ j → cs[other]? = some c' → ∀ q, Starts rules c' q →
      overlap v path q = false) : path ∈ paths := by
  obtain ⟨start, found, hRounds, rfl, hLength, hStart⟩ := paths?_eq_some h
  obtain ⟨fuel, ps, hExpand, hj⟩ := hStart j c hc
  rw [List.getElem?_map] at hPaths
  obtain ⟨f', hf', rfl⟩ := Option.map_eq_some_iff.mp hPaths
  have hMem : path ∈ ps.map (·.path) :=
    (mem_expand_one hRules (hAll c (List.mem_of_getElem? hc)) hExpand).mpr hStarts
  obtain ⟨p, hp, rfl⟩ := List.mem_map.mp hMem
  obtain ⟨n, hn⟩ : ∃ n, max k 1 = n + 1 := Nat.exists_eq_add_of_le' (Nat.le_max_right k 1)
  rw [hn] at hRounds
  refine mem_rounds_of_final hRounds hj hf' hp ?_
  rw [isFinal, Bool.or_assoc, Bool.or_eq_true]
  refine .inl ?_
  refine isUnique_iff.mpr fun other qs hOther hSame q hq => ?_
  rw [List.getElem?_map] at hOther
  obtain ⟨g, hg, rfl⟩ := Option.map_eq_some_iff.mp hOther
  have hLt : other < cs.length := hLength ▸ (List.getElem?_eq_some_iff.mp hg).1
  have hc' := List.getElem?_eq_getElem hLt
  obtain ⟨fuel', qs, hExpand', hOther'⟩ := hStart other _ hc'
  obtain rfl := Option.some.inj (hg.symm.trans hOther')
  refine hUnique other _ hSame hc' q.path ?_
  exact (mem_expand_one hRules (hAll _ (List.mem_of_getElem? hc')) hExpand').mp
    (List.mem_map_of_mem hq)

end Lookahead

end PredictiveParsing
