import PredictiveParsing.Proofs.Grammar.Rounds
import PredictiveParsing.Proofs.Grammar.Yields

/-!
# Paths cover their alternatives

Every string that an alternative derives begins with one of its lookahead paths, and every path is the
beginning of a derivation. Each round keeps this up, if the paths that still grow are read with what
remains behind them, and when the rounds are over none grows any more.
-/

namespace PredictiveParsing

/-- A segment that is made of productions of the rules. -/
inductive Segment.IsPartOf (rules : List Rule) : Segment → Prop
  | token (token : TypeId) : IsPartOf rules (.token token)
  | sequence {ps : List Production} (h : ∀ p ∈ ps, ∃ r ∈ rules, p ∈ r.nodes) :
      IsPartOf rules (.sequence ps)
  | again {r : Rule} {mandatory : Bool} {separator other : Option TypeId}
      {definition : List Production} {occurrence : Nat} (hr : r ∈ rules)
      (h : .repetition mandatory separator definition occurrence ∈ r.nodes) :
      IsPartOf rules (.again definition other)

variable {v : Vocabulary} {rules : List Rule} {c : Continuation} {segment : Segment}
  {p q : Production} {ps : List Production}

namespace Production

mutual

theorem mem_nodes_trans (r : Production) (hp : p ∈ r.nodes) (hq : q ∈ p.nodes) : q ∈ r.nodes := by
  cases r with
  | terminal | nonTerminal =>
    obtain rfl := List.mem_singleton.mp hp
    exact hq
  | option definition occurrence =>
    rcases List.mem_cons.mp hp with rfl | hp
    · exact hq
    · exact List.mem_cons_of_mem _ (mem_nodesOf_trans definition hp hq)
  | repetition mandatory separator definition occurrence =>
    rcases List.mem_cons.mp hp with rfl | hp
    · exact hq
    · exact List.mem_cons_of_mem _ (mem_nodesOf_trans definition hp hq)
  | alternation alternatives occurrence =>
    rcases List.mem_cons.mp hp with rfl | hp
    · exact hq
    · exact List.mem_cons_of_mem _ (mem_nodesOfBranches_trans alternatives hp hq)

theorem mem_nodesOf_trans (ps : List Production) (hp : p ∈ nodesOf ps) (hq : q ∈ p.nodes) :
    q ∈ nodesOf ps := by
  cases ps with
  | nil => cases hp
  | cons r ps =>
    rcases List.mem_append.mp hp with hp | hp
    · exact List.mem_append_left _ (mem_nodes_trans r hp hq)
    · exact List.mem_append_right _ (mem_nodesOf_trans ps hp hq)

theorem mem_nodesOfBranches_trans (branches : List (Alternative Production))
    (hp : p ∈ nodesOfBranches branches) (hq : q ∈ p.nodes) : q ∈ nodesOfBranches branches := by
  cases branches with
  | nil => cases hp
  | cons branch rest =>
    rcases List.mem_append.mp hp with hp | hp
    · exact List.mem_append_left _ (mem_nodesOf_trans branch.definition hp hq)
    · exact List.mem_append_right _ (mem_nodesOfBranches_trans rest hp hq)

end

theorem exists_mem_of_mem_nodesOf (h : q ∈ nodesOf ps) : ∃ p ∈ ps, q ∈ p.nodes := by
  induction ps with
  | nil => cases h
  | cons p ps ih =>
    rcases List.mem_append.mp h with h | h
    · exact ⟨p, List.mem_cons_self, h⟩
    · obtain ⟨r, hr, hq⟩ := ih h
      exact ⟨r, List.mem_cons_of_mem _ hr, hq⟩

end Production

theorem Segment.IsPartOf.inherits {P : Production → Prop} (h : segment.IsPartOf rules)
    (hRules : AllRules P rules) : ∀ q ∈ Production.nodesOf segment.parts, P q := by
  cases h with
  | token token => exact List.forall_mem_nil _
  | sequence h =>
    intro q hq
    obtain ⟨p, hp, hq⟩ := Production.exists_mem_of_mem_nodesOf hq
    obtain ⟨r, hr, hp⟩ := h p hp
    exact hRules r hr q (Production.mem_nodesOf_trans _ hp hq)
  | again hr h =>
    exact fun q hq => hRules _ hr q
      (Production.mem_nodesOf_trans _ h (List.mem_cons_of_mem _ hq))

theorem Segment.IsPartOf.isSound (h : segment.IsPartOf rules)
    (hRules : AllRules (Production.IsSound rules) rules) : segment.IsSound rules := by
  refine ⟨h.inherits hRules, fun definition separator hAgain => ?_⟩
  cases h with
  | token | sequence => cases hAgain
  | again hr h =>
    cases hAgain
    exact (hRules _ hr _ h).2

theorem Structure.areSound_of_errors (hRules : AllRules (Production.IsResolved rules) rules)
    (h : errors v rules (.ofRules rules) = []) : AllRules (Production.IsSound rules) rules :=
  fun r hr p hp => ⟨hRules r hr p hp, areSolid_of_errors h r hr p hp⟩

theorem Structure.opens_of_errors (hRules : AllRules (Production.IsResolved rules) rules)
    (h : errors v rules (.ofRules rules) = []) (c : Continuation)
    (hc : ∀ segment ∈ c, segment.IsSound rules) :
    Lookahead.Opens rules (Lookahead.expand? rules 1 c) :=
  Lookahead.opens_expand? (areSound_of_errors hRules h)
    (isOrdered_of_leftRecursions (List.append_eq_nil_iff.mp h).1) hc

namespace Lookahead

variable {k n m j : Nat} {partials : List Partial} {u w : Path} {f f' : Found}
  {growing : List (List Partial)} {found found' : List Found} {cs : List Continuation}

section Expand

variable (hRules : AllRules (Production.IsResolved rules) rules)
  (hc : Throughout (Production.IsResolved rules) c) {fuel : Nat}
  (h : expand rules fuel 1 c = some partials)

include hRules hc h

theorem spells_expand : Spells rules c w ↔
    ∃ p ∈ partials, ∃ u, w = p.path ++ u ∧ Spells rules p.rest u := by
  rw [(finds_expand isLeftmost_spells hRules hc h).iff]
  exact exists_congr fun p => and_congr_right fun _ => spells_tokens_append

theorem leads_expand {p : Partial} (hp : p ∈ partials) (hLeads : Leads rules p.rest u) :
    Leads rules c (p.path ++ u) := by
  by_cases hNone : p.path ++ u = []
  · exact hNone ▸ leads_nil
  · obtain ⟨rest, hRest⟩ := hLeads
    exact (finds_expand (isLeftmost_leads hNone) hRules hc h).iff.mpr
      ⟨p, hp, rest, (yields_tokens p.path p.rest).trans hRest⟩

end Expand

/-! ## Rounds -/

theorem rounds_induct {I : Nat → List Found → Prop} (h : rounds v rules k m found = some found')
    (hStep : ∀ n found found', I n found → round v rules k found = some found' → I (n + 1) found')
    (hSettled : ∀ n n' found, found.all (·.growing.isEmpty) = true → n ≤ n' → I n found →
      I n' found) (hStart : I n found) : I (n + m) found' := by
  induction m generalizing n found with
  | zero =>
    cases h
    exact hStart
  | succ m ih =>
    rw [rounds] at h
    split at h
    · next hNone =>
      cases h
      exact hSettled n _ _ hNone (Nat.le_add_right _ _) hStart
    · obtain ⟨middle, hRound, hRest⟩ := Option.bind_eq_some_iff.mp h
      have hAll := ih hRest (hStep n found middle hStart hRound)
      rwa [Nat.add_right_comm] at hAll

/-- What an alternative has found goes with what it derives, when paths that still grow have some
number of tokens. -/
structure Found.Follows (rules : List Rule) (n : Nat) (c : Continuation) (f : Found) : Prop where
  short : ∀ path ∈ f.paths, path.length < n
  growing : ∀ p ∈ f.growing, p.path.length = n ∨ p.path.length ≤ n ∧ p.rest = []
  resolved : ∀ p ∈ f.growing, Throughout (Production.IsResolved rules) p.rest
  covers : ∀ w, Spells rules c w → (∃ path ∈ f.paths, path <+: w) ∨
    ∃ p ∈ f.growing, ∃ u, w = p.path ++ u ∧ Spells rules p.rest u
  leads : ∀ path ∈ f.paths, Leads rules c path
  leading : ∀ p ∈ f.growing, ∀ u, Leads rules p.rest u → Leads rules c (p.path ++ u)
  spelling : ∀ p ∈ f.growing, ∀ u, Spells rules p.rest u → Spells rules c (p.path ++ u)

theorem Found.Follows.length_le (h : f.Follows rules n c) {p : Partial} (hp : p ∈ f.growing) :
    p.path.length ≤ n := by
  rcases h.growing p hp with hLength | ⟨hLength, -⟩
  · exact Nat.le_of_eq hLength
  · exact hLength

/-- What has not been final has more behind it, so it has as many tokens as there were rounds. -/
theorem Found.Follows.length_eq (h : f.Follows rules n c) {p : Partial} (hp : p ∈ f.growing)
    (hOpen : isFinal v k growing j p = false) : p.path.length = n := by
  refine (h.growing p hp).resolve_right fun hEnd => ?_
  simp [isFinal, hEnd.2] at hOpen

theorem Found.Follows.mono (h : f.Follows rules n c) (hNone : f.growing.isEmpty = true)
    (hLe : n ≤ m) : f.Follows rules m c where
  short path hPath := Nat.lt_of_lt_of_le (h.short path hPath) hLe
  growing := by
    rw [List.isEmpty_iff.mp hNone]
    exact List.forall_mem_nil _
  resolved := h.resolved
  covers := h.covers
  leads := h.leads
  leading := h.leading
  spelling := h.spelling

section Resolved

variable (hRules : AllRules (Production.IsResolved rules) rules)

include hRules

theorem follows_start (hc : Throughout (Production.IsResolved rules) c) {fuel : Nat}
    (h : expand rules fuel 1 c = some partials) : Found.Follows rules 1 c ⟨[], partials⟩ := by
  have hFinds := finds_expand (isLeftmost_spells (w := [])) hRules hc h
  constructor
  case short => exact List.forall_mem_nil _
  case growing =>
    exact fun p hp => (hFinds.path p hp).imp_right fun hEnd => ⟨by simp [hEnd.1], hEnd.2⟩
  case resolved => exact hFinds.rest
  case covers => exact fun _ hw => .inr ((spells_expand hRules hc h).mp hw)
  case leads => exact List.forall_mem_nil _
  case leading => exact fun _ hp _ hu => leads_expand hRules hc h hp hu
  case spelling => exact fun p hp u hu => (spells_expand hRules hc h).mpr ⟨p, hp, u, rfl, hu⟩

theorem Found.Follows.of_settles (h : f.Follows rules n c)
    (hSettles : Settles v rules k growing j f.growing ⟨f.paths, []⟩ f') :
    f'.Follows rules (n + 1) c := by
  have hGrown : ∀ q ∈ f'.growing, ∃ p ∈ f.growing, p.path.length = n ∧ ∃ longer,
      expand? rules 1 p.rest = some longer ∧
        ∃ more ∈ longer, { more with path := p.path ++ more.path } = q := by
    intro q hq
    rcases hSettles.grown q hq with hq | ⟨p, hp, hOpen, longer, hLonger, hMore⟩
    · cases hq
    · exact ⟨p, hp, h.length_eq hp hOpen, longer, hLonger, hMore⟩
  constructor
  case short =>
    intro path hPath
    rcases hSettles.begun path hPath with hPath | ⟨p, hp, -, rfl⟩
    · exact Nat.lt_succ_of_lt (h.short path hPath)
    · exact Nat.lt_succ_of_le (h.length_le hp)
  case growing =>
    intro q hq
    obtain ⟨p, hp, hLength, longer, hLonger, more, hMore, rfl⟩ := hGrown q hq
    have hFinds := finds_expand (isLeftmost_spells (w := [])) hRules (h.resolved p hp) hLonger
    simp only [List.length_append, hLength]
    exact (hFinds.path more hMore).imp (fun hOne => by rw [hOne])
      fun hEnd => ⟨by simp [hEnd.1], hEnd.2⟩
  case resolved =>
    intro q hq
    obtain ⟨p, hp, -, longer, hLonger, more, hMore, rfl⟩ := hGrown q hq
    have hFinds := finds_expand (isLeftmost_spells (w := [])) hRules (h.resolved p hp) hLonger
    exact hFinds.rest more hMore
  -- The path that a string begins with is kept, becomes final or grows along the string.
  case covers =>
    intro w hw
    rcases h.covers w hw with ⟨path, hPath, hPrefix⟩ | ⟨p, hp, u, rfl, hu⟩
    · exact .inl ⟨path, hSettles.kept path hPath, hPrefix⟩
    · cases hFinal : isFinal v k growing j p with
      | true => exact .inl ⟨p.path, hSettles.final p hp hFinal, List.prefix_append _ _⟩
      | false =>
        obtain ⟨longer, hLonger, hAll⟩ := hSettles.grows p hp hFinal
        obtain ⟨more, hMore, rest, rfl, hRest⟩ :=
          (spells_expand hRules (h.resolved p hp) hLonger).mp hu
        exact .inr ⟨_, hAll more hMore, rest, (List.append_assoc _ _ _).symm, hRest⟩
  case leads =>
    intro path hPath
    rcases hSettles.begun path hPath with hPath | ⟨p, hp, -, rfl⟩
    · exact h.leads path hPath
    · have hLeads := h.leading p hp [] leads_nil
      rwa [List.append_nil] at hLeads
  case leading =>
    intro q hq u hu
    obtain ⟨p, hp, -, longer, hLonger, more, hMore, rfl⟩ := hGrown q hq
    rw [List.append_assoc]
    exact h.leading p hp _ (leads_expand hRules (h.resolved p hp) hLonger hMore hu)
  case spelling =>
    intro q hq u hu
    obtain ⟨p, hp, -, longer, hLonger, more, hMore, rfl⟩ := hGrown q hq
    rw [List.append_assoc]
    exact h.spelling p hp _
      ((spells_expand hRules (h.resolved p hp) hLonger).mpr ⟨more, hMore, u, rfl, hu⟩)

end Resolved

structure AllFollow (rules : List Rule) (cs : List Continuation) (n : Nat) (found : List Found) :
    Prop where
  length : found.length = cs.length
  each : ∀ (j : Nat) c f, cs[j]? = some c → found[j]? = some f → f.Follows rules n c

theorem AllFollow.round (hRules : AllRules (Production.IsResolved rules) rules)
    (h : AllFollow rules cs n found) (hRound : Lookahead.round v rules k found = some found') :
    AllFollow rules cs (n + 1) found' := by
  refine ⟨(length_round hRound).trans h.length, fun j c f' hc hf' => ?_⟩
  obtain ⟨f, hf⟩ := exists_getElem?_of_length (length_round hRound) hf'
  exact (h.each j c f hc hf).of_settles hRules (settles_round hRound hf hf')

theorem AllFollow.mono (h : AllFollow rules cs n found)
    (hNone : found.all (·.growing.isEmpty) = true) (hLe : n ≤ m) : AllFollow rules cs m found where
  length := h.length
  each j c f hc hf :=
    (h.each j c f hc hf).mono (List.all_eq_true.mp hNone f (List.mem_of_getElem? hf)) hLe

theorem AllFollow.rounds (hRules : AllRules (Production.IsResolved rules) rules)
    (h : AllFollow rules cs n found) (hRounds : Lookahead.rounds v rules k m found = some found') :
    AllFollow rules cs (n + m) found' :=
  rounds_induct hRounds (fun _ _ _ h hRound => h.round hRules hRound)
    (fun _ _ _ hNone hLe h => h.mono hNone hLe) h

theorem AllFollow.growing_eq_nil (hRules : AllRules (Production.IsResolved rules) rules)
    (h : AllFollow rules cs 1 found)
    (hRounds : Lookahead.rounds v rules k (max k 1) found = some found') :
    ∀ f ∈ found', f.growing = [] := by
  obtain ⟨m, hm⟩ : ∃ m, max k 1 = m + 1 := Nat.exists_eq_add_of_le' (Nat.le_max_right k 1)
  rw [hm, rounds_add] at hRounds
  obtain ⟨middle, hMiddle, hLast⟩ := Option.bind_eq_some_iff.mp hRounds
  have hReached := h.rounds hRules hMiddle
  rw [Lookahead.rounds] at hLast
  split at hLast
  · next hNone =>
    cases hLast
    exact fun f hf => List.isEmpty_iff.mp (List.all_eq_true.mp hNone f hf)
  · obtain ⟨last, hRound, hSame⟩ := Option.bind_eq_some_iff.mp hLast
    cases hSame
    intro f' hf'
    obtain ⟨j, hj⟩ := List.mem_iff_getElem?.mp hf'
    obtain ⟨f, hf⟩ := exists_getElem?_of_length (length_round hRound) hj
    obtain ⟨c, hc⟩ := exists_getElem?_of_length hReached.length hf
    refine List.eq_nil_iff_forall_not_mem.mpr fun q hq => ?_
    -- What had grown up to here was as long as the lookahead allows, so none of it was open.
    rcases (settles_round hRound hf hj).grown q hq with hq | ⟨p, hp, hOpen, -⟩
    · cases hq
    · have hLength := (hReached.each j c f hc hf).length_eq hp hOpen
      rw [isFinal, Bool.or_eq_false_iff, decide_eq_false_iff_not] at hOpen
      omega

theorem follow_of_paths? (hRules : AllRules (Production.IsResolved rules) rules)
    (hcs : ∀ c ∈ cs, Throughout (Production.IsResolved rules) c) {result : List (List Path)}
    (h : paths? v rules k cs = some result) :
    ∃ start found, AllFollow rules cs 1 start ∧ (∀ f ∈ start, f.paths = []) ∧
      Lookahead.rounds v rules k (max k 1) start = some found ∧ result = found.map (·.paths) := by
  obtain ⟨start, found, hRounds, hResult, hLength, hStart⟩ := paths?_eq_some h
  refine ⟨start, found, ⟨hLength, fun j c f hc hf => ?_⟩, fun f hf => ?_, hRounds, hResult⟩
  · obtain ⟨fuel, partials, hExpand, hMade⟩ := hStart j c hc
    obtain rfl := Option.some.inj (hMade.symm.trans hf)
    exact follows_start hRules (hcs c (List.mem_of_getElem? hc)) hExpand
  · obtain ⟨j, hj⟩ := List.mem_iff_getElem?.mp hf
    obtain ⟨c, hc⟩ := exists_getElem?_of_length hLength hj
    obtain ⟨fuel, partials, -, hMade⟩ := hStart j c hc
    obtain rfl := Option.some.inj (hMade.symm.trans hj)
    rfl

theorem exists_paths?_of_parts (hRules : AllRules (Production.IsResolved rules) rules)
    (hSound : Structure.errors v rules (.ofRules rules) = [])
    (hParts : ∀ c ∈ cs, ∀ segment ∈ c, segment.IsPartOf rules) :
    ∃ result, paths? v rules k cs = some result :=
  exists_paths? (Structure.opens_of_errors hRules hSound) fun c hc segment hSegment =>
    (hParts c hc segment hSegment).isSound (Structure.areSound_of_errors hRules hSound)

end Lookahead

/-- Paths go with what a continuation derives: none of its strings is left out, and nothing else
is looked for. -/
structure PathsCover (rules : List Rule) (k : Nat) (c : Continuation) (paths : List Path) : Prop where
  covers : ∀ w, Spells rules c w → ∃ path ∈ paths, path <+: w
  short : ∀ path ∈ paths, path.length ≤ max k 1
  leads : ∀ path ∈ paths, Leads rules c path

/-- Lookahead paths are found for all continuations of a sound grammar, and they cover what these
derive. -/
theorem exists_paths_cover {k : Nat} {cs : List Continuation}
    (hRules : AllRules (Production.IsResolved rules) rules)
    (hSound : Structure.errors v rules (.ofRules rules) = [])
    (hParts : ∀ c ∈ cs, ∀ segment ∈ c, segment.IsPartOf rules) :
    ∃ result, Lookahead.paths? v rules k cs = some result ∧
      List.Forall₂ (PathsCover rules k) cs result := by
  obtain ⟨result, hResult⟩ := Lookahead.exists_paths?_of_parts (k := k) hRules hSound hParts
  have hResolved : ∀ c ∈ cs, Throughout (Production.IsResolved rules) c :=
    fun c hc segment hSegment => (hParts c hc segment hSegment).inherits hRules
  obtain ⟨start, found, hFollow, -, hFound, rfl⟩ :=
    Lookahead.follow_of_paths? hRules hResolved hResult
  have hLast := hFollow.rounds hRules hFound
  have hNone := hFollow.growing_eq_nil hRules hFound
  refine ⟨_, hResult, ?_⟩
  rw [List.forall₂_map_right_iff, List.forall₂_iff_get]
  refine ⟨hLast.length.symm, fun j hc hf => ?_⟩
  have hEach := hLast.each j _ _ (List.getElem?_eq_getElem hc) (List.getElem?_eq_getElem hf)
  constructor
  case covers =>
    intro w hw
    refine (hEach.covers w hw).resolve_right fun ⟨p, hp, _⟩ => ?_
    rw [hNone _ (List.getElem_mem hf)] at hp
    cases hp
  case short =>
    intro path hPath
    have hShort := hEach.short path hPath
    omega
  case leads => exact hEach.leads

namespace Listing

def vocabulary : Vocabulary :=
  .ofTypes [.category "Literal", .inCategory (.literal "Number" "1") 1, .literal "Comma" ",",
    .literal "End" ";"]

def lists : List Rule :=
  [⟨"value", [.terminal 1 0], []⟩,
    ⟨"list", [.repetition false (some 3) [.nonTerminal "value" (some 0) 0] 0, .terminal 4 0], []⟩]

def alternatives : List Continuation :=
  [[.sequence (definitionOf lists 1)],
    [.token 2, .again [.nonTerminal "value" (some 0) 0] (some 3), .token 4]]

theorem isPartOf_alternatives :
    ∀ c ∈ alternatives, ∀ segment ∈ c, segment.IsPartOf lists := by
  have hList : ∃ r ∈ lists, .repetition false (some 3) [.nonTerminal "value" (some 0) 0] 0 ∈ r.nodes ∧
      .terminal 4 0 ∈ r.nodes := ⟨lists[1], by simp [lists], by
    simp [lists, Rule.nodes, Production.nodesOf, Production.nodes]⟩
  obtain ⟨r, hr, hIteration, hEnd⟩ := hList
  refine List.forall_mem_cons.mpr ⟨List.forall_mem_singleton.mpr (.sequence ?_), ?_⟩
  · exact List.forall_mem_cons.mpr ⟨⟨r, hr, hIteration⟩, List.forall_mem_singleton.mpr ⟨r, hr, hEnd⟩⟩
  · exact List.forall_mem_singleton.mpr (List.forall_mem_cons.mpr ⟨.token 2,
      List.forall_mem_cons.mpr ⟨.again hr hIteration, List.forall_mem_singleton.mpr (.token 4)⟩⟩)

end Listing

open Listing in
theorem exists_paths_cover_listing :
    ∃ result, Lookahead.paths? vocabulary lists 2 alternatives = some result ∧
      List.Forall₂ (PathsCover lists 2) alternatives result := by
  have hResolved : AllRules (Production.IsResolved lists) lists := by decide
  have hSound : Structure.errors vocabulary lists (.ofRules lists) = [] := by decide +kernel
  exact exists_paths_cover hResolved hSound isPartOf_alternatives

/-- The first token is a number in both alternatives, so a second one is looked at. -/
example : Lookahead.paths? Listing.vocabulary Listing.lists 2 Listing.alternatives =
    some [[[4], [1, 3], [1, 4]], [[2, 3], [2, 4]]] := by decide +kernel

end PredictiveParsing
