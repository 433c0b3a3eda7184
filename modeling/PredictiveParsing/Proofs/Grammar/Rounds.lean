import PredictiveParsing.Proofs.Grammar.Expansion
import PredictiveParsing.Proofs.Grammar.LookaheadPaths

/-!
# Rounds under more lookahead

A round makes every path that still grows longer by one token. So rounds begin in the same way under
more lookahead, as long as the lesser one does not end them, and every path that they lead to then
begins with one that the lesser lookahead has found.
-/

namespace PredictiveParsing.Lookahead

variable {v : Vocabulary} {rules : List Rule} {k k' n m j : Nat} {p q : Partial}
  {partials : List (List Partial)} {growing : List Partial} {f f' : Found}
  {found found' : List Found} {cs : List Continuation} {path : Path}

/-- What an alternative has found when the paths that still grow have some number of tokens. -/
structure Found.IsAt (rules : List Rule) (n : Nat) (f : Found) : Prop where
  paths : ∀ path ∈ f.paths, path.length ≤ n
  growing : ∀ p ∈ f.growing, p.path.length = n ∨ p.path.length ≤ n ∧ p.rest = []
  sound : ∀ p ∈ f.growing, ∀ segment ∈ p.rest, segment.IsSound rules

theorem Found.IsAt.length_le (h : f.IsAt rules n) (hp : p ∈ f.growing) : p.path.length ≤ n := by
  rcases h.growing p hp with hLength | ⟨hLength, -⟩
  · exact Nat.le_of_eq hLength
  · exact hLength

theorem Found.IsAt.mono (h : f.IsAt rules n) (hNone : f.growing.isEmpty = true) (hLe : n ≤ m) :
    f.IsAt rules m := by
  rw [List.isEmpty_iff] at hNone
  constructor
  · exact fun path hPath => (h.paths path hPath).trans hLe
  · rw [hNone]
    exact List.forall_mem_nil _
  · rw [hNone]
    exact List.forall_mem_nil _

/-- Lookahead that no path has reached makes no difference to a round. -/
theorem round_congr (hAt : ∀ f ∈ found, f.IsAt rules n) (hk : n < k) (hk' : n < k') :
    round v rules k found = round v rules k' found := by
  refine mapM_congr fun ⟨f, index⟩ hf => foldlM_congr _ fun g p hp => ?_
  have hLe := (hAt f (List.fst_mem_of_mem_zipIdx hf)).length_le hp
  have hShort : isFinal v k (found.map (·.growing)) index p =
      isFinal v k' (found.map (·.growing)) index p := by
    rw [isFinal, isFinal, decide_eq_false (by omega), decide_eq_false (by omega)]
  cases hFinal : isFinal v k (found.map (·.growing)) index p with
  | true => rw [settle_final hFinal, settle_final (hShort ▸ hFinal)]
  | false => rw [settle_open hFinal, settle_open (hShort ▸ hFinal)]

theorem rounds_of_settled (h : found.all (·.growing.isEmpty) = true) (n : Nat) :
    rounds v rules k n found = some found := by
  cases n with
  | zero => rfl
  | succ n => rw [rounds, if_pos h]

theorem rounds_add : rounds v rules k (m + n) found =
    (rounds v rules k m found).bind (rounds v rules k n) := by
  induction m generalizing found with
  | zero =>
    rw [Nat.zero_add]
    rfl
  | succ m ih =>
    rw [Nat.succ_add, rounds, rounds]
    split
    · next hSettled => exact (rounds_of_settled hSettled n).symm
    · cases round v rules k found with
      | none => rfl
      | some middle => exact ih

section Sound

variable (hOpens : ∀ c : Continuation, (∀ segment ∈ c, segment.IsSound rules) →
  Opens rules (expand? rules 1 c))

include hOpens

theorem isAt_of_settles (hAt : f.IsAt rules n)
    (h : Settles v rules k partials j f.growing ⟨f.paths, []⟩ f') : f'.IsAt rules (n + 1) := by
  have hGrown : ∀ q ∈ f'.growing, ∃ p ∈ f.growing, p.path.length = n ∧
      ∃ more, IsOpening rules more ∧ { more with path := p.path ++ more.path } = q := by
    intro q hq
    rcases h.grown q hq with hq | ⟨p, hp, hOpen, longer, hLonger, more, hMore, hSame⟩
    · cases hq
    · obtain ⟨ps, hps, hOpening⟩ := hOpens p.rest (hAt.sound p hp)
      obtain rfl := Option.some.inj (hLonger.symm.trans hps)
      refine ⟨p, hp, ?_, more, hOpening more hMore, hSame⟩
      -- At the end of its alternative it would have been final.
      refine (hAt.growing p hp).resolve_right fun hEnd => ?_
      simp [isFinal, hEnd.2] at hOpen
  constructor
  · intro path hPath
    rcases h.begun path hPath with hPath | ⟨p, hp, -, rfl⟩
    · exact Nat.le_succ_of_le (hAt.paths path hPath)
    · exact Nat.le_succ_of_le (hAt.length_le hp)
  · intro q hq
    obtain ⟨p, -, hLength, more, hMore, rfl⟩ := hGrown q hq
    simp only [List.length_append, hLength]
    rcases hMore.path with hOne | ⟨hNone, hEnd⟩
    · exact .inl (by rw [hOne])
    · exact .inr ⟨by simp [hNone], hEnd⟩
  · intro q hq
    obtain ⟨p, -, -, more, hMore, rfl⟩ := hGrown q hq
    exact hMore.sound

theorem exists_settled (h : ∀ p ∈ growing, ∀ segment ∈ p.rest, segment.IsSound rules) (f : Found) :
    ∃ f', growing.foldlM (settle v rules k partials j) f = some f' := by
  induction growing generalizing f with
  | nil => exact ⟨f, rfl⟩
  | cons p growing ih =>
    obtain ⟨hFirst, hRest⟩ := List.forall_mem_cons.mp h
    obtain ⟨middle, hMiddle⟩ : ∃ f', settle v rules k partials j f p = some f' := by
      cases hFinal : isFinal v k partials j p with
      | true => exact ⟨_, settle_final hFinal⟩
      | false =>
        obtain ⟨longer, hLonger, -⟩ := hOpens p.rest hFirst
        exact ⟨_, by rw [settle_open hFinal, hLonger]; rfl⟩
    obtain ⟨f', hf'⟩ := ih hRest middle
    exact ⟨f', by rw [List.foldlM_cons, hMiddle]; exact hf'⟩

theorem exists_round (hAt : ∀ f ∈ found, f.IsAt rules n) :
    ∃ found', round v rules k found = some found' ∧ ∀ f ∈ found', f.IsAt rules (n + 1) := by
  refine exists_mapM fun ⟨f, index⟩ hf => ?_
  have hf := hAt f (List.fst_mem_of_mem_zipIdx hf)
  obtain ⟨f', hf'⟩ := exists_settled hOpens hf.sound ⟨f.paths, []⟩
  exact ⟨f', hf', isAt_of_settles hOpens hf (settles_foldlM hf')⟩

theorem exists_rounds (hAt : ∀ f ∈ found, f.IsAt rules n) (m : Nat) :
    ∃ found', rounds v rules k m found = some found' ∧ ∀ f ∈ found', f.IsAt rules (n + m) := by
  induction m generalizing n found with
  | zero => exact ⟨found, rfl, hAt⟩
  | succ m ih =>
    rw [rounds]
    split
    · next hSettled =>
      exact ⟨found, rfl, fun f hf =>
        (hAt f hf).mono (List.all_eq_true.mp hSettled f hf) (Nat.le_add_right _ _)⟩
    · obtain ⟨middle, hRound, hMiddle⟩ := exists_round hOpens hAt
      obtain ⟨found', hRounds, hFound'⟩ := ih hMiddle
      refine ⟨found', by rw [hRound]; exact hRounds, ?_⟩
      rwa [Nat.add_right_comm] at hFound'

theorem rounds_congr (hAt : ∀ f ∈ found, f.IsAt rules n) (hn : 0 < n) (hLe : k ≤ k')
    (hk : n + m ≤ max k 1) : rounds v rules k m found = rounds v rules k' m found := by
  induction m generalizing n found with
  | zero => rfl
  | succ m ih =>
    rw [rounds, rounds]
    split
    · rfl
    · obtain ⟨middle, hRound, hMiddle⟩ := exists_round hOpens hAt
      have hSame : round v rules k found = round v rules k' found :=
        round_congr hAt (by omega) (by omega)
      rw [← hSame, hRound]
      exact ih hMiddle (Nat.succ_pos n) (by omega)

/-- Under more lookahead, a path begins with one that the lesser lookahead has found. -/
theorem take_mem_rounds (hAt : ∀ f ∈ found, f.IsAt rules 1) (hLe : k ≤ k') {less more : List Found}
    (hLess : rounds v rules k (max k 1) found = some less)
    (hMore : rounds v rules k' (max k' 1) found = some more) (hf : less[j]? = some f)
    (hf' : more[j]? = some f') (hPath : path ∈ f'.paths) : path.take (max k 1) ∈ f.paths := by
  -- All rounds but the last one of the lesser lookahead are the same for both.
  obtain ⟨m, hm⟩ : ∃ m, max k 1 = m + 1 := Nat.exists_eq_add_of_le' (Nat.le_max_right k 1)
  obtain ⟨n, hn⟩ : ∃ n, max k' 1 = m + (n + 1) := ⟨max k' 1 - (m + 1), by omega⟩
  obtain ⟨middle, hMiddle, hAtMiddle⟩ := exists_rounds hOpens hAt m
  rw [hm, rounds_add, hMiddle] at hLess
  rw [hn, rounds_add, ← rounds_congr hOpens hAt Nat.one_pos hLe (by omega), hMiddle] at hMore
  obtain ⟨hLengthLess, hExtendsLess⟩ := extends_rounds hLess
  obtain ⟨-, hExtendsMore⟩ := extends_rounds hMore
  obtain ⟨g, hg⟩ := exists_getElem?_of_length hLengthLess hf
  have hReached : g.IsAt rules (max k 1) := by
    rw [hm, Nat.add_comm]
    exact hAtMiddle g (List.mem_of_getElem? hg)
  rcases (hExtendsMore j g f' hg hf').begun path hPath with hPath | ⟨p, hp, hLeads⟩
  · rw [List.take_of_length_le (hReached.paths path hPath)]
    exact (hExtendsLess j g f hg hf).kept path hPath
  -- The lesser lookahead ends with what still grows, and cuts there what has grown from it.
  · have hTake : path.take (max k 1) = p.path := by
      rcases hReached.growing p hp with hLength | ⟨hLength, hEnd⟩
      · rw [← hLength, ← List.prefix_iff_eq_take.mp hLeads.isPrefix]
      · rw [hLeads.ended hEnd, List.take_of_length_le hLength]
    rw [hTake]
    refine mem_rounds_of_final hLess hg hf hp ?_
    rcases hReached.growing p hp with hLength | ⟨-, hEnd⟩
    · rw [isFinal, decide_eq_true (by omega), Bool.or_true]
    · rw [isFinal, hEnd, List.isEmpty_nil, Bool.or_true, Bool.true_or]

theorem exists_openings (hcs : ∀ c ∈ cs, ∀ segment ∈ c, segment.IsSound rules) :
    ∃ start, cs.mapM (fun rest => (expand? rules 1 rest).map fun ps => Found.mk [] ps) =
      some start ∧ ∀ f ∈ start, f.IsAt rules 1 := by
  refine exists_mapM fun c hc => ?_
  obtain ⟨ps, hps, hOpening⟩ := hOpens c (hcs c hc)
  refine ⟨⟨[], ps⟩, by rw [hps]; rfl, List.forall_mem_nil _, fun p hp => ?_, fun p hp => ?_⟩
  · exact (hOpening p hp).path.imp_right fun ⟨hNone, hEnd⟩ => ⟨by simp [hNone], hEnd⟩
  · exact (hOpening p hp).sound

variable {less more : List (List Path)} {ps ps' : List Path}

theorem exists_paths? (hcs : ∀ c ∈ cs, ∀ segment ∈ c, segment.IsSound rules) :
    ∃ result, paths? v rules k cs = some result := by
  obtain ⟨start, hStart, hAt⟩ := exists_openings hOpens hcs
  obtain ⟨found, hFound, -⟩ := exists_rounds hOpens hAt (max k 1)
  refine ⟨found.map (·.paths), ?_⟩
  rw [paths?, hStart, Option.bind_eq_bind, Option.bind_some, hFound]
  rfl

theorem take_mem_paths? (hcs : ∀ c ∈ cs, ∀ segment ∈ c, segment.IsSound rules) (hLe : k ≤ k')
    (hLess : paths? v rules k cs = some less) (hMore : paths? v rules k' cs = some more)
    (hps : less[j]? = some ps) (hps' : more[j]? = some ps') (hPath : path ∈ ps') :
    path.take (max k 1) ∈ ps := by
  obtain ⟨start, hStart, hAt⟩ := exists_openings hOpens hcs
  rw [paths?, hStart, Option.bind_eq_bind, Option.bind_some] at hLess hMore
  obtain ⟨found, hFound, hSame⟩ := Option.bind_eq_some_iff.mp hLess
  obtain ⟨found', hFound', hSame'⟩ := Option.bind_eq_some_iff.mp hMore
  cases hSame
  cases hSame'
  rw [List.getElem?_map] at hps hps'
  obtain ⟨f, hf, rfl⟩ := Option.map_eq_some_iff.mp hps
  obtain ⟨f', hf', rfl⟩ := Option.map_eq_some_iff.mp hps'
  exact take_mem_rounds hOpens hAt hLe hFound hFound' hf hf' hPath

end Sound

end PredictiveParsing.Lookahead
