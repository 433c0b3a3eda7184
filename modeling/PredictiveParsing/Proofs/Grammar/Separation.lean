import PredictiveParsing.Proofs.Grammar.Coverage
import PredictiveParsing.Proofs.Grammar.Deciding

/-!
# Paths tell alternatives apart

Paths of two alternatives can match the same tokens only if the lookahead is used up or the shorter
one is all that its alternative derives. When a path is final because no other alternative shares
it, the others know the beginnings of all paths that they find later.
-/

namespace PredictiveParsing

namespace Lookahead

variable {v : Vocabulary} {rules : List Rule} {c : Continuation} {k n i j : Nat} {p q path : Path}
  {f f' other other' : Found} {growing : List (List Partial)} {found found' : List Found}
  {cs : List Continuation}

theorem overlap_of_matchesPath {kinds : Nat → TypeId} (hLength : p.length = q.length)
    (hp : Decision.matchesPath v kinds n p = true) (hq : Decision.matchesPath v kinds n q = true) :
    overlap v p q = true := by
  induction p generalizing q n with
  | nil =>
    obtain rfl := List.eq_nil_of_length_eq_zero hLength.symm
    rfl
  | cons a p ih =>
    cases q with
    | nil => cases hLength
    | cons b q =>
      rw [Decision.matchesPath, Bool.and_eq_true] at hp hq
      rw [overlap, Bool.and_eq_true]
      exact ⟨shareMember_iff.mpr ⟨_, hp.1, hq.1⟩, ih (Nat.succ.inj hLength) hp.2 hq.2⟩

def Found.Knows (f : Found) (path : Path) : Prop :=
  path ∈ f.paths ∨ ∃ p ∈ f.growing, p.path = path

/-- Final paths of an alternative are shared by another one only where nothing tells them apart. -/
def Separated (v : Vocabulary) (rules : List Rule) (k : Nat) (c : Continuation) (f other : Found) :
    Prop :=
  ∀ p ∈ f.paths, ∀ q, other.Knows q → p.length ≤ q.length →
    overlap v p (q.take p.length) = true → Spells rules c p ∨ max k 1 ≤ p.length

structure AllSeparated (v : Vocabulary) (rules : List Rule) (k : Nat) (cs : List Continuation)
    (n : Nat) (found : List Found) : Prop where
  positive : 0 < n
  follow : AllFollow rules cs n found
  apart : ∀ (i j : Nat) c f other, i ≠ j → cs[i]? = some c → found[i]? = some f →
    found[j]? = some other → Separated v rules k c f other

theorem Found.Knows.of_settles (h : f'.Knows q) (hFollows : f.Follows rules n c)
    (hSettles : Settles v rules k growing j f.growing ⟨f.paths, []⟩ f') : f.Knows (q.take n) := by
  rcases h with hPath | ⟨_, hGrowing, rfl⟩
  · rcases hSettles.begun q hPath with hPath | ⟨p, hp, -, rfl⟩
    · have hShort := Nat.le_of_lt (hFollows.short q hPath)
      exact .inl (by rwa [List.take_of_length_le hShort])
    · exact .inr ⟨p, hp, (List.take_of_length_le (hFollows.length_le hp)).symm⟩
  · rcases hSettles.grown _ hGrowing with hNone | ⟨p, hp, hOpen, longer, -, more, -, rfl⟩
    · cases hNone
    · exact .inr ⟨p, hp, (List.take_left' (hFollows.length_eq hp hOpen)).symm⟩

theorem AllSeparated.round (hRules : AllRules (Production.IsResolved rules) rules)
    (h : AllSeparated v rules k cs n found)
    (hRound : Lookahead.round v rules k found = some found') :
    AllSeparated v rules k cs (n + 1) found' := by
  have hLength := length_round hRound
  refine ⟨Nat.succ_pos n, h.follow.round hRules hRound, ?_⟩
  intro i j c f' other' hOther hc hf' hOther' p hp q hq hLe hBoth
  obtain ⟨f, hf⟩ := exists_getElem?_of_length hLength hf'
  obtain ⟨other, hj⟩ := exists_getElem?_of_length hLength hOther'
  obtain ⟨d, hd⟩ := exists_getElem?_of_length h.follow.length hj
  have hFollows := h.follow.each i c f hc hf
  have hOtherFollows := h.follow.each j d other hd hj
  have hKnown := hq.of_settles hOtherFollows (settles_round hRound hj hOther')
  rcases (settles_round hRound hf hf').begun p hp with hp | ⟨r, hr, hFinal, rfl⟩
  · have hShort := hFollows.short p hp
    refine h.apart i j c f other hOther hc hf hj p hp _ hKnown ?_ ?_
    · rw [List.length_take]
      omega
    · rwa [List.take_take, Nat.min_eq_left (Nat.le_of_lt hShort)]
  · by_cases hEnd : r.rest = []
    · have hSpells := hFollows.spelling r hr [] (hEnd ▸ .refl)
      rw [List.append_nil] at hSpells
      exact .inl hSpells
    · have hFull : r.path.length = n := (hFollows.growing r hr).resolve_right fun h => hEnd h.2
      have hPositive := h.positive
      rw [isFinal, List.isEmpty_eq_false_iff.mpr hEnd, Bool.or_false, Bool.or_eq_true,
        decide_eq_true_iff] at hFinal
      refine .inr (hFinal.elim (fun hUnique => ?_) fun hLong => by omega)
      -- The other alternative would have known the same path before the round.
      rw [hFull] at hLe hBoth
      rcases hKnown with hPath | ⟨s, hs, hSame⟩
      · have hShort := hOtherFollows.short _ hPath
        rw [List.length_take] at hShort
        omega
      · have hApart := isUnique_iff.mp hUnique j other.growing (by rw [List.getElem?_map, hj]; rfl)
          hOther.symm s hs
        rw [hSame, hBoth] at hApart
        cases hApart

theorem AllSeparated.mono (h : AllSeparated v rules k cs n found)
    (hNone : found.all (·.growing.isEmpty) = true) {m : Nat} (hLe : n ≤ m) :
    AllSeparated v rules k cs m found :=
  ⟨Nat.lt_of_lt_of_le h.positive hLe, h.follow.mono hNone hLe, h.apart⟩

end Lookahead

/-- If the same tokens match paths of two continuations, up to the length of the shorter one, both
are as long as the lookahead allows, or the shorter one is all that its continuation derives. -/
def PathsApart (v : Vocabulary) (rules : List Rule) (k : Nat) (cs : List Continuation)
    (result : List (List Path)) : Prop :=
  ∀ (i j : Nat) c ps qs, i ≠ j → cs[i]? = some c → result[i]? = some ps → result[j]? = some qs →
    ∀ p ∈ ps, ∀ q ∈ qs, p.length ≤ q.length →
      (∃ kinds : Nat → TypeId, Decision.matchesPath v kinds 0 p = true ∧
        Decision.matchesPath v kinds 0 (q.take p.length) = true) →
      p.length = max k 1 ∧ q.length = max k 1 ∨ Spells rules c p

/-- Wherever lookahead paths are found, they tell the continuations apart as far as the lookahead goes.
In a grammar of sound structure they are found for all that is made of its productions. -/
theorem paths_apart {v : Vocabulary} {rules : List Rule} {k : Nat} {cs : List Continuation}
    (hRules : AllRules (Production.IsResolved rules) rules)
    (hSound : Structure.errors v rules (.ofRules rules) = [])
    (hcs : ∀ c ∈ cs, Throughout (Production.IsResolved rules) c) :
    ((∀ c ∈ cs, ∀ segment ∈ c, segment.IsPartOf rules) →
      ∃ result, Lookahead.paths? v rules k cs = some result) ∧
    ∀ result, Lookahead.paths? v rules k cs = some result →
      result.length = cs.length ∧ PathsApart v rules k cs result := by
  refine ⟨Lookahead.exists_paths?_of_parts hRules hSound, fun result hResult => ?_⟩
  refine ⟨Lookahead.length_paths? hResult, ?_⟩
  obtain ⟨start, found, hFollow, hNone, hFound, rfl⟩ :=
    Lookahead.follow_of_paths? hRules hcs hResult
  have hStart : Lookahead.AllSeparated v rules k cs 1 start := by
    refine ⟨Nat.one_pos, hFollow, fun i j c f other _ _ hf _ p hp => ?_⟩
    rw [hNone f (List.mem_of_getElem? hf)] at hp
    cases hp
  have hLast := Lookahead.rounds_induct hFound (fun _ _ _ h hRound => h.round hRules hRound)
    (fun _ _ _ hNone hLe h => h.mono hNone hLe) hStart
  rintro i j c ps qs hOther hc hps hqs p hp q hq hLe ⟨kinds, hMatch, hMatch'⟩
  rw [List.getElem?_map] at hps hqs
  obtain ⟨f, hf, rfl⟩ := Option.map_eq_some_iff.mp hps
  obtain ⟨other, hj, rfl⟩ := Option.map_eq_some_iff.mp hqs
  obtain ⟨d, hd⟩ := exists_getElem?_of_length hLast.follow.length hj
  have hLength : p.length = (q.take p.length).length := by
    rw [List.length_take, Nat.min_eq_left hLe]
  have hBoth := Lookahead.overlap_of_matchesPath hLength hMatch hMatch'
  have hShort := (hLast.follow.each j d other hd hj).short q hq
  refine (hLast.apart i j c f other hOther hc hf hj p hp q (.inl hq) hLe hBoth).symm.imp_left ?_
  omega

open Listing in
theorem paths_apart_listing :
    ∃ result, Lookahead.paths? vocabulary lists 3 alternatives = some result ∧ result.length = 2 ∧
      PathsApart vocabulary lists 3 alternatives result := by
  have hResolved : AllRules (Production.IsResolved lists) lists := by decide
  have hSound : Structure.errors vocabulary lists (.ofRules lists) = [] := by decide +kernel
  obtain ⟨hExists, hApart⟩ := paths_apart (k := 3) hResolved hSound fun c hc segment hSegment =>
    (isPartOf_alternatives c hc segment hSegment).inherits hResolved
  obtain ⟨result, hResult⟩ := hExists isPartOf_alternatives
  exact ⟨result, hResult, hApart result hResult⟩

/-- Only where a list goes on is a third token looked at. -/
example : Lookahead.paths? Listing.vocabulary Listing.lists 3 Listing.alternatives =
    some [[[4], [1, 4], [1, 3, 1]], [[2, 4], [2, 3, 1]]] := by decide +kernel

end PredictiveParsing
