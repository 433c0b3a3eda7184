import Std.Data.HashSet.Lemmas
import PredictiveParsing.Regex.Match
import PredictiveParsing.Regex.Normal
import PredictiveParsing.Text.Bytes

/-!
# What an expression matches

An expression matches the texts that it is composed of, wherever they stand: conditions on a place
count as empty. What is found in a text is one of them. A thread has a sequence of expressions left
to match, and no thread that exploration comes to matches more than the one it began from.
-/

namespace PredictiveParsing.Regex

/-- The texts that an expression matches, whatever is around them. -/
inductive Matches : Regex → List Char → Prop
  | empty : Matches .empty []
  | look {condition : Look} : Matches (.look condition) []
  | literal {text : List Char} : Matches (.literal text) text
  | chars {ascii : Bool} {set : CharSet} {c : Char} (h : set.contains c = true) :
    Matches (.chars ascii set) [c]
  | seq {a b : Regex} {u w : List Char} (hFirst : Matches a u) (hSecond : Matches b w) :
    Matches (.seq a b) (u ++ w)
  | altLeft {a b : Regex} {w : List Char} (h : Matches a w) : Matches (.alt a b) w
  | altRight {a b : Regex} {w : List Char} (h : Matches b w) : Matches (.alt a b) w
  | noCopy {body : Regex} {most : Option Nat} {greedy : Bool} :
    Matches (.copies body 0 most greedy) []
  /-- One copy that is required or allowed, and what is then left of the repetition. -/
  | copy {body : Regex} {least : Nat} {most : Option Nat} {greedy : Bool} {u w : List Char}
    (hBound : 0 < least ∨ most ≠ some 0) (hFirst : Matches body u)
    (hFurther : Matches (.copies body (least - 1) (most.map (· - 1)) greedy) w) :
    Matches (.copies body least most greedy) (u ++ w)
  | group {index : Nat} {body : Regex} {w : List Char} (h : Matches body w) :
    Matches (.group index body) w

/-! ## Sequences -/

def MatchesAll : List Regex → List Char → Prop
  | [], w => w = []
  | r :: rs, w => ∃ u v, w = u ++ v ∧ r.Matches u ∧ MatchesAll rs v

variable {r : Regex} {rs : List Regex} {u v w : List Char} {c : Char}

theorem MatchesAll.cons (hFirst : r.Matches u) (hRest : MatchesAll rs v) :
    MatchesAll (r :: rs) (u ++ v) := ⟨u, v, rfl, hFirst, hRest⟩

theorem matchesAll_singleton : MatchesAll [r] w ↔ r.Matches w := by
  constructor
  · rintro ⟨u, v, rfl, hFirst, rfl⟩
    rwa [List.append_nil]
  · intro h
    exact ⟨w, [], (List.append_nil w).symm, h, rfl⟩

theorem matchesAll_append {xs ys : List Regex} :
    MatchesAll (xs ++ ys) w ↔ ∃ u v, w = u ++ v ∧ MatchesAll xs u ∧ MatchesAll ys v := by
  induction xs generalizing w with
  | nil =>
    constructor
    · intro h
      exact ⟨[], w, rfl, rfl, h⟩
    · rintro ⟨u, v, rfl, rfl, h⟩
      exact h
  | cons x xs ih =>
    constructor
    · rintro ⟨u, v, rfl, hFirst, hRest⟩
      obtain ⟨s, t, rfl, hs, ht⟩ := ih.mp hRest
      exact ⟨u ++ s, t, (List.append_assoc u s t).symm, .cons hFirst hs, ht⟩
    · rintro ⟨u, v, rfl, ⟨s, t, rfl, hFirst, hRest⟩, hv⟩
      exact ⟨s, t ++ v, List.append_assoc s t v, hFirst, ih.mpr ⟨t, v, rfl, hRest, hv⟩⟩

theorem matchesAll_parts : MatchesAll r.parts w ↔ r.Matches w := by
  induction r generalizing w with
  | empty =>
    constructor
    · rintro rfl
      exact .empty
    · rintro ⟨⟩
      rfl
  | seq a b _ ihb =>
    constructor
    · rintro ⟨u, v, rfl, hFirst, hRest⟩
      exact .seq hFirst (ihb.mp hRest)
    · intro h
      cases h with
      | seq hFirst hSecond => exact .cons hFirst (ihb.mpr hSecond)
  | look | literal | chars | alt | copies | group => exact matchesAll_singleton

theorem matchesAll_flatMap_parts (rs : List Regex) :
    MatchesAll (rs.flatMap parts) w ↔ MatchesAll rs w := by
  induction rs generalizing w with
  | nil => rfl
  | cons r rs ih =>
    simp only [List.flatMap_cons, matchesAll_append, matchesAll_parts, ih, MatchesAll]

theorem matches_literal_iff {text : List Char} : (literal text).Matches w ↔ w = text := by
  constructor
  · rintro ⟨⟩
    rfl
  · rintro rfl
    exact .literal

theorem matchesAll_joinLiterals (rs : List Regex) :
    MatchesAll (joinLiterals rs) w ↔ MatchesAll rs w := by
  fun_induction joinLiterals rs generalizing w with
  | case1 => rfl
  | case2 s rs t rest hJoined ih =>
    rw [hJoined] at ih
    simp only [MatchesAll, matches_literal_iff, ← ih]
    constructor
    · rintro ⟨x, v, rfl, hJoin, hRest⟩
      exact ⟨s, t ++ v, by rw [hJoin, List.append_assoc], rfl, t, v, rfl, rfl, hRest⟩
    · rintro ⟨x, y, rfl, hx, z, v, rfl, hz, hRest⟩
      exact ⟨s ++ t, v, by rw [hx, hz, List.append_assoc], rfl, hRest⟩
  | case3 s rs hOther ih => simp only [MatchesAll, ih]
  | case4 r rs hOther ih => simp only [MatchesAll, ih]

theorem matches_ofParts (rs : List Regex) : (ofParts rs).Matches w ↔ MatchesAll rs w := by
  fun_induction ofParts rs generalizing w with
  | case1 => exact matchesAll_parts (r := .empty).symm
  | case2 r => exact matchesAll_singleton.symm
  | case3 r rs hMore ih =>
    simp only [MatchesAll, ← ih]
    constructor
    · intro h
      cases h with
      | seq hFirst hSecond => exact ⟨_, _, rfl, hFirst, hSecond⟩
    · rintro ⟨u, v, rfl, hFirst, hSecond⟩
      exact .seq hFirst hSecond

theorem matches_sequence (rs : List Regex) : (sequence rs).Matches w ↔ MatchesAll rs w := by
  rw [sequence, matches_ofParts, matchesAll_joinLiterals, matchesAll_flatMap_parts]

/-! ## Threads -/

namespace Goal

def regex : Goal → Regex
  | .expression r _ => r
  | .more body greedy _ => .copies body 0 none greedy

end Goal

namespace Thread

def Matches (t : Thread) (w : List Char) : Prop := MatchesAll (t.map Goal.regex) w

variable {t : Thread} {ts : List Thread} {goal : Goal}

theorem mem_prefer {greedy : Bool} {copy leave u : Thread} :
    u ∈ prefer greedy copy leave ↔ u = copy ∨ u = leave := by
  cases greedy with
  | false => simp [prefer, or_comm]
  | true => simp [prefer]

theorem Matches.head_mono {goal' : Goal} (h : Thread.Matches (goal :: t) w)
    (hGoal : ∀ u, goal.regex.Matches u → goal'.regex.Matches u) :
    Thread.Matches (goal' :: t) w := by
  obtain ⟨u, v, rfl, hFirst, hRest⟩ := h
  exact ⟨u, v, rfl, hGoal u hFirst, hRest⟩

section Unfolding

variable {body : Regex} {least mark mark' : Nat} {most : Option Nat} {greedy : Bool}
  {rest s : Thread}

theorem matches_copy {again : Goal}
    (hAgain : again.regex = .copies body (least - 1) (most.map (· - 1)) greedy)
    (hBound : 0 < least ∨ most ≠ some 0)
    (h : Thread.Matches (.expression body mark' :: again :: rest) w) :
    Thread.Matches (.expression (.copies body least most greedy) mark :: rest) w := by
  obtain ⟨u, _, rfl, hFirst, x, v, rfl, hFurther, hRest⟩ := h
  rw [hAgain] at hFurther
  exact ⟨u ++ x, v, (List.append_assoc u x v).symm, .copy hBound hFirst hFurther, hRest⟩

theorem matches_noCopy (h : rest.Matches w) :
    Thread.Matches (.expression (.copies body 0 most greedy) mark :: rest) w :=
  ⟨[], w, rfl, .noCopy, h⟩

/-- A repetition turns into a copy with further ones behind it, or is left where there may be no
copies. -/
theorem matches_of_mem_unfoldCopies (hs : s ∈ unfoldCopies body least most greedy mark rest)
    (h : s.Matches w) :
    Thread.Matches (.expression (.copies body least most greedy) mark :: rest) w := by
  match least, most with
  | 0, some 0 =>
    obtain rfl := List.mem_singleton.mp hs
    exact matches_noCopy h
  | 0, some (m + 1) =>
    rcases mem_prefer.mp hs with rfl | rfl
    · exact matches_copy rfl (.inr (by simp)) h
    · exact matches_noCopy h
  | n + 1, some m =>
    obtain rfl := List.mem_singleton.mp hs
    exact matches_copy rfl (.inl (Nat.succ_pos n)) h
  | 0, none =>
    rw [unfoldCopies] at hs
    split at hs
    · obtain rfl := List.mem_singleton.mp hs
      exact h
    · rcases mem_prefer.mp hs with rfl | rfl
      · exact matches_copy rfl (.inr (by simp)) h
      · exact matches_noCopy h
  | 1, none =>
    obtain rfl := List.mem_singleton.mp hs
    exact matches_copy rfl (.inl Nat.one_pos) h
  | n + 2, none =>
    obtain rfl := List.mem_singleton.mp hs
    exact matches_copy rfl (.inl (Nat.succ_pos _)) h

theorem matches_of_unfold?_expression {r : Regex}
    (hUnfold : Thread.unfold? (.expression r mark :: rest) = some ts) (hs : s ∈ ts)
    (h : s.Matches w) : Thread.Matches (.expression r mark :: rest) w := by
  cases r with
  | empty =>
    cases hUnfold
    obtain rfl := List.mem_singleton.mp hs
    exact ⟨[], w, rfl, .empty, h⟩
  | look condition => cases hUnfold
  | literal text =>
    cases text with
    | nil =>
      cases hUnfold
      obtain rfl := List.mem_singleton.mp hs
      exact ⟨[], w, rfl, .literal, h⟩
    | cons c text => cases hUnfold
  | chars ascii set => cases hUnfold
  | seq a b =>
    cases hUnfold
    obtain rfl := List.mem_singleton.mp hs
    obtain ⟨u, _, rfl, hFirst, x, v, rfl, hSecond, hRest⟩ := h
    exact ⟨u ++ x, v, (List.append_assoc u x v).symm, .seq hFirst hSecond, hRest⟩
  | alt a b =>
    cases hUnfold
    simp only [List.mem_cons, List.not_mem_nil, or_false] at hs
    rcases hs with rfl | rfl
    · exact h.head_mono fun _ => .altLeft
    · exact h.head_mono fun _ => .altRight
  | copies body least most greedy =>
    cases hUnfold
    exact matches_of_mem_unfoldCopies hs h
  | group index body =>
    cases hUnfold
    obtain rfl := List.mem_singleton.mp hs
    exact h.head_mono fun _ => .group

theorem matches_of_unfold? (hUnfold : t.unfold? = some ts) (hs : s ∈ ts) (h : s.Matches w) :
    t.Matches w := by
  match t with
  | [] => cases hUnfold
  | .more body greedy mark :: rest =>
    cases hUnfold
    have hCopies : Thread.Matches (.expression (.copies body 0 none greedy) mark :: rest) w := by
      rcases mem_prefer.mp hs with rfl | rfl
      · exact matches_copy rfl (.inr (by simp)) h
      · exact matches_noCopy h
    exact hCopies
  | .expression r mark :: rest => exact matches_of_unfold?_expression hUnfold hs h

theorem matches_of_condition? {condition : Look} (hLook : t.condition? = some (condition, rest))
    (h : rest.Matches w) : t.Matches w := by
  unfold condition? at hLook
  split at hLook
  · cases hLook
    exact ⟨[], w, rfl, .look, h⟩
  · cases hLook

theorem matches_of_read? (hRead : t.read? c = some s) (h : s.Matches w) : t.Matches (c :: w) := by
  unfold read? at hRead
  split at hRead
  · next x text mark rest =>
    split at hRead
    · next hx =>
      cases hRead
      obtain ⟨u, v, rfl, hFirst, hRest⟩ := h
      obtain rfl := matches_literal_iff.mp hFirst
      exact ⟨c :: u, v, rfl, hx ▸ .literal, hRest⟩
    · cases hRead
  · split at hRead
    · next hSet =>
      cases hRead
      exact ⟨[c], w, rfl, .chars hSet, h⟩
    · cases hRead
  · cases hRead

end Unfolding

end Thread

/-! ## Exploration -/

def AnyMatches (ts : List Thread) (w : List Char) : Prop := ∃ t ∈ ts, t.Matches w

section Exploration

variable {passes : Look → Bool} {ts : List Thread}

theorem anyMatches_exploreFrom {fuel : Nat} {todo found : List Thread} {visited : Std.HashSet Nat}
    (h : AnyMatches (exploreFrom passes fuel todo visited found) w) :
    AnyMatches todo w ∨ AnyMatches found w := by
  induction fuel generalizing todo visited found with
  | zero => exact .inr h
  | succ fuel ih =>
    cases todo with
    | nil => exact .inr h
    | cons t todo =>
      have hLater (hMore : AnyMatches todo w) : AnyMatches (t :: todo) w := by
        obtain ⟨s, hs, hMatch⟩ := hMore
        exact ⟨s, List.mem_cons_of_mem t hs, hMatch⟩
      have hHere (hMatch : t.Matches w) : AnyMatches (t :: todo) w :=
        ⟨t, List.mem_cons_self, hMatch⟩
      -- A thread that is kept is one of those that were there before.
      have hKept (hMore : AnyMatches todo w ∨ AnyMatches (t :: found) w) :
          AnyMatches (t :: todo) w ∨ AnyMatches found w := by
        rcases hMore with hTodo | ⟨s, hs, hMatch⟩
        · exact .inl (hLater hTodo)
        · rcases List.mem_cons.mp hs with rfl | hs
          · exact .inl (hHere hMatch)
          · exact .inr ⟨s, hs, hMatch⟩
      rw [exploreFrom] at h
      split at h
      · exact (ih h).imp_left hLater
      · split at h
        · next threads hUnfold =>
          refine (ih h).imp_left fun hMore => ?_
          obtain ⟨s, hs, hMatch⟩ := hMore
          rcases List.mem_append.mp hs with hNew | hOld
          · exact hHere (Thread.matches_of_unfold? hUnfold hNew hMatch)
          · exact hLater ⟨s, hOld, hMatch⟩
        · split at h
          · next condition rest hLook =>
            split at h
            · rcases ih h with ⟨s, hs, hMatch⟩ | hFound
              · rcases List.mem_cons.mp hs with rfl | hs
                · exact .inl (hHere (Thread.matches_of_condition? hLook hMatch))
                · exact .inl (hLater ⟨s, hs, hMatch⟩)
              · exact hKept (.inr hFound)
            · exact hKept (ih h)
          · exact hKept (ih h)

theorem anyMatches_explore {bound : Nat} (h : AnyMatches (explore bound passes ts) w) :
    AnyMatches ts w := by
  obtain ⟨s, hs, hMatch⟩ := h
  rcases anyMatches_exploreFrom ⟨s, List.mem_reverse.mp hs, hMatch⟩ with hTodo | ⟨_, hNone, _⟩
  · exact hTodo
  · cases hNone

theorem anyMatches_threadsAt {mode : Mode} {bound : Nat} {p : Place}
    (h : AnyMatches (threadsAt mode bound p ts) w) : AnyMatches ts w := by
  unfold threadsAt at h
  split at h
  · exact anyMatches_explore h
  · simp only at h
    split at h
    · exact anyMatches_explore (anyMatches_explore h)
    · exact anyMatches_explore h

theorem anyMatches_nil (h : ts.any List.isEmpty = true) : AnyMatches ts [] := by
  obtain ⟨t, ht, hEmpty⟩ := List.any_eq_true.mp h
  exact ⟨t, ht, List.isEmpty_iff.mp hEmpty ▸ rfl⟩

end Exploration

/-! ## Exploration with a list

Places that were visited can as well be kept in a list, which a proof can evaluate.
-/

def Thread.meetListed (visited : List Nat) : Thread → Bool × List Nat
  | [] => (false, visited)
  | goal :: _ =>
    match goal.mark? with
    | none => (false, visited)
    | some mark => (visited.contains mark, mark :: visited)

/-- Exploration that keeps the visited places in a list. -/
def exploreListed (passes : Look → Bool) :
    Nat → List Thread → List Nat → List Thread → List Thread
  | 0, _, _, found => found
  | _, [], _, found => found
  | fuel + 1, t :: todo, visited, found =>
    match t.meetListed visited with
    | (true, visited) => exploreListed passes fuel todo visited found
    | (false, visited) =>
      match t.unfold? with
      | some threads => exploreListed passes fuel (threads ++ todo) visited found
      | none =>
        let todo := match t.condition? with
          | some (condition, rest) => if passes condition then rest :: todo else todo
          | none => todo
        exploreListed passes fuel todo visited (t :: found)

section Listed

variable {passes : Look → Bool} {visited : Std.HashSet Nat} {listed : List Nat}

theorem Thread.meet_eq (t : Thread) (h : ∀ m, visited.contains m = listed.contains m) :
    (t.meet visited).1 = (t.meetListed listed).1 ∧
      ∀ m, (t.meet visited).2.contains m = (t.meetListed listed).2.contains m := by
  cases t with
  | nil => exact ⟨rfl, h⟩
  | cons goal rest =>
    rw [meet, meetListed]
    cases goal.mark? with
    | none => exact ⟨rfl, h⟩
    | some mark =>
      refine ⟨?_, fun m => ?_⟩
      · rw [Std.HashSet.containsThenInsert_fst, h]
      · rw [Std.HashSet.containsThenInsert_snd, Std.HashSet.contains_insert, List.contains_cons, h,
          Bool.beq_comm]

theorem exploreFrom_eq {fuel : Nat} {todo found : List Thread}
    (h : ∀ m, visited.contains m = listed.contains m) :
    exploreFrom passes fuel todo visited found = exploreListed passes fuel todo listed found := by
  induction fuel generalizing todo visited listed found with
  | zero => rfl
  | succ fuel ih =>
    cases todo with
    | nil => rfl
    | cons t todo =>
      obtain ⟨hMet, hVisited⟩ := t.meet_eq h
      rw [exploreFrom, exploreListed]
      rcases hMeet : t.meet visited with ⟨isMet, visited'⟩
      rcases hListed : t.meetListed listed with ⟨isMet', listed'⟩
      rw [hMeet, hListed] at hMet hVisited
      cases hMet
      cases isMet with
      | true => exact ih hVisited
      | false =>
        cases t.unfold? with
        | some threads => exact ih hVisited
        | none => exact ih hVisited

theorem explore_eq (bound : Nat) (ts : List Thread) :
    explore bound passes ts = (exploreListed passes (bound + ts.length) ts [] []).reverse := by
  rw [explore, exploreFrom_eq fun m => ?_]
  exact Std.HashSet.contains_empty

end Listed

/-! ## What is found -/

variable {mode : Mode} {bound consumed n : Nat} {before : Option Char} {atMatch : Bool}
  {found : Option Nat} {ts : List Thread} {text : List Char}

/-- What is found in a text ends behind a part of it that one of the threads matches. -/
theorem exists_matches_of_follow
    (h : follow mode bound ts before consumed atMatch found text = some (some n)) :
    found = some n ∨ ∃ front behind, text = front ++ behind ∧
      n = consumed + Text.byteLength front ∧ AnyMatches ts front := by
  induction text generalizing ts before consumed atMatch found with
  | nil =>
    rw [follow] at h
    simp only [Option.some.injEq] at h
    split at h
    · next hMatch =>
      cases h
      exact .inr ⟨[], [], rfl, rfl, anyMatches_threadsAt (anyMatches_nil hMatch)⟩
    · exact .inl h
  | cons c text ih =>
    rw [follow] at h
    simp only at h
    split at h
    · exact .inl (Option.some.inj h)
    · split at h
      · cases h
      · rcases ih h with hFound | ⟨front, behind, rfl, rfl, u, hu, hMatch⟩
        · split at hFound
          · next hMatch =>
            cases hFound
            exact .inr ⟨[], _, rfl, rfl, anyMatches_threadsAt (anyMatches_nil hMatch)⟩
          · exact .inl hFound
        · obtain ⟨t, ht, hRead⟩ := List.mem_filterMap.mp hu
          refine .inr ⟨c :: front, behind, rfl, ?_, ?_⟩
          · rw [Text.byteLength_cons, Nat.add_assoc]
          · exact anyMatches_threadsAt
              ⟨t, (List.takeWhile_sublist _).subset ht, Thread.matches_of_read? hRead hMatch⟩

theorem exists_matches_of_match? (h : r.match? text = some n) :
    ∃ front behind, text = front ++ behind ∧ n = Text.byteLength front ∧ r.Matches front := by
  have hStart {mode : Mode}
      (h : follow mode r.explorationBound [[.expression r 0]] none 0 false none text =
        some (some n)) :
      ∃ front behind, text = front ++ behind ∧ n = Text.byteLength front ∧ r.Matches front := by
    rcases exists_matches_of_follow h with hNone | ⟨front, behind, rfl, rfl, t, ht, hMatch⟩
    · cases hNone
    · obtain rfl := List.mem_singleton.mp ht
      exact ⟨front, behind, rfl, Nat.zero_add _, matchesAll_singleton.mp hMatch⟩
  unfold match? at h
  simp only at h
  split at h
  · next hFound => exact hStart (hFound.trans (congrArg some h))
  · cases hFound : follow .atOnce r.explorationBound [[.expression r 0]] none 0 false none text with
    | none =>
      rw [hFound] at h
      cases h
    | some found =>
      rw [hFound] at h
      exact hStart (hFound.trans (congrArg some h))

end PredictiveParsing.Regex
