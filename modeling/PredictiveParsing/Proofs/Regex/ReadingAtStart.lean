import PredictiveParsing.Pattern.Library
import PredictiveParsing.Proofs.Regex.Closed
import PredictiveParsing.Regex.Reader

/-!
# Expressions at the start of a text

An expression is matched as a group at the start of the text. Within the group it is read as it is
by itself, if the group is read at all: the readers leave the closing parenthesis where it is, but
for a comment at the end of the expression, which takes it away.
-/

namespace PredictiveParsing.Regex

variable {flags : Flags} {cs rest : List Char} {c : Char}

/-! ## Repetitions -/

theorem dropWhile_closed {p : Char → Bool} (h : cs.dropWhile p = c :: rest) :
    (cs ++ [')']).dropWhile p = c :: (rest ++ [')']) := by
  rw [List.dropWhile_append, h]
  rfl

theorem readCount?_closed {n : Nat} (h : readCount? cs = some (n, c :: rest)) :
    readCount? (cs ++ [')']) = some (n, c :: (rest ++ [')'])) := by
  unfold readCount? at h ⊢
  cases hSpan : (cs.dropWhile isBlank).span Char.isDigit with
  | mk digits left =>
    rw [hSpan] at h
    cases digits with
    | nil => cases h
    | cons d ds =>
      simp only at h
      split at h
      · next hSmall =>
        obtain ⟨rfl, hLeft⟩ := Prod.mk.inj (Option.some.inj h)
        cases hDrop : cs.dropWhile isBlank with
        | nil =>
          rw [hDrop] at hSpan
          cases hSpan
        | cons x xs =>
          cases left with
          | nil => cases hLeft
          | cons e es =>
            rw [hDrop] at hSpan
            rw [dropWhile_closed hDrop, ← List.cons_append, span_closed hSpan]
            simp only [hSmall, if_true]
            rw [← List.cons_append, dropWhile_closed hLeft]
      · cases h

theorem readBounds?_closed {least : Nat} {most : Option Nat}
    (h : readBounds? flags cs = some (least, most, rest)) :
    ∃ behind, rest = flags.skip behind ∧
      readBounds? flags (cs ++ [')']) = some (least, most, flags.skip (behind ++ [')'])) := by
  unfold readBounds? at h ⊢
  simp only [Option.bind_eq_bind, Option.bind_eq_some_iff] at h
  obtain ⟨⟨n, left⟩, hCount, h⟩ := h
  have hMore : flags.skip cs ≠ [] := by
    intro hNil
    rw [hNil] at hCount
    cases hCount
  rw [skip_append hMore]
  simp only [Option.bind_eq_bind] at h ⊢
  split at h
  · next behind =>
    rw [readCount?_closed hCount]
    cases h
    exact ⟨behind, rfl, rfl⟩
  · next behind =>
    rw [readCount?_closed hCount]
    simp only [Option.bind_some]
    split at h
    · next behind' hSkip =>
      rw [skip_closed hSkip]
      cases h
      exact ⟨behind', rfl, rfl⟩
    · next hOther =>
      simp only [Option.bind_eq_some_iff] at h
      obtain ⟨⟨k, left'⟩, hCount', h⟩ := h
      simp only at h
      split at h
      · next behind' =>
        split at h
        · next hLe =>
          cases h
          refine ⟨behind', rfl, ?_⟩
          have hMore' : flags.skip behind ≠ [] := by
            intro hNil
            rw [hNil] at hCount'
            cases hCount'
          rw [skip_append hMore']
          split
          · next hEq =>
            exact absurd (head_of_closed hEq (by decide)).choose_spec (hOther _)
          · simp only [readCount?_closed hCount', Option.bind_some, hLe, if_true]
            rfl
        · cases h
      · cases h
  · cases h

theorem readRepetition?_none_closed (h : readRepetition? flags (c :: cs) = none) :
    readRepetition? flags (c :: (cs ++ [')'])) = none := by
  unfold readRepetition? at h ⊢
  rw [Option.map_eq_none_iff] at h ⊢
  split at h
  case h_5 hStar hPlus hMark hBrace =>
    split
    case h_5 => rfl
    case h_1 hEq => exact absurd (List.cons.inj hEq).1 fun hc => hStar cs (by rw [hc])
    case h_2 hEq => exact absurd (List.cons.inj hEq).1 fun hc => hPlus cs (by rw [hc])
    case h_3 hEq => exact absurd (List.cons.inj hEq).1 fun hc => hMark cs (by rw [hc])
    case h_4 hEq => exact absurd (List.cons.inj hEq).1 fun hc => hBrace cs (by rw [hc])
  all_goals cases h

def Flags.withGreed (flags : Flags) (least : Nat) (most : Option Nat) :
    List Char → Nat × Option Nat × Bool × List Char
  | '?' :: rest => (least, most, flags.swapGreed, rest)
  | rest => (least, most, !flags.swapGreed, rest)

theorem withGreed_closed {least least' : Nat} {most most' : Option Nat} {greedy : Bool}
    (h : flags.withGreed least most cs = (least', most', greedy, rest)) :
    flags.withGreed least most (cs ++ [')']) = (least', most', greedy, rest ++ [')']) := by
  cases cs with
  | nil =>
    cases h
    rfl
  | cons d ds =>
    by_cases hd : d = '?'
    · subst hd
      cases h
      rfl
    · simp only [Flags.withGreed, List.cons.injEq, hd, false_and, imp_false, not_false_eq_true,
        implies_true, List.cons_append] at h ⊢
      cases h
      rfl

theorem readRepetition?_closed {least : Nat} {most : Option Nat} {greedy : Bool}
    (h : readRepetition? flags cs = some (some (least, most, greedy, rest))) :
    readRepetition? flags (cs ++ [')']) = some (some (least, most, greedy, rest ++ [')'])) ∨
      readRepetition? flags (cs ++ [')']) = some (some (least, most, greedy, [])) := by
  unfold readRepetition? at h
  obtain ⟨bounds?, hBounds, h⟩ := Option.map_eq_some_iff.mp h
  obtain ⟨⟨l, m, left⟩, rfl, hGreed⟩ := Option.map_eq_some_iff.mp h
  replace hGreed : flags.withGreed l m left = (least, most, greedy, rest) := hGreed
  split at hBounds
  case h_5 => cases hBounds
  case h_4 inner =>
    obtain ⟨behind, rfl, hRead⟩ := readBounds?_closed (Option.some.inj hBounds)
    have hClosed : readRepetition? flags ('\x7b' :: inner ++ [')']) =
        some (some (flags.withGreed l m (flags.skip (behind ++ [')'])))) :=
      congrArg (some ∘ Option.map _) hRead
    rw [hClosed]
    cases hSkip : flags.skip behind with
    | nil =>
      rw [hSkip] at hGreed
      rcases skip_end hSkip with hEnd | hEnd
      · rw [hEnd]
        cases hGreed
        exact .inr rfl
      · rw [hEnd]
        exact .inl (congrArg (some ∘ some) (withGreed_closed hGreed))
    | cons d ds =>
      rw [hSkip] at hGreed
      rw [skip_closed hSkip]
      exact .inl (congrArg (some ∘ some) (withGreed_closed hGreed))
  all_goals
    cases hBounds
    exact .inl (congrArg (some ∘ some) (withGreed_closed hGreed))

/-! ## Groups -/

theorem readName?_closed {name : List Char} (h : readName? cs = some (name, rest)) :
    readName? (cs ++ [')']) = some (name, rest ++ [')']) := by
  unfold readName? at h ⊢
  simp only at h ⊢
  split at h
  · next hSpan =>
    rw [span_closed hSpan]
    simp only
    split at h
    · next hName =>
      rw [if_pos hName]
      cases h
      rfl
    · cases h
  · cases h

def Source.closed (src : Source) : Source := { src with rest := src.rest ++ [')'] }

def Opening.closed : Opening → Opening
  | .numbered src => .numbered src.closed
  | .plain src => .plain src.closed
  | .flagsOnly src => .flagsOnly src.closed

def readNewGroup? (src : Source) (cs : List Char) : Option Opening :=
  (readName? cs).bind fun (name, rest) =>
    if src.names.contains name then none
    else some (.numbered ⟨rest, src.flags, src.groups + 1, name :: src.names⟩)

theorem readNewGroup?_closed {src : Source} {o : Opening} (h : readNewGroup? src cs = some o) :
    readNewGroup? src (cs ++ [')']) = some o.closed := by
  obtain ⟨⟨name, left⟩, hName, h⟩ := Option.bind_eq_some_iff.mp h
  rw [readNewGroup?, readName?_closed hName, Option.bind_some]
  simp only at h ⊢
  split at h
  · cases h
  · next hNew =>
    rw [if_neg hNew]
    cases h
    rfl

/-- Flags for the group that they begin, or for what is behind them. -/
def readFlagGroup? (src : Source) (cs : List Char) : Option Opening :=
  match src.flags.read? cs with
  | some (flags, ':' :: rest) => some (.plain { src with rest, flags })
  | some (flags, ')' :: rest) =>
    if cs.head? = some ')' then none else some (.flagsOnly { src with rest, flags })
  | _ => none

theorem readFlagGroup?_closed {src : Source} {o : Opening} (h : readFlagGroup? src cs = some o) :
    readFlagGroup? src.closed (cs ++ [')']) = some o.closed := by
  unfold readFlagGroup? at h ⊢
  split at h
  · next hFlags =>
    have hClosed : src.closed.flags.read? (cs ++ [')']) = _ := readFlags_closed hFlags
    cases h
    rw [hClosed]
    rfl
  · next hFlags =>
    have hClosed : src.closed.flags.read? (cs ++ [')']) = _ := readFlags_closed hFlags
    rw [hClosed]
    split at h
    · cases h
    · next hHead =>
      have hHead' : (cs ++ [')']).head? ≠ some ')' := by
        cases cs with
        | nil => cases hFlags
        | cons d ds => exact hHead
      cases h
      exact if_neg hHead'
  · cases h

theorem readOpeningOf?_closed {src : Source} {o : Opening} (h : readOpeningOf? src cs = some o)
    (hMore : src.flags.skip cs ≠ []) :
    readOpeningOf? src.closed (cs ++ [')']) = some o.closed := by
  have hSkip : src.closed.flags.skip (cs ++ [')']) = src.flags.skip cs ++ [')'] := skip_append hMore
  unfold readOpeningOf? at h ⊢
  rw [hSkip]
  simp only [Option.bind_eq_bind] at h ⊢
  split at h
  case h_1 inner hEq =>
    rw [hEq]
    exact readNewGroup?_closed h
  case h_2 => cases h
  case h_3 => cases h
  case h_4 inner hNotBehind hNotBefore hEq =>
    rw [hEq]
    split
    case h_4 hEq' =>
      cases hEq'
      exact readNewGroup?_closed h
    case h_2 hEq' =>
      exact absurd (head_of_closed (List.cons.inj (List.cons.inj hEq').2).2 (by decide)).choose_spec
        (hNotBehind _)
    case h_3 hEq' =>
      exact absurd (head_of_closed (List.cons.inj (List.cons.inj hEq').2).2 (by decide)).choose_spec
        (hNotBefore _)
    case h_1 hEq' => cases (List.cons.inj (List.cons.inj hEq').2).1
    case h_5 hNotAngle hEq' =>
      cases hEq'
      exact absurd rfl (hNotAngle _)
    case h_6 hNotGroup _ => exact absurd rfl (hNotGroup _)
  case h_5 inner hNotP hNotBehind hNotBefore hNotAngle hEq =>
    rw [hEq]
    split
    case h_5 hEq' =>
      cases hEq'
      exact readFlagGroup?_closed h
    case h_1 hEq' =>
      exact absurd (heads_of_closed (List.cons.inj hEq').2 (by decide) (by decide)).choose_spec
        (hNotP _)
    case h_2 hEq' =>
      exact absurd (head_of_closed (List.cons.inj hEq').2 (by decide)).choose_spec (hNotAngle _)
    case h_3 hEq' =>
      exact absurd (head_of_closed (List.cons.inj hEq').2 (by decide)).choose_spec (hNotAngle _)
    case h_4 hEq' =>
      exact absurd (head_of_closed (List.cons.inj hEq').2 (by decide)).choose_spec (hNotAngle _)
    case h_6 hNotGroup => exact absurd rfl (hNotGroup _)
  case h_6 hNotGroup =>
    cases h
    split
    case h_6 => rfl
    all_goals
      next hEq' => exact absurd (head_of_closed hEq' (by decide)).choose_spec (hNotGroup _)

/-! ## Atoms -/

/-- An atom is read alike with the parenthesis behind it, which is left. -/
theorem readAtom?_closed {atom atom' : Nested} {rest' : List Char}
    (h : readAtom? flags cs = some (atom, rest))
    (h' : readAtom? flags (cs ++ [')']) = some (atom', rest')) :
    atom' = atom ∧ rest' = rest ++ [')'] := by
  unfold readAtom? at h
  split at h
  case h_1 => cases h
  case h_2 inner =>
    obtain ⟨⟨set, left⟩, hSet, h⟩ := Option.bind_eq_some_iff.mp h
    obtain ⟨⟨set', left'⟩, hSet', h'⟩ := Option.bind_eq_some_iff.mp h'
    obtain ⟨rfl, rfl⟩ := (classesClosed _ _).whole hSet hSet'
    cases h
    cases h'
    exact ⟨rfl, rfl⟩
  case h_3 inner =>
    obtain ⟨any, hAny, h⟩ := Option.bind_eq_some_iff.mp h
    obtain ⟨any', hAny', h'⟩ := Option.bind_eq_some_iff.mp h'
    cases hAny.symm.trans hAny'
    cases h
    cases h'
    exact ⟨rfl, rfl⟩
  case h_4 | h_5 =>
    cases h
    cases h'
    exact ⟨rfl, rfl⟩
  case h_6 inner =>
    obtain ⟨⟨escaped, left⟩, hEscape, h⟩ := Option.bind_eq_some_iff.mp h
    obtain ⟨⟨escaped', left'⟩, hEscape', h'⟩ := Option.bind_eq_some_iff.mp h'
    cases (readEscape?_closed hEscape).symm.trans hEscape'
    obtain ⟨part, hPart, h⟩ := Option.bind_eq_some_iff.mp h
    obtain ⟨part', hPart', h'⟩ := Option.bind_eq_some_iff.mp h'
    cases hPart.symm.trans hPart'
    cases h
    cases h'
    exact ⟨rfl, rfl⟩
  case h_7 c left hBracket hDot hCaret hDollar hSlash =>
    rw [List.cons_append, readAtom?.eq_7 flags c (left ++ [')']) hBracket hDot hCaret hDollar hSlash]
      at h'
    cases h
    cases h'
    exact ⟨rfl, rfl⟩

/-! ## Expressions -/

theorem readSequence?_nil {n : Nat} {done : Parts} {src out : Source} {r : Nested}
    (hNil : src.rest = []) (h : readSequence? n done src = some (r, out)) :
    r = done.toNested ∧ out.rest = [] := by
  cases n with
  | zero =>
    rw [readSequence?] at h
    cases h
  | succ n =>
    rw [readSequence?, hNil, skip_nil] at h
    cases h
    exact ⟨rfl, rfl⟩

theorem readGroup?_nil (n : Nat) (flags : Flags) {src : Source} (hNil : src.rest = []) :
    readGroup? n flags src = none := by
  cases n with
  | zero => rw [readGroup?]
  | succ n =>
    rw [readGroup?]
    cases n with
    | zero =>
      rw [readChoice?]
      rfl
    | succ n =>
      rw [readChoice?]
      cases hSequence : readSequence? n [] src with
      | none => rfl
      | some found =>
        obtain ⟨r, out⟩ := found
        obtain ⟨-, hOut⟩ := readSequence?_nil hNil hSequence
        simp only [Option.bind_eq_bind, Option.bind_some, Option.pure_def, hOut]

/-- What is read of an expression is read with the parenthesis behind it too, which is left then, or
else nothing is. -/
structure ExpressionsClosed (n : Nat) : Prop where
  choice {m : Nat} {done : List Nested} {src out out' : Source} {r r' : Nested}
    (h : readChoice? n done src = some (r, out))
    (h' : readChoice? m done src.closed = some (r', out')) :
    out'.rest = [] ∨ r' = r ∧ out' = out.closed
  sequence {m : Nat} {done : Parts} {src out out' : Source} {r r' : Nested}
    (h : readSequence? n done src = some (r, out))
    (h' : readSequence? m done src.closed = some (r', out')) :
    out'.rest = [] ∨ r' = r ∧ out' = out.closed
  parenthesis {m : Nat} {done : Parts} {src out out' : Source} {cs : List Char} {r r' : Nested}
    (h : readParenthesis? n done src cs = some (r, out))
    (h' : readParenthesis? m done src.closed (cs ++ [')']) = some (r', out')) :
    out'.rest = [] ∨ r' = r ∧ out' = out.closed
  group {m : Nat} {flags : Flags} {src out out' : Source} {r r' : Nested}
    (h : readGroup? n flags src = some (r, out))
    (h' : readGroup? m flags src.closed = some (r', out')) : r' = r ∧ out' = out.closed

theorem ExpressionsClosed.choice_succ {n : Nat} (ih : ExpressionsClosed n) {m : Nat}
    {done : List Nested} {src out out' : Source} {r r' : Nested}
    (h : readChoice? (n + 1) done src = some (r, out))
    (h' : readChoice? m done src.closed = some (r', out')) :
    out'.rest = [] ∨ r' = r ∧ out' = out.closed := by
  cases m with
  | zero =>
    rw [readChoice?] at h'
    cases h'
  | succ m =>
    simp only [readChoice?, Option.bind_eq_bind, Option.bind_eq_some_iff] at h h'
    obtain ⟨⟨branch, behind⟩, hBranch, h⟩ := h
    obtain ⟨⟨branch', behind'⟩, hBranch', h'⟩ := h'
    rcases ih.sequence hBranch hBranch' with hEnd | ⟨rfl, rfl⟩
    · simp only [hEnd] at h'
      cases h'
      exact .inl hEnd
    · simp only at h h'
      split at h
      · next left hLeft =>
        have hClosed : behind.closed.rest = '|' :: (left ++ [')']) := by
          rw [Source.closed, hLeft, List.cons_append]
        rw [hClosed] at h'
        exact ih.choice h h'
      · next hNoBar =>
        cases h
        split at h'
        · next hBar => exact absurd (head_of_closed hBar (by decide)).choose_spec (hNoBar _)
        · cases h'
          exact .inr ⟨rfl, rfl⟩

theorem ExpressionsClosed.group_succ {n : Nat} (ih : ExpressionsClosed n) {m : Nat} {flags : Flags}
    {src out out' : Source} {r r' : Nested} (h : readGroup? (n + 1) flags src = some (r, out))
    (h' : readGroup? m flags src.closed = some (r', out')) : r' = r ∧ out' = out.closed := by
  cases m with
  | zero =>
    rw [readGroup?] at h'
    cases h'
  | succ m =>
    simp only [readGroup?, Option.bind_eq_bind, Option.bind_eq_some_iff] at h h'
    obtain ⟨⟨body, behind⟩, hBody, h⟩ := h
    obtain ⟨⟨body', behind'⟩, hBody', h'⟩ := h'
    simp only at h h'
    rcases ih.choice hBody hBody' with hEnd | ⟨rfl, rfl⟩
    · rw [hEnd] at h'
      cases h'
    · split at h
      · next left hLeft =>
        have hClosed : behind.closed.rest = ')' :: (left ++ [')']) := by
          rw [Source.closed, hLeft, List.cons_append]
        rw [hClosed] at h'
        cases h
        cases h'
        exact ⟨rfl, rfl⟩
      · cases h

theorem readParenthesis?_eq_none {n : Nat} {done : Parts} {src : Source}
    (hNil : src.flags.skip cs = []) : readParenthesis? n done src cs = none := by
  have hOpening :
      readOpeningOf? src cs = some (.numbered ⟨[], src.flags, src.groups + 1, src.names⟩) := by
    unfold readOpeningOf?
    rw [hNil]
  cases n with
  | zero => rw [readParenthesis?]
  | succ n =>
    have hGroup : readGroup? n src.flags ⟨[], src.flags, src.groups + 1, src.names⟩ = none :=
      readGroup?_nil n src.flags rfl
    rw [readParenthesis?, hOpening]
    simp only [hGroup, Option.bind_eq_bind, Option.bind_none]

theorem ExpressionsClosed.parenthesis_succ {n : Nat} (ih : ExpressionsClosed n) {m : Nat}
    {done : Parts} {src out out' : Source} {cs : List Char} {r r' : Nested}
    (h : readParenthesis? (n + 1) done src cs = some (r, out))
    (h' : readParenthesis? m done src.closed (cs ++ [')']) = some (r', out')) :
    out'.rest = [] ∨ r' = r ∧ out' = out.closed := by
  have hMore : src.flags.skip cs ≠ [] := fun hNil => by
    rw [readParenthesis?_eq_none hNil] at h
    cases h
  cases m with
  | zero =>
    rw [readParenthesis?] at h'
    cases h'
  | succ m =>
    rw [readParenthesis?] at h h'
    split at h
    · cases h
    · next opened hOpening =>
      rw [readOpeningOf?_closed hOpening hMore] at h'
      exact ih.sequence h h'
    all_goals
      next opened hOpening =>
      rw [readOpeningOf?_closed hOpening hMore] at h'
      obtain ⟨⟨body, behind⟩, hBody, h⟩ := Option.bind_eq_some_iff.mp h
      obtain ⟨⟨body', behind'⟩, hBody', h'⟩ := Option.bind_eq_some_iff.mp h'
      obtain ⟨rfl, rfl⟩ := ih.group hBody hBody'
      exact ih.sequence h h'

def readSequenceOn? (fuel : Nat) (done : Parts) (src : Source) (cs : List Char) :
    Option (Nested × Source) :=
  match readRepetition? src.flags cs with
  | some none => none
  | some (some (least, most, greedy, rest)) =>
    match done with
    | (some part, depth) :: done =>
      readSequence? fuel ((some (repetition part least most greedy), depth + 1) :: done)
        { src with rest }
    | _ => none
  | none => (readAtom? src.flags cs).bind fun (atom, rest) =>
    readSequence? fuel ((some atom.expression, atom.depth) :: done) { src with rest }

theorem ExpressionsClosed.sequence_on {n : Nat} (ih : ExpressionsClosed n) {m : Nat}
    {done : Parts} {src out out' : Source} {r r' : Nested}
    (h : readSequenceOn? n done src (c :: cs) = some (r, out))
    (h' : readSequenceOn? m done src.closed (c :: (cs ++ [')'])) = some (r', out')) :
    out'.rest = [] ∨ r' = r ∧ out' = out.closed := by
  unfold readSequenceOn? at h h'
  cases hRead : readRepetition? src.flags (c :: cs) with
  | none =>
    have hRead' : readRepetition? src.closed.flags (c :: (cs ++ [')'])) = none :=
      readRepetition?_none_closed hRead
    rw [hRead] at h
    rw [hRead'] at h'
    obtain ⟨⟨atom, left⟩, hAtom, h⟩ := Option.bind_eq_some_iff.mp h
    obtain ⟨⟨atom', left'⟩, hAtom', h'⟩ := Option.bind_eq_some_iff.mp h'
    obtain ⟨rfl, rfl⟩ := readAtom?_closed hAtom hAtom'
    exact ih.sequence h h'
  | some repetition? =>
    rw [hRead] at h
    cases repetition? with
    | none => cases h
    | some bounds =>
      obtain ⟨least, most, greedy, left⟩ := bounds
      simp only at h
      split at h
      · rcases readRepetition?_closed hRead with hClosed | hClosed
        · have hRead' : readRepetition? src.closed.flags (c :: (cs ++ [')'])) = _ := hClosed
          rw [hRead'] at h'
          exact ih.sequence h h'
        · have hRead' : readRepetition? src.closed.flags (c :: (cs ++ [')'])) = _ := hClosed
          rw [hRead'] at h'
          exact .inl (readSequence?_nil rfl h').2
      · cases h

theorem ExpressionsClosed.sequence_succ {n : Nat} (ih : ExpressionsClosed n) {m : Nat}
    {done : Parts} {src out out' : Source} {r r' : Nested}
    (h : readSequence? (n + 1) done src = some (r, out))
    (h' : readSequence? m done src.closed = some (r', out')) :
    out'.rest = [] ∨ r' = r ∧ out' = out.closed := by
  cases m with
  | zero =>
    rw [readSequence?] at h'
    cases h'
  | succ m =>
    rw [readSequence?] at h h'
    cases hSkip : src.flags.skip src.rest with
    | nil =>
      rw [hSkip] at h
      have hEnd : src.closed.flags.skip src.closed.rest = [] ∨
          src.closed.flags.skip src.closed.rest = [')'] := skip_end hSkip
      cases h
      rcases hEnd with hEnd | hEnd
      · rw [hEnd] at h'
        cases h'
        exact .inl rfl
      · rw [hEnd] at h'
        cases h'
        exact .inr ⟨rfl, rfl⟩
    | cons c cs =>
      have hClosed : src.closed.flags.skip src.closed.rest = c :: (cs ++ [')']) := skip_closed hSkip
      rw [hSkip] at h
      rw [hClosed] at h'
      split at h
      case h_1 hEq => cases hEq
      case h_2 hEq | h_3 hEq =>
        cases hEq
        cases h
        cases h'
        exact .inr ⟨rfl, rfl⟩
      case h_4 hEq =>
        cases hEq
        exact ih.parenthesis h h'
      case h_5 hClose hBar hOpen =>
        split at h'
        case h_1 hEq => cases hEq
        case h_2 hEq => exact (hClose cs (by rw [(List.cons.inj hEq).1])).elim
        case h_3 hEq => exact (hBar cs (by rw [(List.cons.inj hEq).1])).elim
        case h_4 hEq => exact (hOpen cs (by rw [(List.cons.inj hEq).1])).elim
        case h_5 => exact ih.sequence_on h h'

theorem expressionsClosed (n : Nat) : ExpressionsClosed n := by
  induction n with
  | zero =>
    refine ⟨fun h => ?_, fun h => ?_, fun h => ?_, fun h => ?_⟩
    · rw [readChoice?] at h
      cases h
    · rw [readSequence?] at h
      cases h
    · rw [readParenthesis?] at h
      cases h
    · rw [readGroup?] at h
      cases h
  | succ n ih => exact ⟨ih.choice_succ, ih.sequence_succ, ih.parenthesis_succ, ih.group_succ⟩

theorem readSequence?_start {n : Nat} {out : Source} {whole : Nested}
    (h : readSequence? n [] ⟨'\\' :: 'A' :: '(' :: '?' :: ':' :: cs, .initial, 0, []⟩ =
      some (whole, out)) :
    ∃ m body src, readGroup? m .initial ⟨cs, .initial, 0, []⟩ = some (body, src) ∧
      readSequence? m [(some body.expression, body.depth + 1), (some (.look .textStart), 0)] src =
        some (whole, out) := by
  cases n with
  | zero =>
    rw [readSequence?] at h
    cases h
  | succ n =>
    rw [readSequence?] at h
    replace h : readSequence? n [(some (.look .textStart), 0)]
      ⟨'(' :: '?' :: ':' :: cs, .initial, 0, []⟩ = some (whole, out) := h
    cases n with
    | zero =>
      rw [readSequence?] at h
      cases h
    | succ n =>
      rw [readSequence?] at h
      replace h : readParenthesis? n [(some (.look .textStart), 0)]
        ⟨'(' :: '?' :: ':' :: cs, .initial, 0, []⟩ ('?' :: ':' :: cs) = some (whole, out) := h
      cases n with
      | zero =>
        rw [readParenthesis?] at h
        cases h
      | succ n =>
        rw [readParenthesis?] at h
        obtain ⟨⟨body, src⟩, hBody, h⟩ := Option.bind_eq_some_iff.mp h
        exact ⟨n, body, src, hBody, h⟩

/-- An expression that is read to its end is read alike as a group, behind which nothing is left. -/
theorem readGroup?_closed {n m : Nat} {flags : Flags} {src out out' : Source} {body body' : Nested}
    (h : readChoice? n [] src = some (body, out)) (hOut : out.rest = [])
    (h' : readGroup? m flags src.closed = some (body', out')) : body' = body ∧ out'.rest = [] := by
  cases m with
  | zero =>
    rw [readGroup?] at h'
    cases h'
  | succ m =>
    simp only [readGroup?, Option.bind_eq_bind, Option.bind_eq_some_iff] at h'
    obtain ⟨⟨read, behind⟩, hRead, h'⟩ := h'
    simp only at h'
    rcases (expressionsClosed n).choice h hRead with hEnd | ⟨rfl, rfl⟩
    · rw [hEnd] at h'
      cases h'
    · have hClosed : out.closed.rest = [')'] := by rw [Source.closed, hOut, List.nil_append]
      rw [hClosed] at h'
      cases h'
      exact ⟨rfl, rfl⟩

theorem sequence_look (condition : Look) (r : Regex) :
    sequence [.look condition, r] = ofParts (.look condition :: joinLiterals r.parts) := by
  simp only [sequence, List.flatMap_cons, List.flatMap_nil, List.append_nil, parts,
    List.singleton_append, joinLiterals]

theorem choice_sequence_look (condition : Look) (r : Regex) :
    choice [sequence [.look condition, r]] = sequence [.look condition, r] := by
  rw [sequence_look]
  cases joinLiterals r.parts with
  | nil => rfl
  | cons p ps => rfl

/-- At the start of a text an expression is read as it is by itself. -/
theorem read?_atStart {source : String} {r grouped : Regex} (h : read? source = some r)
    (hStart : read? (RegexLibrary.atStart source) = some grouped) :
    grouped = sequence [.look .textStart, r] := by
  have hText : (RegexLibrary.atStart source).toList =
      '\\' :: 'A' :: '(' :: '?' :: ':' :: (source.toList ++ [')']) := by
    simp [RegexLibrary.atStart]
  unfold read? readText? at h hStart
  rw [hText] at hStart
  simp only [Option.bind_eq_bind, Option.bind_eq_some_iff] at h hStart
  obtain ⟨⟨body, out⟩, hBody, h⟩ := h
  obtain ⟨⟨whole, out'⟩, hWhole, hStart⟩ := hStart
  generalize 4 * _ + 4 = n at hWhole
  cases n with
  | zero =>
    rw [readChoice?] at hWhole
    cases hWhole
  | succ n =>
    simp only [readChoice?, Option.bind_eq_bind, Option.bind_eq_some_iff] at hWhole
    obtain ⟨⟨branch, behind⟩, hBranch, hWhole⟩ := hWhole
    obtain ⟨m, body', src, hGroup, hBranch⟩ := readSequence?_start hBranch
    simp only at h hStart
    split at h
    · next hOut =>
      simp only [Bool.and_eq_true, List.isEmpty_iff] at hOut
      obtain ⟨rfl, hSrc⟩ := readGroup?_closed hBody hOut.1 hGroup
      obtain ⟨rfl, hBehind⟩ := readSequence?_nil hSrc hBranch
      simp only [hBehind] at hWhole
      cases hWhole
      split at hStart
      · cases h
        cases hStart
        exact choice_sequence_look .textStart body'.expression
      · cases hStart
    · cases h

end PredictiveParsing.Regex
