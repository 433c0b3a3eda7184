import Mathlib.Data.List.TakeDrop
import Mathlib.Data.List.TakeWhile
import PredictiveParsing.Regex.CharClass

/-!
# Readers with a parenthesis behind

What is read of a text by itself is read of it with a closing parenthesis behind it too, and leaves
the parenthesis where it is. Here this is shown for the readers of the parts that expressions are
made of; at the end of the text a comment takes the parenthesis away.
-/

namespace PredictiveParsing.Regex

variable {flags : Flags} {cs rest : List Char} {c : Char}

/-! ## Blanks and flags -/

theorem dropBlanks_closed {inComment : Bool} (h : dropBlanks inComment cs = c :: rest) :
    dropBlanks inComment (cs ++ [')']) = c :: (rest ++ [')']) := by
  induction cs generalizing inComment with
  | nil => cases h
  | cons d cs ih =>
    rw [dropBlanks] at h
    rw [List.cons_append, dropBlanks]
    split at h
    · next hComment => rw [if_pos hComment, ih h]
    · next hComment =>
      rw [if_neg hComment]
      split at h
      · next hBlank => rw [if_pos hBlank, ih h]
      · next hBlank =>
        rw [if_neg hBlank]
        split at h
        · next hSign => rw [if_pos hSign, ih h]
        · next hSign =>
          rw [if_neg hSign]
          cases h
          rfl

theorem dropBlanks_end {inComment : Bool} (h : dropBlanks inComment cs = []) :
    dropBlanks inComment (cs ++ [')']) = [] ∨ dropBlanks inComment (cs ++ [')']) = [')'] := by
  induction cs generalizing inComment with
  | nil =>
    cases inComment with
    | true => exact .inl rfl
    | false => exact .inr (by decide +kernel)
  | cons d cs ih =>
    rw [dropBlanks] at h
    rw [List.cons_append, dropBlanks]
    split at h
    · next hComment =>
      rw [if_pos hComment]
      exact ih h
    · next hComment =>
      rw [if_neg hComment]
      split at h
      · next hBlank =>
        rw [if_pos hBlank]
        exact ih h
      · next hBlank =>
        rw [if_neg hBlank]
        split at h
        · next hSign =>
          rw [if_pos hSign]
          exact ih h
        · cases h

theorem skip_closed (h : flags.skip cs = c :: rest) :
    flags.skip (cs ++ [')']) = c :: (rest ++ [')']) := by
  unfold Flags.skip at h ⊢
  split at h
  · next hBlanks => rw [if_pos hBlanks, dropBlanks_closed h]
  · next hBlanks => rw [if_neg hBlanks, h, List.cons_append]

theorem skip_end (h : flags.skip cs = []) :
    flags.skip (cs ++ [')']) = [] ∨ flags.skip (cs ++ [')']) = [')'] := by
  unfold Flags.skip at h ⊢
  split at h
  · next hBlanks =>
    rw [if_pos hBlanks]
    exact dropBlanks_end h
  · next hBlanks =>
    rw [if_neg hBlanks, h]
    exact .inr rfl

theorem skip_append (h : flags.skip cs ≠ []) : flags.skip (cs ++ [')']) = flags.skip cs ++ [')'] := by
  cases hSkip : flags.skip cs with
  | nil => exact absurd hSkip h
  | cons d ds => rw [skip_closed hSkip, List.cons_append]

@[simp] theorem skip_nil : flags.skip [] = [] := by
  unfold Flags.skip
  split <;> rfl

theorem length_dropBlanks_le {inComment : Bool} (cs : List Char) :
    (dropBlanks inComment cs).length ≤ cs.length := by
  induction cs generalizing inComment with
  | nil => exact Nat.le_refl _
  | cons d cs ih =>
    rw [dropBlanks]
    split
    · exact Nat.le_succ_of_le ih
    · split
      · exact Nat.le_succ_of_le ih
      · split
        · exact Nat.le_succ_of_le ih
        · exact Nat.le_refl _

theorem length_skip_le (flags : Flags) (cs : List Char) : (flags.skip cs).length ≤ cs.length := by
  unfold Flags.skip
  split
  · exact length_dropBlanks_le cs
  · exact Nat.le_refl _

theorem readFlags_closed {value dangling : Bool} {seen : List Char} {read : Flags}
    (h : Flags.read?.go flags value seen dangling cs = some (read, rest)) :
    Flags.read?.go flags value seen dangling (cs ++ [')']) = some (read, rest ++ [')']) := by
  induction cs generalizing flags value seen dangling with
  | nil => cases h
  | cons d cs ih =>
    rw [Flags.read?.go] at h
    rw [List.cons_append, Flags.read?.go]
    split at h
    · next hEnd =>
      rw [if_pos hEnd]
      split at h
      · cases h
      · next hDangling =>
        rw [if_neg hDangling]
        cases h
        rfl
    · next hEnd =>
      rw [if_neg hEnd]
      split at h
      · next hMinus =>
        rw [if_pos hMinus]
        split at h
        · next hValue => rw [if_pos hValue, ih h]
        · cases h
      · next hMinus =>
        rw [if_neg hMinus]
        split at h
        · cases h
        · next hSeen =>
          rw [if_neg hSeen]
          split at h
          · cases h
          · next hSet => simp only [ih h]

/-! ## Escapes -/

theorem takeChars?_closed {n : Nat} {taken : List Char}
    (h : takeChars? flags n cs = some (taken, rest)) :
    takeChars? flags n (cs ++ [')']) = some (taken, rest ++ [')']) := by
  induction n generalizing cs taken with
  | zero =>
    cases h
    rfl
  | succ n ih =>
    rw [takeChars?] at h
    split at h
    · cases h
    · next d ds hSkip =>
      obtain ⟨⟨taken, rest⟩, hTaken, hEq⟩ := Option.map_eq_some_iff.mp h
      cases hEq
      rw [takeChars?, skip_closed hSkip]
      simp only
      rw [ih hTaken]
      rfl

theorem readRun_closed {mayRead : Char → Bool} {n m : Nat} {run : List Char}
    (h : readRun flags mayRead n cs = (run, c :: rest)) (hn : cs.length < n) (hm : cs.length < m) :
    readRun flags mayRead m (cs ++ [')']) = (run, c :: (rest ++ [')'])) := by
  induction n generalizing cs m run with
  | zero => cases hn
  | succ n ih =>
    cases m with
    | zero => cases hm
    | succ m =>
      have hLength := length_skip_le flags cs
      rw [readRun] at h
      split at h
      · cases h
      · next d ds hSkip =>
        rw [hSkip, List.length_cons] at hLength
        rw [readRun, skip_closed hSkip]
        simp only
        split at h
        · next hRead =>
          rw [if_pos hRead]
          cases hRun : readRun flags mayRead n ds with
          | mk run' rest' =>
            rw [hRun] at h
            cases h
            rw [ih hRun (by omega) (by omega)]
        · next hRead =>
          rw [if_neg hRead]
          cases h
          rfl

theorem readRun_none_closed {mayRead : Char → Bool} {n m : Nat} (hClose : mayRead ')' = false)
    (h : readRun flags mayRead n cs = ([], rest)) (hn : cs.length < n) :
    ∃ left, readRun flags mayRead m (cs ++ [')']) = ([], left) := by
  cases m with
  | zero => exact ⟨_, rfl⟩
  | succ m =>
    cases n with
    | zero => cases hn
    | succ n =>
      rw [readRun] at h
      rw [readRun]
      cases hSkip : flags.skip cs with
      | nil =>
        rcases skip_end hSkip with hEnd | hEnd
        · exact ⟨[], by rw [hEnd]⟩
        · refine ⟨[')'], ?_⟩
          rw [hEnd]
          simp only [hClose, Bool.false_eq_true, if_false]
      | cons d ds =>
        rw [hSkip] at h
        rw [skip_closed hSkip]
        simp only at h ⊢
        split at h
        · cases h
        · next hRead => exact ⟨_, by rw [if_neg hRead]⟩

theorem readHex?_closed {n : Nat} {d : Char} (h : readHex? flags n cs = some (d, rest)) :
    readHex? flags n (cs ++ [')']) = some (d, rest ++ [')']) := by
  unfold readHex? at h ⊢
  split at h
  · next inner hSkip =>
    rw [skip_closed hSkip]
    simp only
    split at h
    · next digits rest' hRun =>
      obtain ⟨e, hChar, hEq⟩ := Option.map_eq_some_iff.mp h
      cases hEq
      rw [readRun_closed hRun (Nat.lt_succ_self _)
        (by simp only [List.length_append, List.length_singleton]; omega)]
      simp only [hChar, Option.map_some]
    · cases h
  · next hOther =>
    simp only [Option.bind_eq_bind, Option.bind_eq_some_iff] at h
    obtain ⟨⟨digits, rest'⟩, hTaken, e, hChar, hEq⟩ := h
    cases hEq
    cases hSkip : flags.skip cs with
    | nil =>
      rw [hSkip] at hTaken
      cases n with
      | zero =>
        cases hTaken
        cases hChar
      | succ n =>
        rw [takeChars?, skip_nil] at hTaken
        cases hTaken
    | cons x xs =>
      rw [hSkip] at hTaken hOther
      have hClosed := takeChars?_closed hTaken
      rw [skip_closed hSkip]
      split
      · next inner hBrace =>
        cases hBrace
        exact absurd rfl (hOther xs)
      · rw [List.cons_append] at hClosed
        simp only [Option.bind_eq_bind, hClosed, Option.bind_some, hChar]
        rfl

theorem head_skip_closed (flags : Flags) (cs : List Char) :
    ((flags.skip (cs ++ [')'])).head? != some '\x7b') =
      ((flags.skip cs).head? != some '\x7b') := by
  cases hSkip : flags.skip cs with
  | nil =>
    rcases skip_end hSkip with hEnd | hEnd
    · rw [hEnd]
    · rw [hEnd]
      decide
  | cons d ds =>
    rw [skip_closed hSkip]
    rfl

theorem readBoundary?_closed {escaped : Escaped} (h : readBoundary? flags cs = some (escaped, rest)) :
    readBoundary? flags (cs ++ [')']) = some (escaped, rest ++ [')']) := by
  unfold readBoundary? at h ⊢
  split at h
  · next inner =>
    simp only [List.cons_append] at h ⊢
    have hMore : inner.length < (inner ++ [')']).length + 1 := by
      rw [List.length_append]
      omega
    cases hRun : readRun flags (fun c => c.isAlpha || decide (c = '-')) (inner.length + 1) inner with
    | mk name left =>
      rw [hRun] at h
      cases name with
      | nil =>
        cases h
        obtain ⟨left', hNone⟩ := readRun_none_closed (m := (inner ++ [')']).length + 1) (by decide)
          hRun (Nat.lt_succ_self _)
        rw [hNone]
        rfl
      | cons d name =>
        split at h
        · next hEq => cases hEq
        · next hEq =>
          cases hEq
          rw [readRun_closed hRun (Nat.lt_succ_self _) hMore]
          obtain ⟨condition, hNamed, hEq⟩ := Option.map_eq_some_iff.mp h
          cases hEq
          simp only [hNamed, Option.map_some]
        · cases h
  · next hOther =>
    cases h
    cases cs with
    | nil => rfl
    | cons d ds =>
      simp only [List.cons_append]
      split
      · next hBrace =>
        cases hBrace
        exact absurd rfl (hOther ds)
      · rfl

theorem readEscape?_closed {escaped : Escaped} (h : readEscape? flags cs = some (escaped, rest)) :
    readEscape? flags (cs ++ [')']) = some (escaped, rest ++ [')']) := by
  cases cs with
  | nil => cases h
  | cons d cs =>
    simp only [List.cons_append, readEscape?] at h ⊢
    split at h
    · next hd =>
      rw [if_pos hd]
      obtain ⟨⟨e, rest'⟩, hHex, hEq⟩ := Option.map_eq_some_iff.mp h
      cases hEq
      rw [readHex?_closed hHex, Option.map_some, head_skip_closed]
    · next hx =>
      rw [if_neg hx]
      split at h
      · next hu =>
        rw [if_pos hu]
        obtain ⟨⟨e, rest'⟩, hHex, hEq⟩ := Option.map_eq_some_iff.mp h
        cases hEq
        rw [readHex?_closed hHex]
        rfl
      · next hu =>
        rw [if_neg hu]
        split at h
        · next hU =>
          rw [if_pos hU]
          obtain ⟨⟨e, rest'⟩, hHex, hEq⟩ := Option.map_eq_some_iff.mp h
          cases hEq
          rw [readHex?_closed hHex]
          rfl
        · next hU =>
          rw [if_neg hU]
          split at h
          · next hMay =>
            rw [if_pos hMay]
            cases h
            rfl
          · next hMay =>
            rw [if_neg hMay]
            split at h
            · next hClass =>
              obtain ⟨set, hSet, hEq⟩ := Option.map_eq_some_iff.mp h
              cases hEq
              simp only [hSet, Option.map_some]
            · split at h
              case h_9 => exact readBoundary?_closed h
              case h_13 => cases h
              all_goals
                cases h
                rfl

/-! ## Classes -/

theorem readMember?_closed {member : Char ⊕ CharSet} (h : readMember? flags cs = some (member, rest)) :
    readMember? flags (cs ++ [')']) = some (member, rest ++ [')']) := by
  unfold readMember? at h
  split at h
  · cases h
  · next inner =>
    rw [List.cons_append, readMember?]
    split at h
    · next hEscape =>
      rw [readEscape?_closed hEscape]
      obtain ⟨d, hChar, hEq⟩ := Option.map_eq_some_iff.mp h
      cases hEq
      simp only [hChar, Option.map_some]
    · next hEscape =>
      rw [readEscape?_closed hEscape]
      cases h
      rfl
    · cases h
  · next d ds hNoEscape =>
    obtain ⟨e, hChar, hEq⟩ := Option.map_eq_some_iff.mp h
    cases hEq
    rw [List.cons_append, readMember?]
    · rw [hChar, Option.map_some]
    · exact hNoEscape

theorem isBlank_close : isBlank ')' = false := by decide +kernel

theorem peek?_closed (hClose : c ≠ ')') (hBlank : isBlank c = false) (hSign : c ≠ '#') :
    flags.peek? (cs ++ [')']) = some c ↔ flags.peek? cs = some c := by
  unfold Flags.peek?
  split
  · cases cs with
    | nil => simpa using hClose.symm
    | cons d ds => rfl
  · have hEnd : [')'].dropWhile isBlank = [')'] := by
      rw [List.dropWhile_cons, isBlank_close]
      rfl
    -- A character that is not skipped is found at the beginning only if it stands there.
    have hFirst (hc : cs.head? = some c) : cs.dropWhile isBlank = cs := by
      cases cs with
      | nil => rfl
      | cons d ds =>
        cases hc
        rw [List.dropWhile_cons, hBlank]
        rfl
    simp only [List.dropWhile_append, hEnd]
    cases hDrop : cs.dropWhile isBlank with
    | nil =>
      have hNone : cs.head? ≠ some c := fun hc => by
        rw [← hFirst hc, hDrop] at hc
        cases hc
      simpa [hNone] using hClose.symm
    | cons d ds =>
      by_cases hd : d = '#'
      · subst hd
        have hNone : cs.head? ≠ some c := fun hc => by
          rw [← hFirst hc, hDrop] at hc
          exact hSign (Option.some.inj hc).symm
        simp only [List.isEmpty_cons, Bool.false_eq_true, if_false, List.cons_append,
          List.dropWhile_append, hEnd]
        cases ds.dropWhile isBlank with
        | nil => simpa [hNone] using hClose.symm
        | cons e es => rfl
      · simp [hd]

theorem readRange?_closed {set : CharSet} (h : readRange? flags cs = some (set, rest)) :
    readRange? flags (cs ++ [')']) = some (set, rest ++ [')']) := by
  have hPeek (after : List Char) :
      (flags.peek? (after ++ [')']) = some ']' || flags.peek? (after ++ [')']) = some '-') =
        (flags.peek? after = some ']' || flags.peek? after = some '-') := by
    rw [decide_eq_decide.mpr (peek?_closed (by decide) (by decide +kernel) (by decide)),
      decide_eq_decide.mpr (peek?_closed (by decide) (by decide +kernel) (by decide))]
  unfold readRange? at h ⊢
  simp only [Option.bind_eq_bind, Option.bind_eq_some_iff] at h
  obtain ⟨⟨first, rest'⟩, hFirst, h⟩ := h
  simp only [Option.bind_eq_bind, readMember?_closed hFirst, Option.bind_some]
  split at h
  · cases h
  · next after hSkip =>
    rw [skip_closed hSkip]
    simp only [hPeek]
    split at h
    · next hAlone =>
      rw [if_pos hAlone]
      cases h
      rfl
    · next hRange =>
      rw [if_neg hRange]
      simp only [Option.bind_eq_some_iff] at h
      obtain ⟨⟨last, rest''⟩, hLast, h⟩ := h
      have hMore : flags.skip after ≠ [] := by
        intro hNil
        rw [hNil] at hLast
        cases hLast
      simp only [skip_append hMore, readMember?_closed hLast, Option.bind_some]
      cases first with
      | inr set => cases h
      | inl lo =>
        cases last with
        | inr set => cases h
        | inl hi =>
          simp only at h ⊢
          split at h
          · next hLe =>
            rw [if_pos hLe]
            cases h
            rfl
          · cases h
  · next hNil hMinus =>
    cases h
    cases hSkip : flags.skip rest' with
    | nil => exact absurd hSkip hNil
    | cons d ds =>
      rw [skip_closed hSkip]
      split
      · next hEq => cases hEq
      · next hEq =>
        cases hEq
        exact absurd hSkip (hMinus _)
      · rfl

theorem span_closed {p : Char → Bool} {front : List Char} (h : cs.span p = (front, c :: rest)) :
    (cs ++ [')']).span p = (front, c :: (rest ++ [')'])) := by
  rw [List.span_eq_takeWhile_dropWhile] at h ⊢
  induction cs generalizing front with
  | nil => cases h
  | cons d ds ih =>
    rw [List.cons_append, List.takeWhile_cons, List.dropWhile_cons]
    rw [List.takeWhile_cons, List.dropWhile_cons] at h
    cases hd : p d with
    | false =>
      rw [hd] at h
      cases h
      rfl
    | true =>
      rw [hd] at h
      obtain ⟨rfl, hRest⟩ := Prod.mk.inj h
      obtain ⟨hFront, hRest⟩ := Prod.mk.inj (ih (Prod.ext rfl hRest))
      simp only [if_true]
      rw [hFront, hRest]

theorem span_end {p : Char → Bool} {front : List Char} (hClose : p ')' = true)
    (h : cs.span p = (front, [])) : ∃ front', (cs ++ [')']).span p = (front', []) := by
  rw [List.span_eq_takeWhile_dropWhile] at h ⊢
  refine ⟨_, Prod.ext rfl ?_⟩
  rw [List.dropWhile_append, (Prod.mk.inj h).2, List.isEmpty_nil, if_pos rfl, List.dropWhile_cons,
    if_pos hClose, List.dropWhile_nil]

def readClassName? (negated : Bool) (cs : List Char) : Option (Bool × CharSet × List Char) :=
  match cs.span (· ≠ ':') with
  | (name, ':' :: ']' :: rest) =>
    (asciiClass? (String.ofList name)).map fun s => (negated, s, rest)
  | _ => none

theorem readClassName?_closed (negated : Bool) (cs : List Char) :
    readClassName? negated (cs ++ [')']) = (readClassName? negated cs).map fun (negated, s, rest) =>
      (negated, s, rest ++ [')']) := by
  unfold readClassName?
  cases hSpan : cs.span (· ≠ ':') with
  | mk name rest =>
    cases rest with
    | nil =>
      obtain ⟨front, hEnd⟩ := span_end (by decide) hSpan
      rw [hEnd]
      rfl
    | cons d rest =>
      rw [span_closed hSpan]
      cases rest with
      | nil =>
        split
        · next hEq => cases hEq
        · split
          · next hEq => cases hEq
          · rfl
      | cons e rest =>
        split
        · next hEq =>
          cases hEq
          simp only [List.append_eq, Option.map_map]
          rfl
        · next hOther =>
          split
          · next hEq =>
            cases hEq
            exact absurd rfl (hOther _ _)
          · rfl

theorem readNamed?_closed (cs : List Char) :
    readNamed? (cs ++ [')']) = (readNamed? cs).map fun (negated, s, rest) =>
      (negated, s, rest ++ [')']) := by
  cases cs with
  | nil => rfl
  | cons d ds =>
    by_cases hColon : d = ':'
    · subst hColon
      cases ds with
      | nil => rfl
      | cons e es =>
        by_cases hCaret : e = '^'
        · subst hCaret
          exact readClassName?_closed true es
        · simp only [List.cons_append, readNamed?, List.cons.injEq, hCaret, false_and, imp_false,
            not_false_eq_true, implies_true]
          exact readClassName?_closed false (e :: es)
    · simp [readNamed?, hColon]

theorem readDashes_closed {u u' : Union} {n m : Nat} (h : readDashes flags u n cs = (u', c :: rest))
    (hn : cs.length < n) (hm : cs.length < m) :
    readDashes flags u m (cs ++ [')']) = (u', c :: (rest ++ [')'])) := by
  induction n generalizing cs m u with
  | zero => cases hn
  | succ n ih =>
    cases m with
    | zero => cases hm
    | succ m =>
      have hLength := length_skip_le flags cs
      rw [readDashes] at h
      rw [readDashes]
      split at h
      · next ds hSkip =>
        rw [hSkip, List.length_cons] at hLength
        rw [skip_closed hSkip]
        exact ih h (by omega) (by omega)
      · next hOther =>
        obtain ⟨rfl, hSkip⟩ := Prod.mk.inj h
        rw [hSkip] at hOther
        rw [skip_closed hSkip]
        split
        · next hEq =>
          cases hEq
          exact absurd rfl (hOther _)
        · rfl

def readFirstMembers? (flags : Flags) (negated : Bool) (cs : List Char) :
    Option (Bool × Union × List Char) :=
  match readDashes flags .empty (cs.length + 1) cs with
  | (u, cs) =>
    match cs with
    | [] => none
    | ']' :: rest =>
      if !u.depths.isEmpty then some (negated, u, cs)
      else if (flags.skip rest).isEmpty then none
      else some (negated, u.add (.single ']') 0, rest)
    | _ => some (negated, u, cs)

theorem readFirstMembers?_closed {negated negated' : Bool} {u : Union}
    (h : readFirstMembers? flags negated' cs = some (negated, u, rest)) :
    readFirstMembers? flags negated' (cs ++ [')']) = some (negated, u, rest ++ [')']) := by
  unfold readFirstMembers? at h ⊢
  cases hDashes : readDashes flags .empty (cs.length + 1) cs with
  | mk u' left =>
    rw [hDashes] at h
    cases left with
    | nil => cases h
    | cons d ds =>
      rw [readDashes_closed hDashes (Nat.lt_succ_self _)
        (by rw [List.length_append]; exact Nat.lt_succ_of_le (Nat.le_add_right _ _))]
      by_cases hd : d = ']'
      · subst hd
        simp only at h ⊢
        split at h
        · next hDepths =>
          rw [if_pos hDepths]
          cases h
          rfl
        · next hDepths =>
          rw [if_neg hDepths]
          split at h
          · cases h
          · next hSkip =>
            have hMore : flags.skip ds ≠ [] := fun hNil => hSkip (by rw [hNil]; rfl)
            rw [skip_append hMore, if_neg (by simp)]
            cases h
            rfl
      · simp only [List.cons.injEq, hd, false_and, imp_false, not_false_eq_true, implies_true]
          at h ⊢
        cases h
        rfl

theorem readOpening?_closed {negated : Bool} {u : Union}
    (h : readOpening? flags cs = some (negated, u, rest)) :
    readOpening? flags (cs ++ [')']) = some (negated, u, rest ++ [')']) := by
  unfold readOpening? at h ⊢
  cases hSkip : flags.skip cs with
  | nil =>
    rw [hSkip] at h
    simp only [readDashes, skip_nil] at h
    cases h
  | cons d ds =>
    rw [hSkip] at h
    rw [skip_closed hSkip]
    by_cases hd : d = '^'
    · subst hd
      replace h : readFirstMembers? flags true ds = some (negated, u, rest) := h
      exact readFirstMembers?_closed h
    · simp only [List.cons.injEq, hd, false_and, imp_false, not_false_eq_true, implies_true] at h ⊢
      replace h : readFirstMembers? flags false (d :: ds) = some (negated, u, rest) := h
      exact readFirstMembers?_closed h

theorem head_of_closed {xs : List Char} (h : cs ++ [')'] = c :: xs) (hc : c ≠ ')') :
    ∃ ds, cs = c :: ds := by
  cases cs with
  | nil =>
    cases h
    exact absurd rfl hc
  | cons d ds =>
    cases h
    exact ⟨ds, rfl⟩

theorem heads_of_closed {d : Char} {xs : List Char} (h : cs ++ [')'] = c :: d :: xs) (hc : c ≠ ')')
    (hd : d ≠ ')') : ∃ ds, cs = c :: d :: ds := by
  obtain ⟨ds, rfl⟩ := head_of_closed h hc
  obtain ⟨es, rfl⟩ := head_of_closed (List.cons.inj h).2 hd
  exact ⟨es, rfl⟩

/-- A class ends at its own bracket, also where the parenthesis comes behind it and the number of
steps is another one. -/
structure ClassesClosed (flags : Flags) (n : Nat) : Prop where
  whole {m : Nat} {cs rest rest' : List Char} {s s' : NestedSet}
    (h : readClass? flags n cs = some (s, rest))
    (h' : readClass? flags m (cs ++ [')']) = some (s', rest')) : s' = s ∧ rest' = rest ++ [')']
  items {m : Nat} {cs rest rest' : List Char} {pending : Pending} {u : Union} {s s' : NestedSet}
    (h : readItems? flags n pending u cs = some (s, rest))
    (h' : readItems? flags m pending u (cs ++ [')']) = some (s', rest')) :
    s' = s ∧ rest' = rest ++ [')']

namespace ClassesClosed

variable {n m : Nat} {rest' : List Char} {s s' : NestedSet} (ih : ClassesClosed flags n)

include ih

theorem whole_succ (h : readClass? flags (n + 1) cs = some (s, rest))
    (h' : readClass? flags m (cs ++ [')']) = some (s', rest')) : s' = s ∧ rest' = rest ++ [')'] := by
  cases m with
  | zero =>
    rw [readClass?] at h'
    cases h'
  | succ m =>
    simp only [readClass?, Option.bind_eq_bind, Option.bind_eq_some_iff] at h h'
    obtain ⟨⟨negated, u, behind⟩, hOpening, ⟨inner, behind'⟩, hItems, set, hSet, hEq⟩ := h
    obtain ⟨o', hOpening', ⟨inner', behind''⟩, hItems', set', hSet', hEq'⟩ := h'
    rw [readOpening?_closed hOpening] at hOpening'
    cases hOpening'
    obtain ⟨rfl, rfl⟩ := ih.items hItems hItems'
    rw [hSet] at hSet'
    cases hSet'
    cases hEq
    cases hEq'
    exact ⟨rfl, rfl⟩

theorem items_succ {pending : Pending} {u : Union}
    (h : readItems? flags (n + 1) pending u cs = some (s, rest))
    (h' : readItems? flags m pending u (cs ++ [')']) = some (s', rest')) :
    s' = s ∧ rest' = rest ++ [')'] := by
  cases m with
  | zero =>
    rw [readItems?] at h'
    cases h'
  | succ m =>
    rw [readItems?] at h h'
    split at h
    case h_1 => cases h
    case h_2 behind hSkip =>
      rw [skip_closed hSkip] at h'
      cases h
      cases h'
      exact ⟨rfl, rfl⟩
    case h_3 behind hSkip =>
      rw [skip_closed hSkip] at h'
      simp only [readNamed?_closed] at h'
      split at h
      · next negated set behind' hNamed =>
        simp only [hNamed, Option.map_some, Option.bind_eq_bind, Option.bind_eq_some_iff] at h h'
        obtain ⟨set₁, hSet, hItems⟩ := h
        obtain ⟨set₂, hSet', hItems'⟩ := h'
        rw [hSet] at hSet'
        cases hSet'
        exact ih.items hItems hItems'
      · next hNamed =>
        simp only [hNamed, Option.map_none, Option.bind_eq_bind, Option.bind_eq_some_iff] at h h'
        obtain ⟨⟨inner, behind₁⟩, hInner, hItems⟩ := h
        obtain ⟨⟨inner', behind₂⟩, hInner', hItems'⟩ := h'
        obtain ⟨rfl, rfl⟩ := ih.whole hInner hInner'
        exact ih.items hItems hItems'
    case h_4 behind hSkip =>
      rw [skip_closed hSkip] at h'
      exact ih.items h h'
    case h_5 behind hSkip =>
      rw [skip_closed hSkip] at h'
      exact ih.items h h'
    case h_6 behind hSkip =>
      rw [skip_closed hSkip] at h'
      exact ih.items h h'
    case h_7 hNil hClose hOpen hAnd hMinus hTilde =>
      simp only [Option.bind_eq_bind, Option.bind_eq_some_iff] at h
      obtain ⟨⟨set, behind⟩, hRange, hItems⟩ := h
      have hClosed := readRange?_closed hRange
      rw [skip_append hNil] at h'
      split at h'
      case h_1 hEq => simp at hEq
      case h_2 hEq => exact absurd (head_of_closed hEq (by decide)).choose_spec (hClose _)
      case h_3 hEq => exact absurd (head_of_closed hEq (by decide)).choose_spec (hOpen _)
      case h_4 hEq =>
        exact absurd (heads_of_closed hEq (by decide) (by decide)).choose_spec (hAnd _)
      case h_5 hEq =>
        exact absurd (heads_of_closed hEq (by decide) (by decide)).choose_spec (hMinus _)
      case h_6 hEq =>
        exact absurd (heads_of_closed hEq (by decide) (by decide)).choose_spec (hTilde _)
      case h_7 =>
        simp only [hClosed, Option.bind_eq_bind, Option.bind_some] at h'
        exact ih.items hItems h'

end ClassesClosed

theorem classesClosed (flags : Flags) (n : Nat) : ClassesClosed flags n := by
  induction n with
  | zero =>
    refine ⟨fun h => ?_, fun h => ?_⟩
    · rw [readClass?] at h
      cases h
    · rw [readItems?] at h
      cases h
  | succ n ih => exact ⟨ih.whole_succ, ih.items_succ⟩

end PredictiveParsing.Regex
