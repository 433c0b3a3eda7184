/-!
# Lengths and cuts in bytes

Texts are lists of characters. Offsets into a text count the bytes of its UTF-8 form, so a cut
exists only where an offset falls between two characters.
-/

namespace PredictiveParsing.Text

def byteLength : List Char → Nat
  | [] => 0
  | c :: cs => c.utf8Size + byteLength cs

@[simp] theorem byteLength_nil : byteLength [] = 0 := rfl

@[simp] theorem byteLength_cons (c : Char) (cs : List Char) :
    byteLength (c :: cs) = c.utf8Size + byteLength cs := rfl

@[simp] theorem byteLength_append (xs ys : List Char) :
    byteLength (xs ++ ys) = byteLength xs + byteLength ys := by
  induction xs with
  | nil => simp
  | cons c cs ih => simp [ih, Nat.add_assoc]

theorem byteLength_pos {cs : List Char} (h : cs ≠ []) : 0 < byteLength cs := by
  cases cs with
  | nil => exact absurd rfl h
  | cons c cs => exact Nat.add_pos_left c.utf8Size_pos _

theorem length_le_byteLength (cs : List Char) : cs.length ≤ byteLength cs := by
  induction cs with
  | nil => exact Nat.le_refl 0
  | cons c cs ih =>
    rw [List.length_cons, byteLength_cons, Nat.add_comm]
    exact Nat.add_le_add c.utf8Size_pos ih

/-- Cuts a text after exactly `n` bytes, if a character ends there. -/
def splitBytes? : Nat → List Char → Option (List Char × List Char)
  | 0, cs => some ([], cs)
  | _ + 1, [] => none
  | n + 1, c :: cs =>
    if c.utf8Size ≤ n + 1 then
      (splitBytes? (n + 1 - c.utf8Size) cs).map fun (front, rest) => (c :: front, rest)
    else none

theorem append_of_splitBytes? {n : Nat} {cs front rest : List Char}
    (h : splitBytes? n cs = some (front, rest)) : front ++ rest = cs := by
  induction cs generalizing n front rest with
  | nil => cases n <;> simp_all [splitBytes?]
  | cons c cs ih =>
    cases n with
    | zero => simp_all [splitBytes?]
    | succ n =>
      simp only [splitBytes?] at h
      split at h
      · obtain ⟨⟨f, r⟩, hf, he⟩ := Option.map_eq_some_iff.1 h
        cases he
        simp [ih hf]
      · cases h

theorem byteLength_of_splitBytes? {n : Nat} {cs front rest : List Char}
    (h : splitBytes? n cs = some (front, rest)) : byteLength front = n := by
  induction cs generalizing n front rest with
  | nil => cases n <;> simp_all [splitBytes?]
  | cons c cs ih =>
    cases n with
    | zero => simp_all [splitBytes?]
    | succ n =>
      simp only [splitBytes?] at h
      split at h
      · obtain ⟨⟨f, r⟩, hf, he⟩ := Option.map_eq_some_iff.1 h
        cases he
        have := ih hf
        simp only [byteLength_cons]
        omega
      · cases h

theorem splitBytes?_byteLength_append (front rest : List Char) :
    splitBytes? (byteLength front) (front ++ rest) = some (front, rest) := by
  induction front with
  | nil => cases rest <;> rfl
  | cons c cs ih =>
    obtain ⟨n, hSize⟩ : ∃ n, byteLength (c :: cs) = n + 1 :=
      Nat.exists_eq_succ_of_ne_zero (Nat.ne_of_gt (Nat.add_pos_left c.utf8Size_pos _))
    have hLe : c.utf8Size ≤ n + 1 := hSize ▸ Nat.le_add_right _ _
    have hBehind : n + 1 - c.utf8Size = byteLength cs := hSize ▸ Nat.add_sub_cancel_left _ _
    rw [hSize, List.cons_append, splitBytes?, if_pos hLe, hBehind, ih]
    rfl

theorem ne_nil_of_splitBytes? {n : Nat} {cs front rest : List Char}
    (h : splitBytes? n cs = some (front, rest)) (hn : 0 < n) : front ≠ [] := by
  rintro rfl
  have := byteLength_of_splitBytes? h
  simp at this
  omega

theorem length_lt_of_splitBytes? {n : Nat} {cs front rest : List Char}
    (h : splitBytes? n cs = some (front, rest)) (hn : 0 < n) : rest.length < cs.length := by
  have happ := append_of_splitBytes? h
  have hne := ne_nil_of_splitBytes? h hn
  cases front with
  | nil => exact absurd rfl hne
  | cons c f =>
    rw [← happ, List.length_append, List.length_cons]
    omega

def slice? (text : List Char) (start stop : Nat) : Option (List Char) := do
  let (_, rest) ← splitBytes? start text
  if start ≤ stop then
    let (front, _) ← splitBytes? (stop - start) rest
    return front
  else none

end PredictiveParsing.Text
