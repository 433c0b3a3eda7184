import PredictiveParsing.Proofs.Grammar.Deciding
import PredictiveParsing.Proofs.Vocabulary.Registry

/-!
# The table of a decision

The table is filled by going through the paths of all alternatives in order, the first one to come
to a type keeping it. What it picks is the first alternative with a path that the coming kinds match
position by position.
-/

namespace PredictiveParsing.Decision

section Filled

variable {v : Vocabulary} {kinds : Nat → TypeId} {alternatives : List (List Path)} {path : Path}
  {table : List (Option Nat)} {subtypes : TypeId → List TypeId} {n : Nat}

/-! ## Filling -/

def enter (index : Nat) (table : List (Option Nat)) (kind : TypeId) : List (Option Nat) :=
  table.modify kind fun slot => slot.or (some index)

def variants (subtypes : TypeId → List TypeId) : Path → List TypeId
  | [] => []
  | token :: _ => token :: subtypes token

/-- Enters an alternative, whose index is kept in a byte, for all its paths. -/
def enterPaths (subtypes : TypeId → List TypeId) (table : List (Option Nat))
    (entry : List Path × Nat) : List (Option Nat) :=
  entry.1.foldl (fun table path =>
    (variants subtypes path).foldl (enter (entry.2 % maxTableAlternatives)) table) table

def fill (subtypes : TypeId → List TypeId) (size : Nat) (alternatives : List (List Path)) :
    List (Option Nat) :=
  alternatives.zipIdx.foldl (enterPaths subtypes) (List.replicate size none)

def begins (subtypes : TypeId → List TypeId) (n : TypeId) (paths : List Path) : Bool :=
  paths.any fun path => (variants subtypes path).contains n

theorem getElem?_foldl_enter (index : Nat) (ks : List TypeId) (table : List (Option Nat)) :
    (ks.foldl (enter index) table)[n]? =
      table[n]?.map fun slot => slot.or (if n ∈ ks then some index else none) := by
  induction ks generalizing table with
  | nil => simp
  | cons kind ks ih =>
    rw [List.foldl_cons, ih, enter, List.getElem?_modify]
    cases table[n]? with
    | none => rfl
    | some slot =>
      by_cases hKind : kind = n
      · subst hKind
        cases slot <;> simp
      · have hOther : n ≠ kind := fun h => hKind h.symm
        simp [hKind, hOther]

theorem getElem?_enterPaths (entry : List Path × Nat) : (enterPaths subtypes table entry)[n]? =
    table[n]?.map fun slot => slot.or
      (if begins subtypes n entry.1 then some (entry.2 % maxTableAlternatives) else none) := by
  rw [enterPaths, ← List.foldl_flatMap, getElem?_foldl_enter]
  simp only [begins, List.mem_flatMap, List.any_eq_true, List.contains_iff_mem]

/-- Each slot keeps what it had, or gets the first alternative that comes to it. -/
theorem getElem?_foldl_enterPaths (start : Nat) :
    ((alternatives.zipIdx start).foldl (enterPaths subtypes) table)[n]? =
      table[n]?.map fun slot => slot.or ((alternatives.findIdx? (begins subtypes n)).map fun j =>
        (start + j) % maxTableAlternatives) := by
  induction alternatives generalizing start table with
  | nil => simp
  | cons paths alternatives ih =>
    rw [List.zipIdx_cons, List.foldl_cons, ih, getElem?_enterPaths, List.findIdx?_cons, Option.map_map]
    refine congrArg (Option.map · _) (funext fun slot => ?_)
    rw [Function.comp, Option.or_assoc]
    cases begins subtypes n paths with
    | true => simp
    | false => simp [Function.comp_def, Nat.add_assoc, Nat.add_comm 1]

theorem findIdx?_begins (hSingle : isSingleToken alternatives = true) :
    alternatives.findIdx? (begins v.subtypes n) = pick v alternatives n := by
  rw [isSingleToken, Bool.and_eq_true, List.all_eq_true] at hSingle
  refine findIdx?_congr fun paths hPaths => ?_
  rw [begins, Bool.eq_iff_iff, List.any_eq_true, List.any_eq_true]
  refine exists_congr fun path => and_congr_right fun hPath => ?_
  have hLength := List.all_eq_true.mp (hSingle.2 paths hPaths) path hPath
  obtain ⟨token, rfl⟩ := List.length_eq_one_iff.mp (beq_iff_eq.mp hLength)
  rfl

theorem table_ofPaths (hSingle : isSingleToken alternatives = true) :
    (ofPaths v alternatives).table = some (fill v.subtypes v.size alternatives) := by
  rw [ofPaths, if_pos hSingle]
  refine congrArg some (List.ext_getElem? fun n => ?_)
  -- There are so few alternatives that an index fits a byte.
  have hPick : (alternatives.findIdx? (begins v.subtypes n)).map
      (fun j => (0 + j) % maxTableAlternatives) = pick v alternatives n := by
    rw [findIdx?_begins hSingle]
    cases hFound : pick v alternatives n with
    | none => rfl
    | some j =>
      obtain ⟨hLt, -⟩ := List.findIdx?_eq_some_iff_getElem.mp hFound
      rw [isSingleToken, Bool.and_eq_true, decide_eq_true_iff] at hSingle
      rw [Option.map_some, Nat.zero_add, Nat.mod_eq_of_lt (Nat.lt_of_lt_of_le hLt hSingle.1)]
  rw [fill, getElem?_foldl_enterPaths, hPick, List.getElem?_replicate, List.getElem?_map,
    Vocabulary.ids]
  by_cases hn : n < v.size
  · rw [if_pos hn, List.getElem?_range hn, Option.map_some, Option.map_some, Option.none_or]
  · rw [if_neg hn, List.getElem?_eq_none (by rwa [List.length_range, ← Nat.not_lt])]
    rfl

/-! ## Choosing -/

def Fits (v : Vocabulary) (kinds : Nat → TypeId) (path : Path) : Prop :=
  ∀ i expected, path[i]? = some expected → v.isMatch (kinds i) expected = true

/-- An alternative has a path that fits, and none before it has. -/
structure IsFirstFit (v : Vocabulary) (kinds : Nat → TypeId) (alternatives : List (List Path))
    (j : Nat) : Prop where
  fits : ∃ paths, alternatives[j]? = some paths ∧ ∃ path ∈ paths, Fits v kinds path
  earlier : ∀ i < j, ∀ paths, alternatives[i]? = some paths → ∀ path ∈ paths, ¬ Fits v kinds path

theorem matchesPath_iff : matchesPath v kinds n path = true ↔
    ∀ i expected, path[i]? = some expected → v.isMatch (kinds (n + i)) expected = true := by
  induction path generalizing n with
  | nil => simp [matchesPath]
  | cons token path ih =>
    rw [matchesPath, Bool.and_eq_true, ih]
    constructor
    · rintro ⟨hFirst, hRest⟩ i expected hi
      cases i with
      | zero =>
        cases hi
        exact hFirst
      | succ i =>
        have hMatch := hRest i expected hi
        rwa [Nat.add_assoc, Nat.add_comm 1] at hMatch
    · intro h
      refine ⟨h 0 token rfl, fun i expected hi => ?_⟩
      have hMatch := h (i + 1) expected hi
      rwa [Nat.add_comm i, ← Nat.add_assoc] at hMatch

theorem any_matchesPath_iff {paths : List Path} :
    paths.any (matchesPath v kinds 0) = true ↔ ∃ path ∈ paths, Fits v kinds path := by
  simp only [List.any_eq_true, matchesPath_iff, Fits, Nat.zero_add]

theorem findIdx?_eq_some_iff {j : Nat} :
    (alternatives.findIdx? fun paths => paths.any (matchesPath v kinds 0)) = some j ↔
      IsFirstFit v kinds alternatives j := by
  rw [List.findIdx?_eq_some_iff_getElem]
  constructor
  · rintro ⟨hLt, hFits, hEarlier⟩
    constructor
    · exact ⟨_, List.getElem?_eq_getElem hLt, any_matchesPath_iff.mp hFits⟩
    · intro i hi paths hPaths path hPath hFit
      obtain ⟨hLt', rfl⟩ := List.getElem?_eq_some_iff.mp hPaths
      exact hEarlier i hi (any_matchesPath_iff.mpr ⟨path, hPath, hFit⟩)
  · rintro ⟨⟨paths, hPaths, hFits⟩, hEarlier⟩
    obtain ⟨hLt, rfl⟩ := List.getElem?_eq_some_iff.mp hPaths
    refine ⟨hLt, any_matchesPath_iff.mpr hFits, fun i hi hAny => ?_⟩
    obtain ⟨path, hPath, hFit⟩ := any_matchesPath_iff.mp hAny
    exact hEarlier i hi _ (List.getElem?_eq_getElem _) path hPath hFit

theorem choose_enabled (count : Nat) :
    (ofPaths v alternatives).choose v kinds (some (List.replicate count true)) =
      alternatives.findIdx? fun paths => paths.any (matchesPath v kinds 0) := by
  have hMask : (fun index => (List.replicate count true).getD index true) = fun _ => true := by
    funext index
    rw [List.getD_eq_getElem?_getD, List.getElem?_replicate]
    split <;> rfl
  rw [← choosePath_true, ← hMask]
  cases hTable : (ofPaths v alternatives).table <;>
  · simp only [choose, hTable]
    rfl

variable {types : List TokenType} {tokens : List Token}

theorem isRegistered_kindsOf (h : ∀ t ∈ tokens, (Vocabulary.ofTypes types).isRegistered t.kind = true) :
    (Vocabulary.ofTypes types).isRegistered (kindsOf tokens n) = true := by
  rw [kindsOf]
  cases ht : tokens[n]? with
  | none => exact Vocabulary.isRegistered_eof types
  | some t => exact h t (List.mem_of_getElem? ht)

/-- Whatever types are registered, a decision agrees with its paths. If they all have one token, its
table is filled with what the subtypes say that are kept while types are registered; without a
condition it chooses as with all alternatives enabled, and that is the first alternative with a path
that the kinds of the remaining tokens match one by one, the end of the input behind the last. -/
theorem choose_eq_enabled (types : List TokenType) (alternatives : List (List Path))
    (tokens : List Token)
    (hTokens : ∀ t ∈ tokens, (Vocabulary.ofTypes types).isRegistered t.kind = true) :
    let v := Vocabulary.ofTypes types
    let registry := Registry.ofTypes types
    let d := ofPaths v alternatives
    (d.table = if isSingleToken alternatives then
        some (fill registry.subtypes registry.size alternatives) else none) ∧
      d.choose v (kindsOf tokens) none =
        d.choose v (kindsOf tokens) (some (List.replicate alternatives.length true)) ∧
      ∀ j, d.choose v (kindsOf tokens) none = some j ↔
        IsFirstFit v (kindsOf tokens) alternatives j := by
  intro v registry d
  have hAgrees := Registry.agrees_ofTypes types
  have hSubtypes : registry.subtypes = v.subtypes := funext hAgrees.subtypes
  have hChoose : d.choose v (kindsOf tokens) none = _ :=
    choose_ofPaths (isRegistered_kindsOf hTokens)
  refine ⟨?_, ?_, fun j => ?_⟩
  · split
    · next hSingle => rw [hSubtypes, hAgrees.size, table_ofPaths hSingle]
    · next hMany => exact if_neg hMany
  · rw [hChoose, choose_enabled]
  · rw [hChoose]
    exact findIdx?_eq_some_iff

end Filled

namespace Literals

def types : List TokenType :=
  [.category "Literal", .inCategory (.literal "Number" "1") 1, .literal "Minus" "-"]

def alternatives : List (List Path) := [[], [[1]], [[2], [3]]]

def tokens : List Token := [.insertedBefore 2 (.eof 0), .insertedBefore 3 (.eof 0)]

end Literals

/-- Of the alternatives with a path for a number, the one that is entered is the first. -/
theorem choose_eq_enabled_literals :
    (∀ t ∈ Literals.tokens, (Vocabulary.ofTypes Literals.types).isRegistered t.kind = true) ∧
      IsFirstFit (.ofTypes Literals.types) (kindsOf Literals.tokens) Literals.alternatives 1 := by
  have hTokens : ∀ t ∈ Literals.tokens,
      (Vocabulary.ofTypes Literals.types).isRegistered t.kind = true := by decide
  refine ⟨hTokens, ?_⟩
  exact ((choose_eq_enabled Literals.types Literals.alternatives Literals.tokens hTokens).2.2 1).mp
    (by decide)

end PredictiveParsing.Decision
