import PredictiveParsing.Proofs.Pattern.Analysis
import PredictiveParsing.Proofs.Regex.Matches
import PredictiveParsing.Proofs.Regex.ReadingAtStart
import PredictiveParsing.Regex.Library

/-!
# The library to run with keeps its promises

The tree of an expression matches the bytes of the texts that the expression matches. With what is
known of the reader and the matcher this is all that is relied on of a library.
-/

namespace PredictiveParsing

/-! ## Parts of a tree -/

namespace RegexTree

variable {s t : RegexTree} {ts : List RegexTree} {bytes : List UInt8} {least : Nat}
  {most : Option Nat}

theorem matches_part : (concat (t :: ts)).Matches bytes ↔
    ∃ u v, bytes = u ++ v ∧ t.Matches u ∧ (concat ts).Matches v := by
  constructor
  · intro h
    cases h with
    | part hFirst hRest => exact ⟨_, _, rfl, hFirst, hRest⟩
  · rintro ⟨u, v, rfl, hFirst, hRest⟩
    exact .part hFirst hRest

theorem matches_concat_singleton : (concat [t]).Matches bytes ↔ t.Matches bytes := by
  rw [matches_part]
  constructor
  · rintro ⟨u, v, rfl, hFirst, ⟨⟩⟩
    rwa [List.append_nil]
  · exact fun h => ⟨bytes, [], (List.append_nil bytes).symm, h, .noPart⟩

theorem matches_andThen : (s.andThen t).Matches bytes ↔
    ∃ u v, bytes = u ++ v ∧ s.Matches u ∧ t.Matches v := by
  unfold andThen
  split
  · exact matches_part
  · rw [matches_part]
    exact exists₂_congr fun u v =>
      and_congr_right fun _ => and_congr_right fun _ => matches_concat_singleton

theorem matches_alternation : (alternation ts).Matches bytes ↔ ∃ t ∈ ts, t.Matches bytes := by
  constructor
  · intro h
    cases h with
    | branch hBranch h => exact ⟨_, hBranch, h⟩
  · rintro ⟨t, hBranch, h⟩
    exact .branch hBranch h

theorem matches_orElse : (s.orElse t).Matches bytes ↔ s.Matches bytes ∨ t.Matches bytes := by
  unfold orElse
  split
  · simp only [matches_alternation, List.mem_cons, exists_eq_or_imp]
  · simp only [matches_alternation, List.mem_cons, List.not_mem_nil, or_false, exists_eq_or_imp,
      exists_eq_left]

theorem isWhole_andThen : (s.andThen t).isWhole = (s.isWhole && t.isWhole) := by
  unfold andThen
  split <;> simp [isWhole, areWhole]

theorem isWhole_orElse : (s.orElse t).isWhole = (s.isWhole && t.isWhole) := by
  unfold orElse
  split <;> simp [isWhole, areWhole]

/-! ## Sets -/

variable {set : CharSet} {ascii : Bool} {r : CharRange} {c : Char} {b : UInt8}

theorem toNat_toUInt8 {n : Nat} (h : n < 0x80) : n.toUInt8.toNat = n := by
  rw [Nat.toUInt8_eq, UInt8.toNat_ofNat', Nat.mod_eq_of_lt (Nat.lt_trans h (by decide))]

theorem mem_bytes_iff (hAscii : r.isAscii = true) :
    r.bytes.first ≤ b ∧ b ≤ r.bytes.last ↔
      r.first.toNat ≤ b.toNat ∧ b.toNat ≤ r.last.toNat := by
  obtain ⟨hFirst, hLast⟩ := Bool.and_eq_true_iff.mp hAscii
  rw [UInt8.le_iff_toNat_le, UInt8.le_iff_toNat_le, CharRange.bytes,
    toNat_toUInt8 (of_decide_eq_true hFirst), toNat_toUInt8 (of_decide_eq_true hLast)]

theorem matches_ofSet : (ofSet ascii set).Matches bytes ↔
    ∃ c, set.contains c = true ∧ bytes = String.utf8EncodeChar c := by
  unfold ofSet
  split
  next hAscii =>
    have hRanges : ∀ r ∈ set, r.isAscii = true :=
      List.all_eq_true.mp (Bool.and_eq_true_iff.mp hAscii).2
    constructor
    · intro h
      cases h with
      | @byteClass _ q b hRange hLow hHigh =>
        obtain ⟨r, hr, rfl⟩ := List.mem_map.mp hRange
        obtain ⟨hFirst, hLast⟩ := (mem_bytes_iff (hRanges r hr)).mp ⟨hLow, hHigh⟩
        have hLastAscii : r.last.toNat < 0x80 :=
          of_decide_eq_true (Bool.and_eq_true_iff.mp (hRanges r hr)).2
        have hByte : b.toNat < 0x80 := Nat.lt_of_le_of_lt hLast hLastAscii
        refine ⟨Char.ofNat b.toNat, List.any_eq_true.mpr ⟨r, hr, ?_⟩, (Text.encode_ofNat hByte).symm⟩
        refine CharRange.contains_iff.mpr ⟨?_, ?_⟩
        · show r.first.toNat ≤ (Char.ofNat b.toNat).toNat
          rwa [Text.toNat_ofNat hByte]
        · show (Char.ofNat b.toNat).toNat ≤ r.last.toNat
          rwa [Text.toNat_ofNat hByte]
    · rintro ⟨c, hSet, rfl⟩
      obtain ⟨r, hr, hIn⟩ := List.any_eq_true.mp hSet
      obtain ⟨hFirst, hLast⟩ := CharRange.contains_iff.mp hIn
      have hLastAscii : r.last.toNat < 0x80 :=
        of_decide_eq_true (Bool.and_eq_true_iff.mp (hRanges r hr)).2
      have hChar : c.toNat < 0x80 := Nat.lt_of_le_of_lt hLast hLastAscii
      have hByte : String.utf8EncodeChar c = [c.toNat.toUInt8] := by
        have hSame : Char.ofNat c.toNat.toUInt8.toNat = c := by
          rw [toNat_toUInt8 hChar, Char.ofNat_toNat]
        rw [← Text.encode_ofNat (b := c.toNat.toUInt8), hSame]
        exact UInt8.lt_iff_toNat_lt.mpr (by rw [toNat_toUInt8 hChar]; exact hChar)
      rw [hByte]
      have hMem := (mem_bytes_iff (b := c.toNat.toUInt8) (hRanges r hr)).mpr (by
        rw [toNat_toUInt8 hChar]
        exact ⟨hFirst, hLast⟩)
      exact .byteClass (List.mem_map_of_mem hr) hMem.1 hMem.2
  · constructor
    · intro h
      cases h with
      | charClass hSet => exact ⟨_, hSet, rfl⟩
    · rintro ⟨c, hSet, rfl⟩
      exact .charClass hSet

theorem isWhole_ofSet : (ofSet ascii set).isWhole = true := by
  unfold ofSet
  split
  next hAscii =>
    refine List.all_eq_true.mpr fun q hq => ?_
    obtain ⟨r, hr, rfl⟩ := List.mem_map.mp hq
    have hRange := List.all_eq_true.mp (Bool.and_eq_true_iff.mp hAscii).2 r hr
    have hLast : r.last.toNat < 0x80 := of_decide_eq_true (Bool.and_eq_true_iff.mp hRange).2
    exact decide_eq_true (UInt8.lt_iff_toNat_lt.mpr (by
      rw [CharRange.bytes, toNat_toUInt8 hLast]
      exact hLast))
  · rfl

/-! ## Least lengths -/

theorem minLength_of_mem_branches {n : Nat} (h : minLengthOfBranches? ts = some n) (hBranch : t ∈ ts) :
    ∃ m, t.minLength? = some m ∧ n ≤ m := by
  induction ts generalizing n with
  | nil => cases hBranch
  | cons branch branches ih =>
    cases branches with
    | nil =>
      obtain rfl := List.mem_singleton.mp hBranch
      exact ⟨n, h, Nat.le_refl n⟩
    | cons second branches =>
      simp only [minLengthOfBranches?, Option.bind_eq_bind, Option.bind_eq_some_iff] at h
      obtain ⟨first, hFirst, more, hMore, hLeast⟩ := h
      cases hLeast
      rcases List.mem_cons.mp hBranch with rfl | hLater
      · exact ⟨first, hFirst, Nat.min_le_left first more⟩
      · obtain ⟨m, hm, hLe⟩ := ih hMore hLater
        exact ⟨m, hm, Nat.le_trans (Nat.min_le_right first more) hLe⟩

theorem Matches.minLength?_le {n : Nat} (h : t.Matches bytes) (hLength : t.minLength? = some n) :
    n ≤ bytes.length := by
  induction h generalizing n with
  | empty | look | noPart =>
    cases hLength
    exact Nat.le_refl 0
  | literal =>
    cases hLength
    exact Nat.le_refl _
  | @charClass set c hSet =>
    obtain ⟨r, hr, hIn⟩ := List.any_eq_true.mp hSet
    have hLeast := (List.min?_eq_some_iff.mp hLength).2 _ (List.mem_map_of_mem hr)
    rw [String.length_utf8EncodeChar]
    exact Nat.le_trans hLeast (Text.utf8Size_mono (CharRange.contains_iff.mp hIn).1)
  | byteClass =>
    rw [minLength?] at hLength
    split at hLength
    · cases hLength
    · cases hLength
      exact Nat.le_refl 1
  | noCopy =>
    obtain ⟨m, -, rfl⟩ := Option.map_eq_some_iff.mp hLength
    rw [Nat.zero_mul]
    exact Nat.zero_le _
  | @copy least most body u w _ _ _ ihFirst ihFurther =>
    obtain ⟨m, hm, rfl⟩ := Option.map_eq_some_iff.mp hLength
    have hFurther : (least - 1) * m ≤ w.length :=
      ihFurther (Option.map_eq_some_iff.mpr ⟨m, hm, rfl⟩)
    have hCopies : least * m ≤ m + (least - 1) * m := by
      cases least with
      | zero => simp
      | succ n => exact Nat.le_of_eq ((Nat.succ_mul n m).trans (Nat.add_comm _ _))
    rw [List.length_append]
    exact Nat.le_trans hCopies (Nat.add_le_add (ihFirst hm) hFurther)
  | capture _ ih => exact ih hLength
  | part _ _ ihFirst ihRest =>
    simp only [minLength?, minLengthOfParts?, Option.bind_eq_bind, Option.bind_eq_some_iff]
      at hLength
    obtain ⟨m, hm, k, hk, hSum⟩ := hLength
    cases hSum
    rw [List.length_append]
    exact Nat.add_le_add (ihFirst hm) (ihRest hk)
  | branch hBranch _ ih =>
    obtain ⟨m, hm, hLe⟩ := minLength_of_mem_branches hLength hBranch
    exact Nat.le_trans hLe (ih hm)

end RegexTree

/-! ## Expressions -/

namespace Regex

variable {r : Regex} {w : List Char} {bytes : List UInt8}

theorem Matches.toTree (h : r.Matches w) : r.toTree.Matches (Text.utf8 w) := by
  induction h with
  | empty => exact .empty
  | look => exact .look
  | literal => exact .literal
  | @chars ascii set c hSet =>
    exact RegexTree.matches_ofSet.mpr ⟨c, hSet, Text.utf8_singleton c⟩
  | seq _ _ ihFirst ihSecond =>
    exact RegexTree.matches_andThen.mpr ⟨_, _, Text.utf8_append _ _, ihFirst, ihSecond⟩
  | altLeft _ ih => exact RegexTree.matches_orElse.mpr (.inl ih)
  | altRight _ ih => exact RegexTree.matches_orElse.mpr (.inr ih)
  | noCopy => exact .noCopy
  | copy hBound _ _ ihFirst ihFurther =>
    rw [Text.utf8_append]
    exact .copy hBound ihFirst ihFurther
  | group _ ih => exact .capture ih

theorem exists_of_matches_repetition {body : Regex} {t : RegexTree} {least : Nat}
    {most : Option Nat} {greedy : Bool}
    (hBody : ∀ bytes, t.Matches bytes → ∃ w, bytes = Text.utf8 w ∧ body.Matches w)
    (h : (RegexTree.repetition least most t).Matches bytes) :
    ∃ w, bytes = Text.utf8 w ∧ (copies body least most greedy).Matches w := by
  generalize hWhole : RegexTree.repetition least most t = whole at h
  induction h generalizing least most with
  | noCopy =>
    cases hWhole
    exact ⟨[], rfl, .noCopy⟩
  | copy hBound hFirst _ _ ihFurther =>
    cases hWhole
    obtain ⟨u, rfl, hCopy⟩ := hBody _ hFirst
    obtain ⟨w, rfl, hFurther⟩ := ihFurther rfl
    exact ⟨u ++ w, (Text.utf8_append u w).symm, .copy hBound hCopy hFurther⟩
  | _ => cases hWhole

theorem exists_of_matches_toTree (h : r.toTree.Matches bytes) :
    ∃ w, bytes = Text.utf8 w ∧ r.Matches w := by
  induction r generalizing bytes with
  | empty =>
    cases h
    exact ⟨[], rfl, .empty⟩
  | look condition =>
    cases h
    exact ⟨[], rfl, .look⟩
  | literal text =>
    cases h
    exact ⟨text, rfl, .literal⟩
  | chars ascii set =>
    obtain ⟨c, hSet, rfl⟩ := RegexTree.matches_ofSet.mp h
    exact ⟨[c], (Text.utf8_singleton c).symm, .chars hSet⟩
  | seq a b iha ihb =>
    obtain ⟨u, v, rfl, hFirst, hSecond⟩ := RegexTree.matches_andThen.mp h
    obtain ⟨x, rfl, hx⟩ := iha hFirst
    obtain ⟨y, rfl, hy⟩ := ihb hSecond
    exact ⟨x ++ y, (Text.utf8_append x y).symm, .seq hx hy⟩
  | alt a b iha ihb =>
    rcases RegexTree.matches_orElse.mp h with h | h
    · obtain ⟨w, hw, h⟩ := iha h
      exact ⟨w, hw, .altLeft h⟩
    · obtain ⟨w, hw, h⟩ := ihb h
      exact ⟨w, hw, .altRight h⟩
  | copies body least most greedy ih => exact exists_of_matches_repetition (fun _ => ih) h
  | group index body ih =>
    cases h with
    | capture h =>
      obtain ⟨w, hw, h⟩ := ih h
      exact ⟨w, hw, .group h⟩

theorem isWhole_toTree (r : Regex) : r.toTree.isWhole = true := by
  induction r with
  | empty | look => rfl
  | literal text => simp [toTree, RegexTree.isWhole]
  | chars => exact RegexTree.isWhole_ofSet
  | seq a b iha ihb => rw [toTree, RegexTree.isWhole_andThen, iha, ihb, Bool.true_and]
  | alt a b iha ihb => rw [toTree, RegexTree.isWhole_orElse, iha, ihb, Bool.true_and]
  | copies body least most greedy ih => exact ih
  | group index body ih => exact ih

theorem library_lawful : library.Lawful where
  finds := by
    intro source find h
    obtain ⟨r, hRead, h⟩ := Option.bind_eq_some_iff.mp h
    split at h
    next =>
      cases h
      refine ⟨r.toTree, congrArg (Option.map toTree) hRead, fun text start stop hFound => ?_⟩
      obtain ⟨n, hMatch, hSpan⟩ := Option.map_eq_some_iff.mp hFound
      cases hSpan
      obtain ⟨image, behind, rfl, rfl, hImage⟩ := exists_matches_of_match? hMatch
      exact ⟨[], image, behind, rfl, rfl, rfl, hImage.toTree⟩
    · cases h
  starts := by
    intro source tree find _ hFind text start stop hFound
    obtain ⟨r, hRead, hFind⟩ := Option.bind_eq_some_iff.mp hFind
    split at hFind
    next =>
      cases hFind
      obtain ⟨n, hMatch, hSpan⟩ := Option.map_eq_some_iff.mp hFound
      cases hSpan
      rfl
    · cases hFind
  groups := by
    intro source tree grouped h hGrouped bytes hMatch
    obtain ⟨r, hRead, rfl⟩ := Option.map_eq_some_iff.mp h
    obtain ⟨whole, hWhole, rfl⟩ := Option.map_eq_some_iff.mp hGrouped
    obtain rfl := read?_atStart hRead hWhole
    obtain ⟨w, rfl, hWhole⟩ := exists_of_matches_toTree hMatch
    obtain ⟨u, v, rfl, hLook, hRest⟩ := (matches_sequence _).mp hWhole
    cases hLook
    exact (matchesAll_singleton.mp hRest).toTree
  bounds h _ hMatch := hMatch.minLength?_le h
  whole := by
    intro source tree h
    obtain ⟨r, -, rfl⟩ := Option.map_eq_some_iff.mp h
    exact isWhole_toTree r

end Regex

end PredictiveParsing
