import PredictiveParsing.Pattern.Analysis
import PredictiveParsing.Proofs.Pattern.Library
import PredictiveParsing.Proofs.Text.Utf8

/-!
# The facts of a tree hold of what it matches

A match that is not empty shows one of the first characters of the tree, and an empty one only a tree
that can be skipped. If no character is taken apart, a match is a text, and has none of the
characters that the tree cannot contain.
-/

namespace PredictiveParsing

theorem CharRange.contains_iff {r : CharRange} {c : Char} :
    r.contains c = true ↔ r.first ≤ c ∧ c ≤ r.last := by
  simp [CharRange.contains]

namespace CharSet

variable {s t : CharSet} {c : Char}

theorem contains_append : (s ++ t).contains c = (s.contains c || t.contains c) := List.any_append

theorem contains_ofChars {cs : List Char} : (ofChars cs).contains c = true ↔ c ∈ cs := by
  rw [ofChars, contains, List.any_map, List.any_eq_true]
  constructor
  · rintro ⟨d, hd, hIn⟩
    obtain ⟨hLe, hGe⟩ := CharRange.contains_iff.mp hIn
    rwa [Char.le_antisymm hGe hLe]
  · intro hc
    exact ⟨c, hc, CharRange.contains_iff.mpr ⟨Char.le_refl c, Char.le_refl c⟩⟩

theorem contains_single (c : Char) : (single c).contains c = true :=
  contains_ofChars.mpr (List.mem_singleton_self c)

end CharSet

namespace ByteRange

variable {r : ByteRange} {b : UInt8}

theorem chars_contains (hAscii : r.isAscii = true) (hFirst : r.first ≤ b) (hLast : b ≤ r.last) :
    r.chars.contains (Char.ofNat b.toNat) = true := by
  have hTop : r.last.toNat < 0x80 := of_decide_eq_true hAscii
  have hLow : r.first.toNat ≤ b.toNat := hFirst
  have hHigh : b.toNat ≤ r.last.toNat := hLast
  refine CharRange.contains_iff.mpr ⟨?_, ?_⟩
  · show (Char.ofNat r.first.toNat).toNat ≤ (Char.ofNat b.toNat).toNat
    rw [Text.toNat_ofNat (by omega), Text.toNat_ofNat (by omega)]
    exact hLow
  · show (Char.ofNat b.toNat).toNat ≤ (Char.ofNat r.last.toNat).toNat
    rw [Text.toNat_ofNat (by omega), Text.toNat_ofNat (by omega)]
    exact hHigh

end ByteRange

namespace RegexTree

variable {t : RegexTree} {ts : List RegexTree} {bytes : List UInt8} {text : List Char}
  {set : CharSet} {skips : Bool}

/-! ## First characters -/

theorem firstOfParts?_cons (h : firstOfParts? (t :: ts) = some (skips, set)) :
    ∃ first, (firstChars? t = some (false, first) ∧ skips = false ∧ set = first) ∨
      ∃ more, firstChars? t = some (true, first) ∧ firstOfParts? ts = some (skips, more) ∧
        set = first ++ more := by
  simp only [firstOfParts?, Option.bind_eq_bind, Option.bind_eq_some_iff] at h
  obtain ⟨⟨skipsFirst, first⟩, hFirst, h⟩ := h
  cases skipsFirst with
  | false =>
    cases h
    exact ⟨first, .inl ⟨hFirst, rfl, rfl⟩⟩
  | true =>
    obtain ⟨⟨skipsMore, more⟩, hMore, h⟩ := Option.bind_eq_some_iff.mp h
    cases h
    exact ⟨first, .inr ⟨more, hFirst, hMore, rfl⟩⟩

theorem exists_of_mem_branches (h : firstOfBranches? ts = some (skips, set)) (hBranch : t ∈ ts) :
    ∃ skipsOne one, firstChars? t = some (skipsOne, one) ∧ (skipsOne = true → skips = true) ∧
      ∀ c, one.contains c = true → set.contains c = true := by
  induction ts generalizing skips set with
  | nil => cases hBranch
  | cons branch branches ih =>
    simp only [firstOfBranches?, Option.bind_eq_bind, Option.bind_eq_some_iff] at h
    obtain ⟨⟨skipsFirst, first⟩, hFirst, ⟨skipsMore, more⟩, hMore, h⟩ := h
    cases h
    rcases List.mem_cons.mp hBranch with rfl | hLater
    · refine ⟨skipsFirst, first, hFirst, fun hSkip => by rw [hSkip, Bool.true_or], fun c hc => ?_⟩
      rw [CharSet.contains_append, hc, Bool.true_or]
    · obtain ⟨skipsOne, one, hOne, hSkips, hSet⟩ := ih hMore hLater
      refine ⟨skipsOne, one, hOne, fun hSkip => by rw [hSkips hSkip, Bool.or_true], fun c hc => ?_⟩
      rw [CharSet.contains_append, hSet c hc, Bool.or_true]

theorem Matches.skips_eq_true (h : t.Matches bytes) (hNil : bytes = [])
    (hFirst : t.firstChars? = some (skips, set)) : skips = true := by
  induction h generalizing skips set with
  | empty | look | noPart =>
    cases hFirst
    rfl
  | literal =>
    obtain ⟨c, hChar, -⟩ := Option.map_eq_some_iff.mp hFirst
    rw [hNil] at hChar
    cases hChar
  | charClass => exact absurd hNil String.utf8EncodeChar_ne_nil
  | byteClass => cases hNil
  | noCopy =>
    obtain ⟨known, -, hKnown⟩ := Option.map_eq_some_iff.mp hFirst
    cases hKnown
    exact Bool.or_true _
  | copy _ _ _ ihFirst _ =>
    obtain ⟨⟨skipsBody, body⟩, hBody, hKnown⟩ := Option.map_eq_some_iff.mp hFirst
    cases hKnown
    rw [ihFirst (List.append_eq_nil_iff.mp hNil).1 hBody, Bool.true_or]
  | capture _ ih => exact ih hNil hFirst
  | part _ _ ihFirst ihRest =>
    obtain ⟨hNilFirst, hNilRest⟩ := List.append_eq_nil_iff.mp hNil
    obtain ⟨first, ⟨hHead, -, -⟩ | ⟨more, -, hMore, -⟩⟩ := firstOfParts?_cons hFirst
    · exact absurd (ihFirst hNilFirst hHead) Bool.false_ne_true
    · exact ihRest hNilRest hMore
  | branch hBranch _ ih =>
    obtain ⟨skipsOne, one, hOne, hSkips, -⟩ := exists_of_mem_branches hFirst hBranch
    exact hSkips (ih hNil hOne)

/-- Bytes that a text begins with and that show a character show one of the text. -/
theorem exists_first {c : Char} (hChar : Text.firstChar? bytes = some c)
    (hText : bytes <+: Text.utf8 text) (hSet : set.contains c = true) :
    ∃ c cs, text = c :: cs ∧ set.contains c = true := by
  obtain ⟨cs, hCons⟩ := Text.exists_cons_of_firstChar? hChar hText
  exact ⟨c, cs, hCons, hSet⟩

theorem Matches.contains_first (h : t.Matches bytes) (hCons : bytes ≠ [])
    (hText : bytes <+: Text.utf8 text) (hFirst : t.firstChars? = some (skips, set)) :
    ∃ c cs, text = c :: cs ∧ set.contains c = true := by
  induction h generalizing skips set with
  | empty | look | noCopy | noPart => exact absurd rfl hCons
  | literal =>
    obtain ⟨c, hChar, hKnown⟩ := Option.map_eq_some_iff.mp hFirst
    cases hKnown
    exact exists_first hChar hText (CharSet.contains_single c)
  | charClass hSet =>
    cases hFirst
    exact exists_first (Text.firstChar?_encode _) hText hSet
  | @byteClass ranges r b hRange hLow hHigh =>
    rw [firstChars?] at hFirst
    split at hFirst
    next hAscii =>
      cases hFirst
      have hRangeAscii : r.isAscii = true := List.all_eq_true.mp hAscii r hRange
      have hByte : b < 0x80 := UInt8.lt_of_le_of_lt hHigh (of_decide_eq_true hRangeAscii)
      have hChar : Text.firstChar? [b] = some (Char.ofNat b.toNat) := by
        rw [← Text.encode_ofNat hByte, Text.firstChar?_encode]
      refine exists_first hChar hText (List.any_eq_true.mpr ⟨r.chars, ?_, ?_⟩)
      · exact List.mem_map_of_mem hRange
      · exact ByteRange.chars_contains hRangeAscii hLow hHigh
    · cases hFirst
  | @copy least most body u w _ _ _ ihFirst ihFurther =>
    obtain ⟨⟨skipsBody, first⟩, hBody, hKnown⟩ := Option.map_eq_some_iff.mp hFirst
    cases hKnown
    by_cases hNil : u = []
    · subst hNil
      exact ihFurther hCons hText (Option.map_eq_some_iff.mpr ⟨_, hBody, rfl⟩)
    · exact ihFirst hNil ((List.prefix_append u w).trans hText) hBody
  | capture _ ih => exact ih hCons hText hFirst
  | @part t ts u w hHere _ ihFirst ihRest =>
    by_cases hNil : u = []
    · subst hNil
      obtain ⟨first, ⟨hHead, -, -⟩ | ⟨more, -, hMore, rfl⟩⟩ := firstOfParts?_cons hFirst
      · exact absurd (hHere.skips_eq_true rfl hHead) Bool.false_ne_true
      · obtain ⟨c, cs, hText, hSet⟩ := ihRest hCons hText hMore
        exact ⟨c, cs, hText, by rw [CharSet.contains_append, hSet, Bool.or_true]⟩
    · have hHere := (List.prefix_append u w).trans hText
      obtain ⟨first, ⟨hHead, -, rfl⟩ | ⟨more, hHead, -, rfl⟩⟩ := firstOfParts?_cons hFirst
      · exact ihFirst hNil hHere hHead
      · obtain ⟨c, cs, hText, hSet⟩ := ihFirst hNil hHere hHead
        exact ⟨c, cs, hText, by rw [CharSet.contains_append, hSet, Bool.true_or]⟩
  | branch hBranch _ ih =>
    obtain ⟨skipsOne, one, hOne, -, hSet⟩ := exists_of_mem_branches hFirst hBranch
    obtain ⟨c, cs, hText, hIn⟩ := ih hCons hText hOne
    exact ⟨c, cs, hText, hSet c hIn⟩

/-! ## Characters of a match -/

variable {terminators : List Char}

theorem isWhole_of_mem (h : areWhole ts = true) (hMem : t ∈ ts) : t.isWhole = true := by
  induction ts with
  | nil => cases hMem
  | cons head tail ih =>
    obtain ⟨hHead, hTail⟩ := Bool.and_eq_true_iff.mp h
    rcases List.mem_cons.mp hMem with rfl | hMem
    · exact hHead
    · exact ih hTail hMem

theorem oneCanContain_of_mem (h : t.canContain terminators = true) (hMem : t ∈ ts) :
    oneCanContain terminators ts = true := by
  induction ts with
  | nil => cases hMem
  | cons head tail ih =>
    rw [oneCanContain]
    rcases List.mem_cons.mp hMem with rfl | hMem
    · rw [h, Bool.true_or]
    · rw [ih hMem, Bool.or_true]

theorem Matches.exists_text (h : t.Matches bytes) (hWhole : t.isWhole = true) :
    ∃ image, bytes = Text.utf8 image ∧
      ∀ c ∈ image, c ∈ terminators → t.canContain terminators = true := by
  induction h with
  | empty | look | noCopy | noPart => exact ⟨[], rfl, fun c hc => absurd hc List.not_mem_nil⟩
  | @literal bytes =>
    refine ⟨Text.decode bytes, (eq_of_beq hWhole).symm, fun c hc hTerminator => ?_⟩
    exact List.any_eq_true.mpr ⟨c, hc, List.contains_iff_mem.mpr hTerminator⟩
  | @charClass set c hSet =>
    refine ⟨[c], (Text.utf8_singleton c).symm, fun d hd hTerminator => ?_⟩
    obtain rfl := List.mem_singleton.mp hd
    obtain ⟨r, hr, hIn⟩ := List.any_eq_true.mp hSet
    exact List.any_eq_true.mpr ⟨r, hr, List.any_eq_true.mpr ⟨d, hTerminator, hIn⟩⟩
  | @byteClass ranges r b hRange hLow hHigh =>
    have hAscii : r.last < 0x80 := of_decide_eq_true (List.all_eq_true.mp hWhole r hRange)
    have hByte : b < 0x80 := UInt8.lt_of_le_of_lt hHigh hAscii
    refine ⟨[Char.ofNat b.toNat], ?_, fun c hc hTerminator => ?_⟩
    · rw [Text.utf8_singleton, Text.encode_ofNat hByte]
    · obtain rfl := List.mem_singleton.mp hc
      refine List.any_eq_true.mpr ⟨r, hRange, List.any_eq_true.mpr ⟨_, hTerminator, ?_⟩⟩
      have hNat : b.toNat < 0x80 := hByte
      simp only [ByteRange.containsAscii, Text.toNat_ofNat hNat, Bool.and_eq_true, decide_eq_true_eq]
      exact ⟨⟨hNat, hLow⟩, hHigh⟩
  | copy _ _ _ ihFirst ihFurther =>
    obtain ⟨front, rfl, hFront⟩ := ihFirst hWhole
    obtain ⟨behind, rfl, hBehind⟩ := ihFurther hWhole
    refine ⟨front ++ behind, (Text.utf8_append front behind).symm, fun c hc => ?_⟩
    exact (List.mem_append.mp hc).elim (hFront c) (hBehind c)
  | capture _ ih => exact ih hWhole
  | part _ _ ihFirst ihRest =>
    obtain ⟨hHead, hTail⟩ := Bool.and_eq_true_iff.mp hWhole
    obtain ⟨front, rfl, hFront⟩ := ihFirst hHead
    obtain ⟨behind, rfl, hBehind⟩ := ihRest hTail
    refine ⟨front ++ behind, (Text.utf8_append front behind).symm, fun c hc hTerminator => ?_⟩
    rw [canContain, oneCanContain, Bool.or_eq_true]
    exact (List.mem_append.mp hc).imp (hFront c · hTerminator) (hBehind c · hTerminator)
  | branch hBranch _ ih =>
    obtain ⟨image, hImage, hContains⟩ := ih (isWhole_of_mem hWhole hBranch)
    exact ⟨image, hImage, fun c hc hTerminator =>
      oneCanContain_of_mem (hContains c hc hTerminator) hBranch⟩

end RegexTree

end PredictiveParsing
