/-!
# Ranges of bytes

A range of characters is the union of a few products of byte ranges, one range for each byte of the
characters' UTF-8 form. The products below are in ascending order.
-/

namespace PredictiveParsing

structure ByteRange where
  first : UInt8
  last : UInt8
deriving DecidableEq, Repr

namespace ByteRange

/-- The first code points of the second part of a range that has to be cut: around surrogates, where
the number of bytes changes, and where the bytes after one that varies do not take all values. -/
def cuts (lo hi : Nat) : List Nat :=
  (if lo < 0xE000 ∧ 0xD7FF < hi then [0xE000] else [])
    ++ [0x80, 0x800, 0x10000].filter (fun n => lo < n ∧ n ≤ hi)
    ++ (if hi < 0x80 then [] else [0x40, 0x1000, 0x40000].flatMap fun block =>
      if lo / block = hi / block then []
      else
        (if lo % block = 0 then [] else [(lo / block + 1) * block])
          ++ if hi % block + 1 = block then [] else [hi / block * block])

def lastBefore (n : Nat) : Nat := if n = 0xE000 then 0xD7FF else n - 1

def ofCodePoints (lo hi : Nat) : List ByteRange :=
  List.zipWith ByteRange.mk (String.utf8EncodeChar (Char.ofNat lo))
    (String.utf8EncodeChar (Char.ofNat hi))

def products (lo hi : Nat) : List (List ByteRange) :=
  match cuts lo hi with
  | [] => [ofCodePoints lo hi]
  | n :: _ =>
    if _ : lo < n ∧ n ≤ hi then products lo (lastBefore n) ++ products n hi
    else [ofCodePoints lo hi]
termination_by hi - lo
decreasing_by
  · simp only [lastBefore]
    split <;> omega
  · omega

end ByteRange

end PredictiveParsing
