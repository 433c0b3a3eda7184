/-!
# Texts as bytes

The UTF-8 form of a text, and what bytes stand for that need not be the form of a text.
-/

namespace PredictiveParsing.Text

def utf8 (cs : List Char) : List UInt8 := cs.flatMap String.utf8EncodeChar

def firstChar? (bytes : List UInt8) : Option Char := bytes.toByteArray.utf8DecodeChar? 0

def replacement : Char := Char.ofNat 0xFFFD

/-- The number of bytes that are replaced together, where no whole character stands: the beginning
of one that breaks off, or else a single byte. A beginning of two bytes or more can always be
completed by the least of the bytes that follow in a character. -/
def brokenLength (bytes : List UInt8) : Nat :=
  let canBegin (n : Nat) : Bool := (firstChar? (bytes.take n ++ [0x80, 0x80])).isSome
  if canBegin 3 then 3 else if canBegin 2 then 2 else 1

/-- The text of some bytes, where `replacement` stands for what is no part of a character. The first
argument bounds the number of characters. -/
def decodeUpTo : Nat → List UInt8 → List Char
  | 0, _ => []
  | n + 1, bytes =>
    match firstChar? bytes with
    | some c => c :: decodeUpTo n (bytes.drop c.utf8Size)
    | none =>
      if bytes.isEmpty then []
      else replacement :: decodeUpTo n (bytes.drop (brokenLength bytes))

def decode (bytes : List UInt8) : List Char := decodeUpTo bytes.length bytes

end PredictiveParsing.Text
