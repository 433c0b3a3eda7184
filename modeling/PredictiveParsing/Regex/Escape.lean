import PredictiveParsing.Regex.Flags
import PredictiveParsing.Regex.Basic
import PredictiveParsing.Text.Table.Word

/-!
# Escapes and named classes

What a backslash and the characters after it stand for, and the classes that have a name.
-/

namespace PredictiveParsing.Regex

def metaChars : List Char := "\\.+*?()|[]\x7b\x7d^$#&-~".toList

/-- Punctuation may be escaped without need. Letters, digits and angle brackets may not. -/
def mayEscape (c : Char) : Bool :=
  metaChars.contains c || (c.toNat < 0x80 && !c.isAlphanum && c != '<' && c != '>')

def hexDigit? (c : Char) : Option Nat :=
  if '0' ≤ c && c ≤ '9' then some (c.toNat - '0'.toNat)
  else if 'a' ≤ c && c ≤ 'f' then some (c.toNat - 'a'.toNat + 10)
  else if 'A' ≤ c && c ≤ 'F' then some (c.toNat - 'A'.toNat + 10)
  else none

def charOf? (n : Nat) : Option Char := if n.isValidChar then some (Char.ofNat n) else none

def hexChar? (digits : List Char) : Option Char :=
  if digits.isEmpty then none
  else do
    let values ← digits.mapM hexDigit?
    charOf? (values.foldl (fun n d => 16 * n + d) 0)

def takeChars? (flags : Flags) : Nat → List Char → Option (List Char × List Char)
  | 0, cs => some ([], cs)
  | n + 1, cs =>
    match flags.skip cs with
    | [] => none
    | c :: cs => (takeChars? flags n cs).map fun (taken, rest) => (c :: taken, rest)

def readRun (flags : Flags) (mayRead : Char → Bool) : Nat → List Char → List Char × List Char
  | 0, cs => ([], cs)
  | n + 1, cs =>
    match flags.skip cs with
    | [] => ([], [])
    | c :: cs =>
      if mayRead c then
        let (run, rest) := readRun flags mayRead n cs
        (c :: run, rest)
      else ([], c :: cs)

/-- A code point in hexadecimal: in braces, or with a fixed number of digits. -/
def readHex? (flags : Flags) (count : Nat) (cs : List Char) : Option (Char × List Char) :=
  match flags.skip cs with
  | '\x7b' :: cs =>
    match readRun flags (· ≠ '\x7d') (cs.length + 1) cs with
    | (digits, '\x7d' :: rest) => (hexChar? digits).map fun c => (c, rest)
    | _ => none
  | cs => do
    let (digits, rest) ← takeChars? flags count cs
    let c ← hexChar? digits
    return (c, rest)

def asciiDigit : CharSet := [⟨'0', '9'⟩]

def asciiSpace : CharSet := [⟨'\x09', '\x0d'⟩, ⟨' ', ' '⟩]

def asciiWordSet : CharSet := [⟨'0', '9'⟩, ⟨'A', 'Z'⟩, ⟨'_', '_'⟩, ⟨'a', 'z'⟩]

/-- The class of a letter after a backslash. A capital letter stands for the complement, which
reaches beyond ASCII and so is refused where only ASCII is wanted. -/
def letterClass? (flags : Flags) (c : Char) : Option (Option CharSet) :=
  let named (unicode ascii : CharSet) (negated : Bool) : Option CharSet :=
    if flags.unicode then some (if negated then unicode.complement else unicode)
    else if negated then none else some ascii
  match c with
  | 'd' => some (named CharSet.digit asciiDigit false)
  | 'D' => some (named CharSet.digit asciiDigit true)
  | 's' => some (named CharSet.whiteSpace asciiSpace false)
  | 'S' => some (named CharSet.whiteSpace asciiSpace true)
  | 'w' => some (named CharSet.word asciiWordSet false)
  | 'W' => some (named CharSet.word asciiWordSet true)
  | _ => none

def asciiClass? (name : String) : Option CharSet :=
  match name with
  | "alnum" => some [⟨'0', '9'⟩, ⟨'A', 'Z'⟩, ⟨'a', 'z'⟩]
  | "alpha" => some [⟨'A', 'Z'⟩, ⟨'a', 'z'⟩]
  | "ascii" => some [⟨'\x00', '\x7f'⟩]
  | "blank" => some [⟨'\x09', '\x09'⟩, ⟨' ', ' '⟩]
  | "cntrl" => some [⟨'\x00', '\x1f'⟩, ⟨'\x7f', '\x7f'⟩]
  | "digit" => some asciiDigit
  | "graph" => some [⟨'!', '~'⟩]
  | "lower" => some [⟨'a', 'z'⟩]
  | "print" => some [⟨' ', '~'⟩]
  | "punct" => some [⟨'!', '/'⟩, ⟨':', '@'⟩, ⟨'[', Char.ofNat 0x60⟩, ⟨'\x7b', '~'⟩]
  | "space" => some asciiSpace
  | "upper" => some [⟨'A', 'Z'⟩]
  | "word" => some asciiWordSet
  | "xdigit" => some [⟨'0', '9'⟩, ⟨'A', 'F'⟩, ⟨'a', 'f'⟩]
  | _ => none

inductive Escaped where
  /-- `byte` marks a code point given by two hexadecimal digits. -/
  | char (c : Char) (byte : Bool)
  | set (s : CharSet)
  | look (condition : Look)

/-- Reads what follows the letter of a word boundary: the name of a special one in braces, or
nothing. What cannot begin a name is left as a repetition. -/
def readBoundary? (flags : Flags) (cs : List Char) : Option (Escaped × List Char) :=
  let ascii := !flags.unicode
  let mayName (c : Char) : Bool := c.isAlpha || c = '-'
  let plain : Escaped × List Char := (.look (.wordBoundary ascii), cs)
  match cs with
  | '\x7b' :: inner =>
    match readRun flags mayName (inner.length + 1) inner with
    | ([], _) => some plain
    | (name, '\x7d' :: rest) =>
      (namedBoundary? ascii (String.ofList name)).map fun l => (.look l, rest)
    | _ => none
  | _ => some plain
where
  namedBoundary? (ascii : Bool) (name : String) : Option Look :=
    match name with
    | "start" => some (.wordStart ascii)
    | "end" => some (.wordEnd ascii)
    | "start-half" => some (.wordStartHalf ascii)
    | "end-half" => some (.wordEndHalf ascii)
    | _ => none

def readEscape? (flags : Flags) : List Char → Option (Escaped × List Char)
  | [] => none
  | c :: cs =>
    if c = 'x' then
      (readHex? flags 2 cs).map fun (h, rest) =>
        (.char h ((flags.skip cs).head? != some '\x7b'), rest)
    else if c = 'u' then (readHex? flags 4 cs).map fun (h, rest) => (.char h false, rest)
    else if c = 'U' then (readHex? flags 8 cs).map fun (h, rest) => (.char h false, rest)
    else if mayEscape c then some (.char c false, cs)
    else match letterClass? flags c with
      | some class? => class?.map fun s => (.set s, cs)
      | none =>
        match c with
        | 'a' => some (.char '\x07' false, cs)
        | 'f' => some (.char '\x0c' false, cs)
        | 't' => some (.char '\t' false, cs)
        | 'n' => some (.char '\n' false, cs)
        | 'r' => some (.char '\r' false, cs)
        | 'v' => some (.char '\x0b' false, cs)
        | 'A' => some (.look .textStart, cs)
        | 'z' => some (.look .textEnd, cs)
        | 'b' => readBoundary? flags cs
        | 'B' => some (.look (.notWordBoundary !flags.unicode), cs)
        | '<' => some (.look (.wordStart !flags.unicode), cs)
        | '>' => some (.look (.wordEnd !flags.unicode), cs)
        | _ => none

end PredictiveParsing.Regex
