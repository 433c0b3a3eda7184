import PredictiveParsing.Text.Table.Word

/-!
# Flags of regular expressions

A group can switch flags on and off for what follows in it. One flag lets blanks and comments stand
between the parts of an expression.
-/

namespace PredictiveParsing.Regex

structure Flags where
  ignoreCase : Bool
  multiLine : Bool
  dotMatchesAll : Bool
  swapGreed : Bool
  unicode : Bool
  /-- A carriage return ends a line too, by itself or before a line feed. -/
  anyLineEnd : Bool
  ignoreBlanks : Bool
deriving DecidableEq, Repr

namespace Flags

def initial : Flags := ⟨false, false, false, false, true, false, false⟩

def set? (flags : Flags) (letter : Char) (value : Bool) : Option Flags :=
  match letter with
  | 'i' => some { flags with ignoreCase := value }
  | 'm' => some { flags with multiLine := value }
  | 's' => some { flags with dotMatchesAll := value }
  | 'U' => some { flags with swapGreed := value }
  | 'u' => some { flags with unicode := value }
  | 'R' => some { flags with anyLineEnd := value }
  | 'x' => some { flags with ignoreBlanks := value }
  | _ => none

/-- Reads letters up to a colon or a closing parenthesis, which is left in the text. No letter may
occur twice, and something has to follow the one minus sign there may be. -/
def read? (flags : Flags) (cs : List Char) : Option (Flags × List Char) :=
  go flags true [] false cs
where
  go (flags : Flags) (value : Bool) (seen : List Char) (dangling : Bool) :
      List Char → Option (Flags × List Char)
    | [] => none
    | c :: cs =>
      if c = ':' || c = ')' then if dangling then none else some (flags, c :: cs)
      else if c = '-' then if value then go flags false seen true cs else none
      else if seen.contains c then none
      else match flags.set? c value with
        | none => none
        | some flags => go flags value (c :: seen) false cs

end Flags

def isBlank (c : Char) : Bool := CharSet.whiteSpace.contains c

def dropBlanks (inComment : Bool) : List Char → List Char
  | [] => []
  | c :: cs =>
    if inComment then dropBlanks (c != '\n') cs
    else if isBlank c then dropBlanks false cs
    else if c = '#' then dropBlanks true cs
    else c :: cs

def Flags.skip (flags : Flags) (cs : List Char) : List Char :=
  if flags.ignoreBlanks then dropBlanks false cs else cs

/-- Looks at the character after blanks and a number sign, even where that begins a comment. Where
nothing but those is left, it is the first of them. -/
def Flags.peek? (flags : Flags) (cs : List Char) : Option Char :=
  if !flags.ignoreBlanks then cs.head?
  else
    let rest := cs.dropWhile isBlank
    let rest := match rest with
      | '#' :: rest => rest.dropWhile isBlank
      | rest => rest
    match rest with
    | c :: _ => some c
    | [] => cs.head?

end PredictiveParsing.Regex
