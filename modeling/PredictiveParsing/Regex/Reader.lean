import PredictiveParsing.Regex.CharClass
import PredictiveParsing.Regex.Normal
import PredictiveParsing.Text.Table.Name

/-!
# Reading regular expressions

A reader of the usual notation. Flags are part of what is left to read, since a group can change
them half way. Expressions come in normal form, together with how deep their notation is nested:
what is nested too deep is refused.
-/

namespace PredictiveParsing.Regex

/-- What is left to read, the flags in force, the number of numbered groups begun so far, and the
group names among them. -/
structure Source where
  rest : List Char
  flags : Flags
  groups : Nat
  names : List (List Char)

structure Nested where
  expression : Regex
  depth : Nat

def maxDepth : Nat := 250

/-- A character by itself, or any of its case variants. Where only ASCII is wanted, other characters
have no variants. -/
def ofChar (flags : Flags) (c : Char) : Regex :=
  if flags.unicode || c.toNat < 0x80 then ofSet (!flags.unicode) (foldCase flags (.single c))
  else .literal [c]

/-- Any character, or any but those that end a line. Where only ASCII is wanted it is refused, since
it would take texts apart inside a character. -/
def anyChar? (flags : Flags) : Option Regex :=
  if !flags.unicode then none
  else if flags.dotMatchesAll then some (ofSet false CharSet.all)
  else if flags.anyLineEnd then some (ofSet false (CharSet.ofChars ['\n', '\r']).complement)
  else some (ofSet false (CharSet.single '\n').complement)

def startLook (flags : Flags) : Look :=
  if !flags.multiLine then .textStart else if flags.anyLineEnd then .anyLineStart else .lineStart

def endLook (flags : Flags) : Look :=
  if !flags.multiLine then .textEnd else if flags.anyLineEnd then .anyLineEnd else .lineEnd

def ofEscaped? (flags : Flags) : Escaped → Option Regex
  | .char c byte =>
    if byte && !flags.unicode && 0x80 ≤ c.toNat then none else some (ofChar flags c)
  | .set s => some (ofSet (!flags.unicode) s)
  | .look condition => some (.look condition)

/-- A decimal number that fits 32 bits, with blanks around it. -/
def readCount? (cs : List Char) : Option (Nat × List Char) :=
  match (cs.dropWhile isBlank).span Char.isDigit with
  | ([], _) => none
  | (ds, rest) =>
    let n := ds.foldl (fun n d => 10 * n + (d.toNat - '0'.toNat)) 0
    if n < 1 <<< 32 then some (n, rest.dropWhile isBlank) else none

def readBounds? (flags : Flags) (cs : List Char) : Option (Nat × Option Nat × List Char) := do
  let (least, rest) ← readCount? (flags.skip cs)
  match rest with
  | '\x7d' :: rest => return (least, some least, flags.skip rest)
  | ',' :: rest =>
    match flags.skip rest with
    | '\x7d' :: rest => return (least, none, flags.skip rest)
    | rest => do
      let (most, rest) ← readCount? rest
      let '\x7d' :: rest := rest | none
      if least ≤ most then return (least, some most, flags.skip rest) else none
  | _ => none

/-- A repetition operator, if one comes next: its bounds, and whether it is greedy. The inner result
is missing where an operator begins but is malformed. -/
def readRepetition? (flags : Flags) (cs : List Char) :
    Option (Option (Nat × Option Nat × Bool × List Char)) :=
  let bounds? : Option (Option (Nat × Option Nat × List Char)) := match cs with
    | '*' :: rest => some (some (0, none, rest))
    | '+' :: rest => some (some (1, none, rest))
    | '?' :: rest => some (some (0, some 1, rest))
    | '\x7b' :: rest => some (readBounds? flags rest)
    | _ => none
  bounds?.map fun b? => b?.map fun (least, most, rest) =>
    match rest with
    | '?' :: rest => (least, most, flags.swapGreed, rest)
    | rest => (least, most, !flags.swapGreed, rest)

def readName? (cs : List Char) : Option (List Char × List Char) :=
  let first (c : Char) := c = '_' || Text.isLetter c
  let later (c : Char) := c = '_' || c = '.' || c = '[' || c = ']' || Text.isLetterOrNumber c
  match cs.span (· ≠ '>') with
  | (c :: name, '>' :: rest) => if first c && name.all later then some (c :: name, rest) else none
  | _ => none

inductive Opening where
  | numbered (source : Source)
  | plain (source : Source)
  /-- Flags for the rest of the group around them. -/
  | flagsOnly (source : Source)

/-- Reads what follows an opening parenthesis. Looking around is refused. -/
def readOpeningOf? (src : Source) (cs : List Char) : Option Opening :=
  let numbered (rest : List Char) (names : List (List Char)) : Opening :=
    .numbered { src with rest, names, groups := src.groups + 1 }
  let named (cs : List Char) : Option Opening := do
    let (name, rest) ← readName? cs
    if src.names.contains name then none else return numbered rest (name :: src.names)
  match src.flags.skip cs with
  | '?' :: 'P' :: '<' :: cs => named cs
  | '?' :: '<' :: '=' :: _ => none
  | '?' :: '<' :: '!' :: _ => none
  | '?' :: '<' :: cs => named cs
  | '?' :: cs =>
    match src.flags.read? cs with
    | some (flags, ':' :: rest) => some (.plain { src with rest, flags })
    | some (flags, ')' :: rest) =>
      if cs.head? = some ')' then none else some (.flagsOnly { src with rest, flags })
    | _ => none
  | cs => some (numbered cs src.names)

def readAtom? (flags : Flags) : List Char → Option (Nested × List Char)
  | [] => none
  | '[' :: cs => do
    let (s, rest) ← readClass? flags (cs.length + 1) cs
    return (⟨ofSet (!flags.unicode) s.set, s.depth⟩, rest)
  | '.' :: rest => do return (⟨← anyChar? flags, 0⟩, rest)
  | '^' :: rest => some (⟨.look (startLook flags), 0⟩, rest)
  | '$' :: rest => some (⟨.look (endLook flags), 0⟩, rest)
  | '\\' :: cs => do
    let (escaped, rest) ← readEscape? flags cs
    return (⟨← ofEscaped? flags escaped, 0⟩, rest)
  | c :: rest => some (⟨ofChar flags c, 0⟩, rest)

/-- The parts of a sequence read so far, the last first. A part without an expression stands for
flags, which cannot be repeated. -/
abbrev Parts := List (Option Regex × Nat)

def Parts.toNested (ps : Parts) : Nested :=
  ⟨sequence (ps.reverse.filterMap (·.1)), joinDepths (ps.map (·.2))⟩

def choiceOfNested (rs : List Nested) : Nested :=
  ⟨choice (rs.map (·.expression)), joinDepths (rs.map (·.depth))⟩

mutual

def readChoice? : Nat → List Nested → Source → Option (Nested × Source)
  | 0, _, _ => none
  | fuel + 1, done, src => do
    let (branch, src) ← readSequence? fuel [] src
    match src.rest with
    | '|' :: rest => readChoice? fuel (branch :: done) { src with rest }
    | _ => return (choiceOfNested (branch :: done).reverse, src)

def readSequence? : Nat → Parts → Source → Option (Nested × Source)
  | 0, _, _ => none
  | fuel + 1, done, src =>
    let finished (rest : List Char) := some (done.toNested, { src with rest })
    match src.flags.skip src.rest with
    | [] => finished []
    | ')' :: rest => finished (')' :: rest)
    | '|' :: rest => finished ('|' :: rest)
    | '(' :: cs => readParenthesis? fuel done src cs
    | cs =>
      match readRepetition? src.flags cs with
      | some none => none
      | some (some (least, most, greedy, rest)) =>
        match done with
        | (some part, depth) :: done =>
          readSequence? fuel ((some (repetition part least most greedy), depth + 1) :: done)
            { src with rest }
        | _ => none
      | none => do
        let (atom, rest) ← readAtom? src.flags cs
        readSequence? fuel ((some atom.expression, atom.depth) :: done) { src with rest }

def readParenthesis? : Nat → Parts → Source → List Char → Option (Nested × Source)
  | 0, _, _, _ => none
  | fuel + 1, done, src, cs =>
    match readOpeningOf? src cs with
    | none => none
    | some (.flagsOnly src) => readSequence? fuel ((none, 0) :: done) src
    | some (.numbered inner) => do
      let (body, rest) ← readGroup? fuel src.flags inner
      let part := .group inner.groups body.expression
      readSequence? fuel ((some part, body.depth + 1) :: done) rest
    | some (.plain inner) => do
      let (body, rest) ← readGroup? fuel src.flags inner
      readSequence? fuel ((some body.expression, body.depth + 1) :: done) rest

/-- The inside of a group and its closing parenthesis, after which the flags are as before. -/
def readGroup? : Nat → Flags → Source → Option (Nested × Source)
  | 0, _, _ => none
  | fuel + 1, flags, inner => do
    let (body, src) ← readChoice? fuel [] inner
    let ')' :: rest := src.rest | none
    return (body, { src with rest, flags })

end

def readText? (cs : List Char) : Option Regex := do
  let (r, src) ← readChoice? (4 * cs.length + 4) [] ⟨cs, .initial, 0, []⟩
  if src.rest.isEmpty && r.depth ≤ maxDepth then return r.expression else none

def read? (source : String) : Option Regex := readText? source.toList

end PredictiveParsing.Regex
