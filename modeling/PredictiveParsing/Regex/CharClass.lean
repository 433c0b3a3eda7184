import PredictiveParsing.Regex.Escape
import PredictiveParsing.Text.Table.Folding

/-!
# Bracketed classes

A class in brackets is a union of characters, ranges, named classes and further classes; operators
between two unions take their intersection or difference. A class folds case before it is negated.
How deep classes are nested is counted, since too deep ones are refused.
-/

namespace PredictiveParsing.Regex

/-- Adds case variants if case is ignored; only those in ASCII if only ASCII is wanted. -/
def foldCase (flags : Flags) (s : CharSet) : CharSet :=
  if !flags.ignoreCase then s
  else if flags.unicode then s.closeUnderCase
  else s.closeUnderCase.inter [⟨'\x00', '\x7f'⟩]

/-- The complement, which is refused where only ASCII is wanted. -/
def negate? (flags : Flags) (negated : Bool) (s : CharSet) : Option CharSet :=
  if !negated then some s.normalize else if flags.unicode then some s.complement else none

inductive SetOperator where
  | intersection
  | difference
  | symmetricDifference

def SetOperator.apply (op : SetOperator) (s t : CharSet) : CharSet :=
  match op with
  | .intersection => s.inter t
  | .difference => s.diff t
  | .symmetricDifference => (s.diff t).union (t.diff s)

/-- The depth of some parts: several of them are one level deeper than the deepest. -/
def joinDepths : List Nat → Nat
  | [] => 0
  | [d] => d
  | ds => ds.foldl max 0 + 1

structure NestedSet where
  set : CharSet
  depth : Nat

structure Union where
  set : CharSet
  depths : List Nat

namespace Union

def empty : Union := ⟨[], []⟩

def add (u : Union) (s : CharSet) (depth : Nat) : Union := ⟨u.set.union s, depth :: u.depths⟩

def toNestedSet (u : Union) : NestedSet := ⟨u.set, joinDepths u.depths⟩

end Union

abbrev Pending := Option (NestedSet × SetOperator)

def complete (flags : Flags) (pending : Pending) (u : Union) : NestedSet :=
  let right := u.toNestedSet
  match pending with
  | none => right
  | some (left, op) =>
    ⟨op.apply (foldCase flags left.set) (foldCase flags right.set), max left.depth right.depth + 1⟩

def classChar? (flags : Flags) (c : Char) : Option Char :=
  if flags.unicode || c.toNat < 0x80 then some c else none

def readMember? (flags : Flags) : List Char → Option ((Char ⊕ CharSet) × List Char)
  | [] => none
  | '\\' :: cs =>
    match readEscape? flags cs with
    | some (.char c _, rest) => (classChar? flags c).map fun c => (.inl c, rest)
    | some (.set s, rest) => some (.inr s, rest)
    | _ => none
  | c :: cs => (classChar? flags c).map fun c => (.inl c, cs)

/-- A member or a range. A minus sign before the end of the class or before another minus sign makes
no range. -/
def readRange? (flags : Flags) (cs : List Char) : Option (CharSet × List Char) := do
  let (first, rest) ← readMember? flags cs
  let alone : CharSet := match first with
    | .inl c => .single c
    | .inr s => s
  match flags.skip rest with
  | [] => none
  | '-' :: after =>
    if flags.peek? after = some ']' || flags.peek? after = some '-' then
      return (alone, '-' :: after)
    else do
      let (last, rest) ← readMember? flags (flags.skip after)
      let .inl lo := first | none
      let .inl hi := last | none
      if lo ≤ hi then return ([⟨lo, hi⟩], rest) else none
  | rest => return (alone, rest)

def readNamed? : List Char → Option (Bool × CharSet × List Char)
  | ':' :: cs =>
    let (negated, cs) : Bool × List Char := match cs with
      | '^' :: r => (true, r)
      | r => (false, r)
    match cs.span (· ≠ ':') with
    | (name, ':' :: ']' :: rest) =>
      (asciiClass? (String.ofList name)).map fun s => (negated, s, rest)
    | _ => none
  | _ => none

def readDashes (flags : Flags) (u : Union) : Nat → List Char → Union × List Char
  | 0, cs => (u, cs)
  | n + 1, cs =>
    match flags.skip cs with
    | '-' :: cs => readDashes flags (u.add (.single '-') 0) n cs
    | cs => (u, cs)

/-- The beginning of a class after its bracket: whether it is negated, and the minus signs and the
closing bracket that stand for themselves there. -/
def readOpening? (flags : Flags) (cs : List Char) : Option (Bool × Union × List Char) :=
  let (negated, cs) : Bool × List Char := match flags.skip cs with
    | '^' :: r => (true, r)
    | r => (false, r)
  let (u, cs) := readDashes flags .empty (cs.length + 1) cs
  match cs with
  | [] => none
  | ']' :: r =>
    if !u.depths.isEmpty then some (negated, u, cs)
    else if (flags.skip r).isEmpty then none
    else some (negated, u.add (.single ']') 0, r)
  | _ => some (negated, u, cs)

mutual

def readClass? (flags : Flags) : Nat → List Char → Option (NestedSet × List Char)
  | 0, _ => none
  | fuel + 1, cs => do
    let (negated, u, rest) ← readOpening? flags cs
    let (inner, rest) ← readItems? flags fuel none u rest
    let s ← negate? flags negated (foldCase flags inner.set)
    return (⟨s, inner.depth + 1⟩, rest)

def readItems? (flags : Flags) : Nat → Pending → Union → List Char →
    Option (NestedSet × List Char)
  | 0, _, _, _ => none
  | fuel + 1, pending, u, cs =>
    match flags.skip cs with
    | [] => none
    | ']' :: rest => some (complete flags pending u, rest)
    | '[' :: rest =>
      match readNamed? rest with
      | some (negated, s, rest) => do
        let s ← negate? flags negated (foldCase flags s)
        readItems? flags fuel pending (u.add s 0) rest
      | none => do
        let (inner, rest) ← readClass? flags fuel rest
        readItems? flags fuel pending (u.add inner.set inner.depth) rest
    | '&' :: '&' :: rest =>
      readItems? flags fuel (some (complete flags pending u, .intersection)) .empty rest
    | '-' :: '-' :: rest =>
      readItems? flags fuel (some (complete flags pending u, .difference)) .empty rest
    | '~' :: '~' :: rest =>
      readItems? flags fuel (some (complete flags pending u, .symmetricDifference)) .empty rest
    | cs => do
      let (s, rest) ← readRange? flags cs
      readItems? flags fuel pending (u.add s 0) rest

end

end PredictiveParsing.Regex
