import Std.Data.HashMap.Basic
import PredictiveParsing.Regex.Normal
import PredictiveParsing.Text.ByteRange

/-!
# The size of byte automata

An expression is matched by an automaton over the bytes of UTF-8, and comes with another one for
texts read backwards. Neither may take more memory than there is for it, so an expression with too
many copies in it is refused. Here the automata are not built but measured, state by state in the
order in which they would be built: how many states a set of characters takes depends on which ones
are shared, and that on their numbers.
-/

namespace PredictiveParsing.Regex

inductive Direction where
  | forward
  | backward
deriving DecidableEq, Repr

/-- The number of states so far, and the bytes that edges take besides. -/
structure AutomatonSize where
  states : Nat
  edgeBytes : Nat
deriving DecidableEq, Repr

namespace AutomatonSize

def bytes (s : AutomatonSize) : Nat := 32 * s.states + s.edgeBytes

def limit : Nat := 10 * 1024 * 1024

def addStates (s : AutomatonSize) (n : Nat) : AutomatonSize := { s with states := s.states + n }

def addChoices (s : AutomatonSize) (n : Nat) : AutomatonSize :=
  { s with edgeBytes := s.edgeBytes + 4 * n }

def addSplit (s : AutomatonSize) (n : Nat) : AutomatonSize := (s.addStates 1).addChoices n

def addReader (s : AutomatonSize) (n : Nat) : AutomatonSize :=
  ⟨s.states + 1, s.edgeBytes + 8 * n⟩

/-- Adds something again and again, until all are added or there is no more memory. -/
def addCopies (add : AutomatonSize → AutomatonSize) : Nat → AutomatonSize → AutomatonSize
  | 0, s => s
  | n + 1, s => if limit < s.bytes then s else addCopies add n (add s)

/-- Adds a given number of copies, which is a state of its own if there are none. -/
def addExactly (add : AutomatonSize → AutomatonSize) (n : Nat) (s : AutomatonSize) :
    AutomatonSize :=
  if n = 0 then s.addStates 1 else addCopies add n s

end AutomatonSize

def slotOf (slots : Nat) (ns : List Nat) : Nat :=
  (ns.foldl (fun (h : UInt64) n => (h ^^^ n.toUInt64) * 1099511628211)
    14695981039346656037).toNat % slots

/-- States that can be shared, by what they are made from. There is one slot for many of them, and a
new one takes the place of the old. -/
structure SharedStates where
  slots : Nat
  table : Std.HashMap Nat (List Nat × Nat)

namespace SharedStates

def find? (shared : SharedStates) (made : List Nat) : Option Nat :=
  match shared.table[slotOf shared.slots made]? with
  | some (m, state) => if m = made then some state else none
  | none => none

def insert (shared : SharedStates) (made : List Nat) (state : Nat) : SharedStates :=
  { shared with table := shared.table.insert (slotOf shared.slots made) (made, state) }

end SharedStates

abbrev Measured := AutomatonSize × SharedStates

def groupByHead : List (List ByteRange) → List (ByteRange × List (List ByteRange))
  | [] => []
  | [] :: seqs => groupByHead seqs
  | (r :: tail) :: seqs =>
    match groupByHead seqs with
    | (q, tails) :: groups =>
      if r = q then (q, tail :: tails) :: groups else (r, [tail]) :: (q, tails) :: groups
    | [] => [(r, [tail])]

/-- Adds the states that read one of some sequences and go on to a target. States are shared if they
read the same and go on to the same. The first argument bounds the length of the sequences. -/
def addTree (target : Nat) : Nat → List (List ByteRange) → Measured → Nat × Measured
  | 0, _, m => (target, m)
  | fuel + 1, seqs, m =>
    let (edges, size, shared) := (groupByHead seqs).foldl
      (fun (edges, m) (r, tails) =>
        let (next, m) := if tails.all List.isEmpty then (target, m) else addTree target fuel tails m
        (edges ++ [(r, next)], m))
      (([] : List (ByteRange × Nat)), m)
    let made := edges.flatMap fun (r, next) => [r.first.toNat, r.last.toNat, next]
    match shared.find? made with
    | some state => (state, size, shared)
    | none => (size.states, size.addReader edges.length, shared.insert made size.states)

def addBackwards : List ByteRange → Nat → Measured → Measured
  | [], _, m => m
  | r :: rs, next, (size, shared) =>
    let made := [next, r.first.toNat, r.last.toNat]
    match shared.find? made with
    | some state => addBackwards rs state (size, shared)
    | none =>
      addBackwards rs size.states (size.addStates 1, shared.insert made size.states)

/-- Adds a set of characters. In ASCII one state reads it. -/
def addSet (d : Direction) (set : CharSet) (s : AutomatonSize) : AutomatonSize :=
  if List.all set fun r => r.last.toNat < 0x80 then (s.addStates 1).addReader set.length
  else
    let seqs := List.flatMap
      (fun r : CharRange => ByteRange.products r.first.toNat r.last.toNat) set
    match d with
    | .forward => (addTree s.states 4 seqs (s.addStates 1, ⟨10000, {}⟩)).2.1
    | .backward =>
      let start := ((s.addSplit seqs.length).addStates 1, (⟨1000, {}⟩ : SharedStates))
      (seqs.foldl (fun m seq => addBackwards seq (s.states + 1) m) start).1

/-- The words that lead on from a node, parted where a word ends at the node. Where none leads on,
no more than one end counts. -/
def partsAtNode (words : List (List UInt8)) : List (List (List UInt8)) :=
  let (closed, active) := words.foldl
    (fun (closed, active) word =>
      if !word.isEmpty then (closed, active ++ [word])
      else if active.isEmpty && !closed.isEmpty && closed.all List.isEmpty then (closed, active)
      else (closed ++ [active], []))
    (([] : List (List (List UInt8))), ([] : List (List UInt8)))
  closed ++ [active]

/-- Adds the states of a tree of words. Earlier words are preferred, so words in different parts do
not share a state. The first argument bounds the length of the words. -/
def addWords : Nat → List (List UInt8) → AutomatonSize → AutomatonSize
  | 0, _, s => s
  | fuel + 1, words, s =>
    let parts := partsAtNode words
    let addPart (s : AutomatonSize) (part : List (List UInt8)) : AutomatonSize :=
      let bytes := (part.filterMap List.head?).eraseDups
      let s := bytes.foldl
        (fun s b =>
          let tails := (part.filter fun word => word.head? = some b).map List.tail
          if tails.all List.isEmpty then s else addWords fuel tails s)
        s
      match bytes.length with
      | 0 => s
      | 1 => s.addStates 1
      | n => s.addReader n
    let s := parts.foldl addPart s
    s.addSplit ((parts.filter fun part => !part.isEmpty).length + parts.length - 1)

def literalBytes? (d : Direction) : Regex → Option (List UInt8)
  | .literal text =>
    let bytes := text.flatMap String.utf8EncodeChar
    some (match d with
      | .forward => bytes
      | .backward => bytes.reverse)
  | _ => none

inductive Role where
  | alone
  | second
  | later
deriving DecidableEq, Repr

/-- Adds what a choice needs after a branch. The choice itself is added after the second one. -/
def Role.close (role : Role) (s : AutomatonSize) : AutomatonSize :=
  match role with
  | .alone => s
  | .second => (s.addSplit 2).addStates 1
  | .later => s.addChoices 1

def addRepetition (reads : Bool) (least : Nat) (most : Option Nat)
    (add : AutomatonSize → AutomatonSize) (s : AutomatonSize) : AutomatonSize :=
  match least, most with
  | 0, some 1 => (add (s.addSplit 2)).addStates 1
  | 0, none => if reads then add (s.addSplit 2) else (((add s).addSplit 2).addSplit 2).addStates 1
  | 1, none => (add s).addSplit 2
  | n + 1, none => (add (AutomatonSize.addExactly add n s)).addSplit 2
  | n, some m =>
    let s := AutomatonSize.addExactly add n s
    if m ≤ n then s
    else AutomatonSize.addCopies (fun s => add (s.addSplit 2)) (m - n) (s.addStates 1)

/-- Adds an expression. Groups count only forwards. -/
def measureFrom (d : Direction) : Role → Regex → AutomatonSize → AutomatonSize
  | role, .alt a b, s =>
    match role with
    | .alone =>
      match (a :: b.branches).mapM (literalBytes? d) with
      | some words => addWords ((words.map List.length).foldl (· + ·) 0 + 1) words (s.addStates 1)
      | none => measureFrom d .second b (measureFrom d .alone a s)
    | role => measureFrom d .later b (role.close (measureFrom d .alone a s))
  | role, .empty, s => role.close (s.addStates 1)
  | role, .look _, s => role.close (s.addStates 1)
  | role, .literal text, s => role.close (s.addStates (text.flatMap String.utf8EncodeChar).length)
  | role, .chars _ set, s => role.close (addSet d set s)
  | role, .seq a b, s =>
    role.close (match d with
      | .forward => measureFrom d .alone b (measureFrom d .alone a s)
      | .backward => measureFrom d .alone a (measureFrom d .alone b s))
  | role, .copies body least most _, s =>
    role.close
      (addRepetition body.alwaysReads least most (fun s => measureFrom d .alone body s) s)
  | role, .group _ body, s =>
    role.close (match d with
      | .forward => (measureFrom d .alone body (s.addStates 1)).addStates 1
      | .backward => measureFrom d .alone body s)

/-- The size of the automaton of a whole expression. Backwards it skips what is in front. -/
def automatonSize (d : Direction) (r : Regex) : AutomatonSize :=
  match d with
  | .forward => (measureFrom d .alone r ⟨2, 0⟩).addStates 2
  | .backward =>
    let start : AutomatonSize := ⟨0, 0⟩
    (measureFrom d .alone r (((start.addSplit 2).addStates 1).addReader 1)).addStates 1

def fitsMemory (r : Regex) : Bool :=
  (r.automatonSize .forward).bytes ≤ AutomatonSize.limit
    && (r.automatonSize .backward).bytes ≤ AutomatonSize.limit

end PredictiveParsing.Regex
