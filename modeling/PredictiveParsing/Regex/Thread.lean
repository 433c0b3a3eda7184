import Std.Data.HashSet.Basic
import PredictiveParsing.Regex.Escape

/-!
# Threads of a match

A thread is what is left to match on one of the ways through an expression. Threads are explored
until they read, so that a place in the expression is taken up once at most: a thread that comes to
a place where another one was before is given up, since the other one is preferred.

A condition on the place in the text holds a thread up. A thread that it lets through is kept too,
in front of the ones it turns into.
-/

namespace PredictiveParsing.Regex

/-- Something to match. The number marks its place in the whole expression. -/
inductive Goal where
  | expression (r : Regex) (mark : Nat)
  /-- Further copies, or none. -/
  | more (body : Regex) (greedy : Bool) (mark : Nat)
deriving Repr

/-- The goals of a thread in order. A thread without goals has found a match. -/
abbrev Thread := List Goal

def strideOf (bodyWidth : Nat) : Nat := bodyWidth + 2

def width : Regex → Nat
  | .empty => 0
  | .look _ => 1
  | .literal text => text.length
  | .chars _ _ => 1
  | .seq a b => width a + width b
  | .alt a b => width a + width b + 1
  | .copies body least most _ => (max least (most.getD 0) + 1) * strideOf (width body)
  | .group _ body => width body

/-- The mark of the place where a goal is taken up, if threads can meet there. -/
def Goal.mark? : Goal → Option Nat
  | .more _ _ mark => some mark
  | .expression r mark =>
    match r with
    | .look _ => some mark
    | .literal (_ :: _) => some mark
    | .chars _ _ => some mark
    | .alt _ _ => some mark
    | .copies _ 0 (some (_ + 1)) _ => some mark
    | .copies body 0 none _ => if body.alwaysReads then none else some mark
    | _ => none

def prefer (greedy : Bool) (copy leave : Thread) : List Thread :=
  if greedy then [copy, leave] else [leave, copy]

/-- What a thread with a repetition in front turns into. Where a copy may be empty, the first one is
set apart from the further ones. -/
def unfoldCopies (body : Regex) (least : Nat) (most : Option Nat) (greedy : Bool) (mark : Nat)
    (rest : Thread) : List Thread :=
  let next := mark + strideOf body.width
  let copy : Goal := .expression body (mark + 1)
  match least, most with
  | 0, some 0 => [rest]
  | 0, some (m + 1) =>
    prefer greedy (copy :: .expression (.copies body 0 (some m) greedy) next :: rest) rest
  | n + 1, some m => [copy :: .expression (.copies body n (some (m - 1)) greedy) next :: rest]
  | 0, none =>
    if body.alwaysReads then [.more body greedy mark :: rest]
    else
      prefer greedy (.expression body (mark + 2) :: .more body greedy (mark + 1) :: rest) rest
  | 1, none => [copy :: .more body greedy mark :: rest]
  | n + 2, none => [copy :: .expression (.copies body (n + 1) none greedy) next :: rest]

/-- What a thread turns into without reading, the preferred way first. There is nothing where it
has to read, meets a condition or has found a match. -/
def Thread.unfold? : Thread → Option (List Thread)
  | [] => none
  | .more body greedy mark :: rest =>
    some (prefer greedy (.expression body (mark + 1) :: .more body greedy mark :: rest) rest)
  | .expression r mark :: rest =>
    match r with
    | .empty => some [rest]
    | .literal [] => some [rest]
    | .seq a b => some [.expression a mark :: .expression b (mark + a.width) :: rest]
    | .alt a b =>
      some [.expression a (mark + 1) :: rest, .expression b (mark + 1 + a.width) :: rest]
    | .copies body least most greedy => some (unfoldCopies body least most greedy mark rest)
    | .group _ body => some [.expression body mark :: rest]
    | _ => none

def Thread.condition? : Thread → Option (Look × Thread)
  | .expression (.look condition) _ :: rest => some (condition, rest)
  | _ => none

def Thread.read? (c : Char) : Thread → Option Thread
  | .expression (.literal (x :: text)) mark :: rest =>
    if x = c then some (.expression (.literal text) (mark + 1) :: rest) else none
  | .expression (.chars _ set) _ :: rest => if set.contains c then some rest else none
  | _ => none

def Thread.meet (visited : Std.HashSet Nat) : Thread → Bool × Std.HashSet Nat
  | [] => (false, visited)
  | goal :: _ =>
    match goal.mark? with
    | none => (false, visited)
    | some mark => visited.containsThenInsert mark

/-- Explores threads up to where they read, meet a condition or have found a match. What is found
comes last first. The first argument bounds the number of steps. -/
def exploreFrom (passes : Look → Bool) :
    Nat → List Thread → Std.HashSet Nat → List Thread → List Thread
  | 0, _, _, found => found
  | _, [], _, found => found
  | fuel + 1, t :: todo, visited, found =>
    match t.meet visited with
    | (true, visited) => exploreFrom passes fuel todo visited found
    | (false, visited) =>
      match t.unfold? with
      | some threads => exploreFrom passes fuel (threads ++ todo) visited found
      | none =>
        let todo := match t.condition? with
          | some (condition, rest) => if passes condition then rest :: todo else todo
          | none => todo
        exploreFrom passes fuel todo visited (t :: found)

def explorationBound (r : Regex) : Nat := 8 * (r.width + 2) * (r.size + 2)

/-- All threads that some threads turn into without reading, in order of preference. -/
def explore (bound : Nat) (passes : Look → Bool) (ts : List Thread) : List Thread :=
  (exploreFrom passes (bound + ts.length) ts {} []).reverse

end PredictiveParsing.Regex
