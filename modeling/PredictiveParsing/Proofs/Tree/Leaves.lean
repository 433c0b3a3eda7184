import PredictiveParsing.Tree.Basic

/-!
# The leaves of a tree

All tokens that a tree holds, in the order in which they were added.
-/

namespace PredictiveParsing

namespace Tree

mutual

def leaves : Tree → List Token
  | .leaf t => [t]
  | .node ⟨_, children, _, _⟩ => leavesOf children

def leavesOf : List (String × Tree) → List Token
  | [] => []
  | (_, t) :: rest => leaves t ++ leavesOf rest

end

theorem leavesOf_append (xs ys : List (String × Tree)) :
    leavesOf (xs ++ ys) = leavesOf xs ++ leavesOf ys := by
  induction xs with
  | nil => simp [leavesOf]
  | cons x xs ih => simp [leavesOf, ih]

end Tree

namespace NodeOf

def leaves (n : Node) : List Token := Tree.leavesOf n.children

theorem leaves_add (n : Node) (tracking : LocationTracking) (label : String) (t : Tree) :
    (n.add tracking label t).leaves = n.leaves ++ t.leaves := by
  rw [leaves, add, Tree.leavesOf_append]
  simp [Tree.leavesOf, leaves]

@[simp] theorem leaves_new (name : String) : (new name).leaves = [] := by
  simp [leaves, new, Tree.leavesOf]

theorem leaves_node (n : Node) : (Tree.node n).leaves = n.leaves := by
  rw [Tree.leaves, leaves]

end NodeOf

end PredictiveParsing
