import Mathlib.Data.List.Nodup
import PredictiveParsing.Proofs.Grouping
import PredictiveParsing.Proofs.Tree.Leaves

/-!
# The tokens of a tree that were read from the text

Labels group the children of a node, so its tokens come out of it label by label. They are the
leaves that were not made up, in another order.
-/

namespace PredictiveParsing

theorem perm_groupByLabel {β : Type} (xs : List (String × β)) :
    ((groupByLabel xs).flatMap (·.2)).Perm (xs.map (·.2)) := by
  let labels := ((xs.map (·.1)).eraseDups).mergeSort fun a b => decide (a ≤ b)
  have hLabels : labels.Nodup := (List.mergeSort_perm _ _).nodup_iff.mpr (nodup_eraseDups _)
  have hAll : xs.filter (fun x => x.1 ∈ labels) = xs := by
    refine List.filter_eq_self.mpr fun x hx => ?_
    simpa [labels, List.mem_eraseDups] using ⟨x.2, hx⟩
  have hPerm := (perm_flatMap_filter (·.1) hLabels xs).map (·.2)
  rw [hAll, List.map_flatMap] at hPerm
  rw [groupByLabel, List.flatMap_map]
  simpa [labels, beq_eq_decide] using hPerm

namespace Tree

mutual

theorem perm_tokens (t : Tree) : t.tokens.Perm (t.leaves.filter fun x => !x.inserted) := by
  cases t with
  | leaf x =>
    rw [tokens, leaves]
    cases hMade : x.inserted with
    | true => simp [hMade]
    | false => simp [hMade]
  | node n =>
    obtain ⟨name, children, location, recovered⟩ := n
    rw [tokens, leaves]
    exact (perm_groupByLabel _).flatten.trans (perm_tokensOf children)

theorem perm_tokensOf (children : List (String × Tree)) :
    ((tokensOf children).map (·.2)).flatten.Perm
      ((leavesOf children).filter fun x => !x.inserted) := by
  cases children with
  | nil => simp [tokensOf, leavesOf]
  | cons child rest =>
    rw [tokensOf, leavesOf, List.map_cons, List.flatten_cons, List.filter_append]
    exact (perm_tokens child.2).append (perm_tokensOf rest)

end

end Tree

theorem NodeOf.perm_sourceTokens (n : Node) :
    n.sourceTokens.Perm (n.leaves.filter fun x => !x.inserted) := by
  rw [← NodeOf.leaves_node]
  exact (List.mergeSort_perm _ _).trans (Tree.perm_tokens _)

theorem NodeOf.pairwise_sourceTokens (n : Node) :
    n.sourceTokens.Pairwise fun x y => x.span.start ≤ y.span.start := by
  have hSorted : n.sourceTokens.Pairwise fun x y => decide (x.span.start ≤ y.span.start) = true :=
    List.pairwise_mergeSort (fun x y z => by simpa using Nat.le_trans)
      (fun x y => by simpa using Nat.le_total _ _) _
  simpa using hSorted

/-- Tokens of the text come out of the tree in the order of their places, if these are distinct. -/
theorem NodeOf.filter_sourceTokens {n : Node} {p : Token → Bool} {tokens : List Token}
    (hLeaves : n.leaves.filter p = tokens) (hText : ∀ x ∈ tokens, x.inserted = false)
    (hPlaces : tokens.Pairwise fun x y => x.span.start < y.span.start) :
    n.sourceTokens.filter p = tokens := by
  have hRead : (n.leaves.filter fun x => !x.inserted).filter p = tokens := by
    rw [List.filter_comm, hLeaves]
    exact List.filter_eq_self.mpr fun x hx => by rw [hText x hx]; rfl
  have hPerm : (n.sourceTokens.filter p).Perm tokens := hRead ▸ n.perm_sourceTokens.filter p
  have hApart : (tokens.map (·.span.start)).Nodup :=
    List.pairwise_map.mpr (hPlaces.imp Nat.ne_of_lt)
  refine hPerm.eq_of_pairwise (fun x y hx hy hLe hLe' => ?_) (n.pairwise_sourceTokens.filter p)
    (hPlaces.imp Nat.le_of_lt)
  exact List.inj_on_of_nodup_map hApart (hPerm.mem_iff.mp hx) hy (Nat.le_antisymm hLe hLe')

end PredictiveParsing
