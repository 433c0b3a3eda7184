import PredictiveParsing.Proofs.Tree.SourceTokens

/-!
# Locations cover the tokens of the text

The location of a node is widened child by child, by tokens and by the locations of other nodes. It
covers the tokens below the node that were read from the text, in whatever order they were added,
and no more than these.
-/

namespace PredictiveParsing

variable {tracking : LocationTracking} {tokens more : List Token} {t : Token}

namespace Location

variable {l added : Location} {a b : Option Location}

/-- What is kept of the least location that covers some tokens. Its positions are those of a token
that begins first and of one that ends last. -/
structure IsHull (tracking : LocationTracking) (tokens : List Token) (l : Location) : Prop where
  first : ∃ u ∈ tokens, (∀ t ∈ tokens, u.span.start ≤ t.span.start) ∧
    l.startOffset = u.span.start ∧ l.start = if tracking = .offsetOnly then none else u.start
  last : tracking ≠ .startOnly → ∃ u ∈ tokens, (∀ t ∈ tokens, t.span.stop ≤ u.span.stop) ∧
    l.stopOffset = some u.span.stop ∧ l.stop = if tracking = .full then u.stop else none
  endless : tracking = .startOnly → l.stopOffset = none ∧ l.stop = none

theorem isHull_of_token (h : (ofToken t).tracked? tracking = some l) : l.IsHull tracking [t] := by
  have hMem := List.mem_singleton_self t
  have hFirst : ∀ x ∈ [t], t.span.start ≤ x.span.start := by simp
  have hLast : ∀ x ∈ [t], x.span.stop ≤ t.span.stop := by simp
  cases tracking with
  | none => cases h
  | full | offsetOnly =>
    cases h
    exact ⟨⟨t, hMem, hFirst, rfl, rfl⟩, fun _ => ⟨t, hMem, hLast, rfl, rfl⟩,
      fun hEnd => by cases hEnd⟩
  | startOnly =>
    cases h
    exact ⟨⟨t, hMem, hFirst, rfl, rfl⟩, fun hEnd => absurd rfl hEnd, fun _ => ⟨rfl, rfl⟩⟩

theorem IsHull.tracked?_eq (h : l.IsHull tracking tokens) (hTracked : tracking ≠ .none) :
    l.tracked? tracking = some l := by
  obtain ⟨startOffset, stopOffset, start, stop⟩ := l
  cases tracking with
  | none => exact absurd rfl hTracked
  | full => rfl
  | startOnly =>
    obtain ⟨rfl, rfl⟩ := h.endless rfl
    rfl
  | offsetOnly =>
    obtain ⟨u, -, -, -, rfl⟩ := h.first
    obtain ⟨u, -, -, -, rfl⟩ := h.last (by simp)
    rfl

theorem IsHull.congr (h : l.IsHull tracking tokens) (hSame : ∀ t, t ∈ tokens ↔ t ∈ more) :
    l.IsHull tracking more := by
  obtain ⟨hFirst, hLast, hEndless⟩ := h
  simp only [hSame] at hFirst hLast
  exact ⟨hFirst, hLast, hEndless⟩

/-! ## Two locations -/

theorem cover_eq (l added : Location) : l.cover added =
    { startOffset := if added.startOffset < l.startOffset then added.startOffset else l.startOffset
      stopOffset :=
        if isBehind added.stopOffset l.stopOffset then added.stopOffset else l.stopOffset
      start := if added.startOffset < l.startOffset then added.start else l.start
      stop := if isBehind added.stopOffset l.stopOffset then added.stop else l.stop } := by
  by_cases hStart : added.startOffset < l.startOffset <;>
    by_cases hStop : isBehind added.stopOffset l.stopOffset = true <;> simp [cover, hStart, hStop]

theorem isBehind_some (a b : Nat) : isBehind (some a) (some b) = decide (b < a) := rfl

theorem IsHull.cover (h : l.IsHull tracking tokens) (hAdded : added.IsHull tracking more) :
    (l.cover added).IsHull tracking (tokens ++ more) := by
  rw [cover_eq]
  constructor
  case first =>
    obtain ⟨u, hu, hLeast, hOffset, hStart⟩ := h.first
    obtain ⟨w, hw, hLeast', hOffset', hStart'⟩ := hAdded.first
    by_cases hLt : added.startOffset < l.startOffset
    · have hBefore : w.span.start ≤ u.span.start := by omega
      refine ⟨w, List.mem_append_right _ hw,
        List.forall_mem_append.mpr ⟨fun t ht => ?_, hLeast'⟩, ?_⟩
      · exact Nat.le_trans hBefore (hLeast t ht)
      · exact ⟨(if_pos hLt).trans hOffset', (if_pos hLt).trans hStart'⟩
    · have hBefore : u.span.start ≤ w.span.start := by omega
      refine ⟨u, List.mem_append_left _ hu,
        List.forall_mem_append.mpr ⟨hLeast, fun t ht => ?_⟩, ?_⟩
      · exact Nat.le_trans hBefore (hLeast' t ht)
      · exact ⟨(if_neg hLt).trans hOffset, (if_neg hLt).trans hStart⟩
  case last =>
    intro hEnds
    obtain ⟨u, hu, hGreatest, hOffset, hStop⟩ := h.last hEnds
    obtain ⟨w, hw, hGreatest', hOffset', hStop'⟩ := hAdded.last hEnds
    rw [hOffset, hOffset', isBehind_some]
    by_cases hLt : u.span.stop < w.span.stop
    · refine ⟨w, List.mem_append_right _ hw,
        List.forall_mem_append.mpr ⟨fun t ht => ?_, hGreatest'⟩, ?_⟩
      · exact Nat.le_trans (hGreatest t ht) (Nat.le_of_lt hLt)
      · simp only [hLt, decide_true, if_true]
        exact ⟨trivial, hStop'⟩
    · refine ⟨u, List.mem_append_left _ hu,
        List.forall_mem_append.mpr ⟨hGreatest, fun t ht => ?_⟩, ?_⟩
      · exact Nat.le_trans (hGreatest' t ht) (Nat.le_of_not_lt hLt)
      · simp only [hLt, decide_false, Bool.false_eq_true, if_false]
        exact ⟨trivial, hStop⟩
  case endless =>
    intro hStart
    obtain ⟨hOffset, hStop⟩ := h.endless hStart
    obtain ⟨hOffset', -⟩ := hAdded.endless hStart
    rw [hOffset, hOffset', hStop]
    exact ⟨rfl, rfl⟩

/-! ## The location of some tokens -/

/-- Tokens have a location if there are any and locations are tracked, and it is their hull. -/
structure Locates (tracking : LocationTracking) (tokens : List Token) (a : Option Location) :
    Prop where
  untracked : tracking = .none → a = none
  unread : tokens = [] → a = none
  covers : tracking ≠ .none → tokens ≠ [] → ∃ l, a = some l ∧ l.IsHull tracking tokens

theorem locates_nil : Locates tracking [] none :=
  ⟨fun _ => rfl, fun _ => rfl, fun _ hSome => absurd rfl hSome⟩

theorem locates_none : Locates .none tokens none :=
  ⟨fun _ => rfl, fun _ => rfl, fun hTracked => absurd rfl hTracked⟩

theorem IsHull.locates (h : l.IsHull tracking tokens) (hTracked : tracking ≠ .none) :
    Locates tracking tokens (some l) := by
  obtain ⟨u, hu, -⟩ := h.first
  refine ⟨fun hNone => absurd hNone hTracked, ?_, fun _ _ => ⟨l, rfl, h⟩⟩
  rintro rfl
  cases hu

theorem Locates.cases (h : Locates tracking tokens a) :
    tracking = .none ∧ a = none ∨ tokens = [] ∧ a = none ∨
      tracking ≠ .none ∧ ∃ l, a = some l ∧ l.IsHull tracking tokens := by
  by_cases hTracked : tracking = .none
  · exact .inl ⟨hTracked, h.untracked hTracked⟩
  · by_cases hNone : tokens = []
    · exact .inr (.inl ⟨hNone, h.unread hNone⟩)
    · exact .inr (.inr ⟨hTracked, h.covers hTracked hNone⟩)

theorem Locates.congr (h : Locates tracking tokens a) (hSame : ∀ t, t ∈ tokens ↔ t ∈ more) :
    Locates tracking more a := by
  rcases h.cases with ⟨rfl, rfl⟩ | ⟨rfl, rfl⟩ | ⟨hTracked, l, rfl, hHull⟩
  · exact locates_none
  · have hNone : more = [] := List.eq_nil_iff_forall_not_mem.mpr fun t ht => by
      cases (hSame t).mpr ht
    rw [hNone]
    exact locates_nil
  · exact (hHull.congr hSame).locates hTracked

theorem Locates.merge (h : Locates tracking tokens a) (hAdded : Locates tracking more b) :
    Locates tracking (tokens ++ more) (Option.merge Location.cover a b) := by
  rcases h.cases with ⟨rfl, rfl⟩ | ⟨rfl, rfl⟩ | ⟨hTracked, l, rfl, hHull⟩
  · obtain rfl := hAdded.untracked rfl
    exact locates_none
  · rwa [Option.merge_none_left]
  · rcases hAdded.cases with ⟨hNone, -⟩ | ⟨rfl, rfl⟩ | ⟨-, added, rfl, hMore⟩
    · exact absurd hNone hTracked
    · rwa [List.append_nil]
    · exact (hHull.cover hMore).locates hTracked

theorem Locates.tracked? (h : Locates tracking tokens a) :
    Locates tracking tokens (a.bind (Location.tracked? tracking)) := by
  rcases h.cases with ⟨rfl, rfl⟩ | ⟨rfl, rfl⟩ | ⟨hTracked, l, rfl, hHull⟩
  · exact locates_none
  · exact locates_nil
  · rw [Option.bind_some, hHull.tracked?_eq hTracked]
    exact hHull.locates hTracked

theorem locates_token (t : Token) : Locates tracking [t] ((ofToken t).tracked? tracking) := by
  cases hKept : (ofToken t).tracked? tracking with
  | none =>
    cases tracking with
    | none => exact locates_none
    | full | startOnly | offsetOnly => cases hKept
  | some l =>
    refine (isHull_of_token hKept).locates ?_
    rintro rfl
    cases hKept

end Location

namespace NodeOf

open Location (Locates)

variable {n m : Node}

/-- Nodes that are made by adding tokens, and nodes made alike, with one tracking throughout. Each
may be marked as recovered at any time. -/
inductive Built (tracking : LocationTracking) : Node → Prop
  | new (name : String) : Built tracking (new name)
  | token {n : Node} (h : Built tracking n) (label : String) (t : Token) :
    Built tracking (n.add tracking label (.leaf t))
  | node {n m : Node} (h : Built tracking n) (label : String) (hChild : Built tracking m) :
    Built tracking (n.add tracking label (.node m))
  | marked {n : Node} (h : Built tracking n) (recovered : Bool) :
    Built tracking { n with recovered }

inductive IsWithin : Node → Node → Prop
  | refl (n : Node) : IsWithin n n
  | child {k m n : Node} {label : String} (hChild : (label, Tree.node m) ∈ n.children)
    (h : IsWithin k m) : IsWithin k n

theorem children_add (n : Node) (label : String) (t : Tree) :
    (n.add tracking label t).children = n.children ++ [(label, t)] := rfl

theorem Built.child {label : String} (h : n.Built tracking)
    (hChild : (label, Tree.node m) ∈ n.children) : m.Built tracking := by
  induction h with
  | new name => cases hChild
  | token h label t ih =>
    rw [children_add, List.mem_append, List.mem_singleton] at hChild
    rcases hChild with hOld | hNew
    · exact ih hOld
    · cases hNew
  | node h label hAdded ih =>
    rw [children_add, List.mem_append, List.mem_singleton] at hChild
    rcases hChild with hOld | hNew
    · exact ih hOld
    · cases hNew
      exact hAdded
  | marked h recovered ih => exact ih hChild

theorem Built.within (h : n.Built tracking) (hWithin : m.IsWithin n) : m.Built tracking := by
  induction hWithin with
  | refl => exact h
  | child hChild hWithin ih => exact ih (h.child hChild)

theorem location_add (n : Node) (label : String) (t : Tree) :
    (n.add tracking label t).location = Option.merge Location.cover n.location
      (t.location?.bind (Location.tracked? tracking)) := by
  have hExtend (added : Location) : (n.extend tracking added).location =
      Option.merge Location.cover n.location (added.tracked? tracking) := by
    rw [extend]
    cases added.tracked? tracking <;> cases n.location <;> rfl
  cases hLocation : t.location? with
  | none =>
    simp only [add, hLocation]
    cases n.location <;> rfl
  | some added =>
    simp only [add, hLocation]
    exact hExtend added

theorem mem_sourceTokens : t ∈ n.sourceTokens ↔ t ∈ n.leaves ∧ t.inserted = false := by
  rw [n.perm_sourceTokens.mem_iff, List.mem_filter, Bool.not_eq_true']

theorem locates_add {label : String} {child : Tree} (added : List Token)
    (h : Locates tracking n.sourceTokens n.location)
    (hAdded : Locates tracking added (child.location?.bind (Location.tracked? tracking)))
    (hTokens : ∀ t, t ∈ added ↔ t ∈ child.leaves ∧ t.inserted = false) :
    Locates tracking (n.add tracking label child).sourceTokens
      (n.add tracking label child).location := by
  rw [location_add]
  refine (h.merge hAdded).congr fun t => ?_
  rw [List.mem_append, mem_sourceTokens, mem_sourceTokens, hTokens, leaves_add, List.mem_append,
    or_and_right]

theorem Built.locates (h : n.Built tracking) : Locates tracking n.sourceTokens n.location := by
  -- A child is built before it is added, so its own location is known then.
  induction h with
  | new name =>
    refine Location.locates_nil.congr fun t => ?_
    rw [mem_sourceTokens, leaves_new]
    simp
  | token h label t ih =>
    cases hMade : t.inserted with
    | true =>
      refine locates_add [] ih ?_ fun x => ?_
      · rw [Tree.location?, hMade]
        exact Location.locates_nil
      · simp only [Tree.leaves, List.not_mem_nil, List.mem_singleton, false_iff, not_and]
        rintro rfl
        simp [hMade]
    | false =>
      refine locates_add [t] ih ?_ fun x => ?_
      · rw [Tree.location?, hMade]
        exact Location.locates_token t
      · simp only [Tree.leaves, List.mem_singleton, iff_self_and]
        rintro rfl
        exact hMade
  | node h label hAdded ih ihAdded =>
    refine locates_add _ ih ihAdded.tracked? fun t => ?_
    rw [mem_sourceTokens, leaves_node]
  | marked h recovered ih => exact ih

/-- Of a node that is built, each node has a location if tokens of the text lie below it, at any
depth, and it covers just these. -/
theorem location_covers_sourceTokens (h : n.Built tracking) (hWithin : m.IsWithin n) :
    Locates tracking m.sourceTokens m.location :=
  (h.within hWithin).locates

namespace Nested

def token (start stop : Nat) : Token where
  kind := 1
  image := "x"
  span := ⟨start, stop⟩
  start := some ⟨1, start + 1⟩
  stop := some ⟨1, stop⟩
  inserted := false

def inner : Node :=
  ((new "inner").add .full "A" (.leaf (token 4 6))).add .full "A" (.leaf (token 2 3))

/-- A token is made up behind all others, and one that comes first is added last. -/
def outer : Node :=
  ((((new "outer").add .full "inner" (.node inner)).add .full "none" (.node (new "none"))).add .full
    "A" (.leaf (.insertedBefore 1 (token 8 9)))).add .full "A" (.leaf (token 0 1))

end Nested

theorem location_covers_sourceTokens_nested : Nested.outer.Built .full ∧
    Nested.inner.IsWithin Nested.outer ∧ Nested.outer.location =
      some ⟨0, some 6, some ⟨1, 1⟩, some ⟨1, 6⟩⟩ ∧
    Locates .full Nested.outer.sourceTokens Nested.outer.location ∧
    Locates .full Nested.inner.sourceTokens Nested.inner.location := by
  have hInner : Nested.inner.Built .full := ((Built.new "inner").token "A" _).token "A" _
  have hOuter : Nested.outer.Built .full :=
    ((((Built.new "outer").node "inner" hInner).node "none" (.new "none")).token "A" _).token "A" _
  have hChild : ("inner", Tree.node Nested.inner) ∈ Nested.outer.children := List.mem_cons_self
  have hWithin : Nested.inner.IsWithin Nested.outer := .child hChild (.refl _)
  exact ⟨hOuter, hWithin, rfl, location_covers_sourceTokens hOuter (.refl _),
    location_covers_sourceTokens hOuter hWithin⟩

end NodeOf

end PredictiveParsing
