import PredictiveParsing.Proofs.Grammar.Deciding
import PredictiveParsing.Proofs.Parse.Placed
import PredictiveParsing.Proofs.Parse.ReadingOfRun

/-!
# Derivations ahead of a state

A run without errors follows a derivation of the tokens that it has not read yet. Where one token
decides, each step of the run keeps such a derivation ahead, and no step of recovery is taken.
-/

namespace PredictiveParsing.Parse

open Relation

variable {α : Type}

/-- A strictly compiled grammar without gates in which one token decides at every place that a parse
from a rule can come to, and tokens for it. -/
structure Input.IsPredictive (i : Input α) (sources : List (RuleBody α)) (start : RuleId) :
    Prop where
  regular : i.IsRegular
  compiled : i.grammar.IsCompiled sources
  strict : i.grammar.config.strict = true
  ungated : AllRules Production.IsUngated i.grammar.rules
  oneToken : i.grammar.IsLL1 start
  registered : ∀ index, i.grammar.vocabulary.isRegistered (i.kindAt index) = true

/-- A state in a rule, before any error, with a derivation ahead that reads so many times: first what
remains of the rule, then what remains of the rules around it. -/
structure Ahead (i : Input α) (start r : RuleId) (outer c : Continuation) (m : Nat) (s : State) :
    Prop where
  untroubled : Untroubled i r s
  followed : FollowedBy i.grammar.rules i.grammar.vocabulary start r outer
  /-- Recovery knows what can come behind the rule. -/
  known : ∀ {xs}, Derives i.grammar.rules i.grammar.vocabulary outer xs →
    headKind xs ≠ Vocabulary.eof → i.followsAny (headKind xs) s.calls = true
  derives : DerivesIn i.grammar.rules i.grammar.vocabulary m (c ++ outer) (i.rest s)

/-- Reads that are left behind a continuation: fewer than before, unless it can be empty. -/
def Spent (rules : List Rule) (c : Continuation) (m n : Nat) : Prop :=
  n < m ∨ n = m ∧ Nullable rules c

namespace Spent

variable {rules : List Rule} {c d : Continuation} {m n k : Nat}

theorem le (h : Spent rules c m n) : n ≤ m := by
  rcases h with h | ⟨rfl, -⟩
  · exact Nat.le_of_lt h
  · exact Nat.le_refl n

theorem of_le (hLe : n ≤ m) (h : Nullable rules c) : Spent rules c m n :=
  (Nat.lt_or_eq_of_le hLe).imp_right fun hSame => ⟨hSame, h⟩

theorem of_nullable (h : Nullable rules c) : Spent rules c m m := .of_le (Nat.le_refl m) h

theorem lt (h : Spent rules c m n) (hFull : ¬ Nullable rules c) : n < m :=
  h.resolve_right fun h => hFull h.2

theorem append (h : Spent rules c m n) (h' : Spent rules d n k) : Spent rules (c ++ d) m k := by
  have hLe := h.le
  have hLe' := h'.le
  rcases h with h | ⟨rfl, hc⟩
  · exact .inl (by omega)
  · rcases h' with h' | ⟨rfl, hd⟩
    · exact .inl h'
    · exact .of_nullable (nullable_append.mpr ⟨hc, hd⟩)

theorem nested {p : Production} (h : Spent rules c m n) (hExpands : p.Expands rules c) :
    Spent rules [.sequence [p]] m n := by
  refine h.imp_right fun ⟨hSame, hNull⟩ => ⟨hSame, ?_⟩
  exact nullable_sequence_cons.mpr ⟨⟨c, hExpands, hNull⟩, nullable_sequence_nil⟩

theorem sequence {ps qs : List Production} (h : Spent rules [.sequence ps] m n)
    (h' : Spent rules [.sequence qs] n k) : Spent rules [.sequence (ps ++ qs)] m k := by
  refine (h.append h').imp_right fun ⟨hSame, hNull⟩ => ⟨hSame, ?_⟩
  exact nullable_sequence_append.mpr (nullable_append.mp hNull)

end Spent

variable {i : Input α} {sources : List (RuleBody α)} {start r : RuleId} {outer c c' : Continuation}
  {m n : Nat} {s t : State} {k : List Production × Continuation} {p : Production}
  {d : List Production} {occurrence : Nat}

theorem Input.isRegistered_kindAt {types : List TokenType} {g : Grammar α} {tokens : List Token}
    (hVocabulary : g.vocabulary = .ofTypes types)
    (hKinds : ∀ t ∈ tokens, g.vocabulary.isRegistered t.kind = true) (index : Nat) :
    g.vocabulary.isRegistered ((⟨g, tokens.toArray⟩ : Input α).kindAt index) = true := by
  rw [Input.kindAt, List.getElem?_toArray]
  cases hToken : tokens[index]? with
  | none =>
    rw [hVocabulary]
    exact Vocabulary.isRegistered_eof types
  | some t => exact hKinds t (List.mem_of_getElem? hToken)

theorem Placed.gate_eq_none {branches : List (Branch (Op α))}
    (h : Placed i.grammar r [.alternation (i.grammar.shapeOfBranches branches) occurrence] k)
    (hUngated : AllRules Production.IsUngated i.grammar.rules) :
    ∀ branch ∈ branches, branch.gate = none := by
  intro branch hBranch
  have hPlain := (hUngated.site h.site).1 _ (Production.mem_nodes_self _) _
    (List.mem_map_of_mem hBranch)
  simpa using hPlain

theorem Input.rest_of_next {x : Token} {xs : List Token} (h : i.rest s = x :: xs)
    (hNext : t.position = s.position + 1) : i.rest t = xs := by
  rw [Input.rest, hNext, ← List.tail_drop, ← Input.rest, h, List.tail_cons]

def Input.behindNext (i : Input α) (s : State) : State :=
  if (i.next s).isEof then s else { s with position := s.position + 1 }

theorem isEof_next : (i.next s).isEof = true ↔ i.kindAt s.position = Vocabulary.eof := by
  rw [Token.isEof, Input.next_eq, kind_tokenAt, beq_iff_eq]

theorem Input.consume_of_isMatch {token : TypeId} (label : Option String)
    (h : i.isMatch (i.kindAt s.position) token = true) : i.consume s occurrence token label =
      .done (i.next s) (i.addToken (i.behindNext s) label token (i.next s)) := by
  rw [← kind_tokenAt, ← Input.next_eq] at h
  unfold Input.consume
  simp only [h, if_true]
  rfl

namespace Ahead

theorem change (hs : Ahead i start r outer c m s)
    (h : DerivesIn i.grammar.rules i.grammar.vocabulary n (c' ++ outer) (i.rest s)) :
    Ahead i start r outer c' n s := ⟨hs.untroubled, hs.followed, hs.known, h⟩

theorem step (hs : Ahead i start r outer c m s) (hFrame : Frame i s t)
    (hErrors : t.errors = s.errors)
    (h : DerivesIn i.grammar.rules i.grammar.vocabulary n (c' ++ outer) (i.rest t)) :
    Ahead i start r outer c' n t :=
  ⟨hs.untroubled.of_frame hFrame hErrors, hs.followed, hFrame.calls ▸ hs.known, h⟩

theorem production (hs : Ahead i start r outer (inSequence [p] k) m s) :
    ∃ c, p.Expands i.grammar.rules c ∧ Ahead i start r outer (c ++ inSequence [] k) m s := by
  have hDerives : DerivesIn i.grammar.rules i.grammar.vocabulary m
      (.sequence (p :: k.1) :: (k.2 ++ outer)) (i.rest s) := hs.derives
  obtain ⟨c, hExpands, hRest⟩ := hDerives.of_production
  refine ⟨c, hExpands, hs.change ?_⟩
  rw [List.append_assoc]
  exact hRest

/-- The next token begins what comes next, or that stands for nothing. -/
theorem skip (hs : Ahead i start r outer (c ++ c') m s)
    (hNot : ¬ BeginsWith i.grammar.rules i.grammar.vocabulary c (i.kindAt s.position)) :
    Nullable i.grammar.rules c ∧ Ahead i start r outer c' m s := by
  have hDerives := hs.derives
  rw [List.append_assoc] at hDerives
  rw [← headKind_rest] at hNot
  obtain ⟨hNull, hRest⟩ := hDerives.skip hNot
  exact ⟨hNull, hs.change hRest⟩

theorem insert (hs : Ahead i start r outer c m s) (hNull : Nullable i.grammar.rules c') :
    Ahead i start r outer (c' ++ c) m s := by
  refine hs.change ?_
  rw [List.append_assoc]
  exact hs.derives.insert hNull

theorem follows (hs : Ahead i start r outer c m s) :
    Follows i.grammar.rules i.grammar.vocabulary start r c (i.kindAt s.position) := by
  rw [← headKind_rest]
  exact hs.followed.follows_after hs.derives.derives

theorem expected (hs : Ahead i start r outer c m s)
    (hNot : ¬ BeginsWith i.grammar.rules i.grammar.vocabulary c (i.kindAt s.position)) :
    i.kindAt s.position = Vocabulary.eof ∨ i.followsAny (i.kindAt s.position) s.calls = true := by
  have hDerives := hs.derives
  rw [← headKind_rest] at hNot ⊢
  obtain ⟨-, hOuter⟩ := hDerives.skip hNot
  exact or_iff_not_imp_left.mpr (hs.known hOuter.derives)

theorem token {token : TypeId} (hs : Ahead i start r outer (.token token :: c) m s) :
    i.isMatch (i.kindAt s.position) token = true ∧ ∃ n, m = n + 1 ∧
      ((∃ x xs, i.rest s = x :: xs ∧
          DerivesIn i.grammar.rules i.grammar.vocabulary n (c ++ outer) xs) ∨
        token = Vocabulary.eof ∧ i.rest s = [] ∧
          DerivesIn i.grammar.rules i.grammar.vocabulary n (c ++ outer) []) := by
  rw [← headKind_rest]
  obtain ⟨n, rfl, ⟨x, xs, hRest, hMatch, hDerives⟩ | ⟨rfl, hRest, hDerives⟩⟩ :=
    DerivesIn.of_token hs.derives
  · rw [hRest]
    exact ⟨hMatch, n, rfl, .inl ⟨x, xs, rfl, hDerives⟩⟩
  · rw [hRest]
    exact ⟨Vocabulary.isMatch_self, n, rfl, .inr ⟨rfl, rfl, hDerives⟩⟩

theorem of_nested (hs : Ahead i start r outer (inSequence [] ([], c)) m s) :
    Ahead i start r outer c m s := hs.change (DerivesIn.of_nil hs.derives)

theorem nested (hs : Ahead i start r outer (.sequence d :: c) m s) :
    Ahead i start r outer (inSequence d ([], c)) m s := by
  rw [inSequence, List.append_nil]
  exact hs

/-! ## Decisions -/

section Decisions

variable (h : i.IsPredictive sources start)

include h

theorem enters_iff {key : DecisionKey} {decision : Decision}
    (hDecision : i.decisionAt? key = some decision)
    (hEnters : decision.Enters i.grammar d)
    (hFull : ¬ Nullable i.grammar.rules [.sequence d]) :
    i.enters s (i.decisionAt? key) = true ↔ i.grammar.Begins d (i.kindAt s.position) := by
  rw [hDecision]
  exact ⟨hEnters.begins (i.coming s) (h.registered _) hFull,
    hEnters.entered (i.coming s) (h.registered _)⟩

theorem option (hPlaced : Placed i.grammar r [.option d occurrence] k)
    (hs : Ahead i start r outer (inSequence [.option d occurrence] k) m s) :
    if i.enters s (i.decisionAt? (s.key .option occurrence)) then
      Ahead i start r outer (.sequence d :: inSequence [] k) m s
    else Ahead i start r outer (inSequence [] k) m s := by
  obtain ⟨decision, hDecision, hEnters⟩ :=
    h.compiled.enters_option h.oneToken hs.followed.reachable hPlaced.site
  rw [hs.untroubled.key]
  obtain ⟨c, hExpands, hc⟩ := hs.production
  split
  · next hEnter =>
    cases hExpands with
    | option => exact hc
    | noOption =>
      by_cases hNull : Nullable i.grammar.rules [.sequence d]
      · exact hc.insert hNull
      · have hBegins := (enters_iff h hDecision hEnters hNull).mp hEnter
        exact absurd hc.follows (h.oneToken.option hs.followed.reachable hPlaced.site hBegins)
  · next hEnter =>
    cases hExpands with
    | noOption => exact hc
    | option =>
      refine (hc.skip (c := [.sequence d]) fun hBegins => hEnter ?_).2
      rw [show i.decisionAt? ⟨r, .option, occurrence⟩ = some decision from hDecision]
      exact hEnters.entered (i.coming s) (h.registered _) hBegins

variable {loop : Input.Loop α} (hLoop : i.LoopAt r k loop occurrence)

include hLoop

theorem enters_iteration_iff (hReach : Reachable i.grammar.rules start r) :
    i.enters s (i.decisionAt? loop.key) = true ↔
      i.grammar.Begins (i.grammar.shape loop.body) (i.kindAt s.position) := by
  obtain ⟨decision, hDecision, hEnters⟩ :=
    h.compiled.enters_repetition h.oneToken hReach hLoop.placed.site
  rw [hLoop.key]
  exact enters_iff h hDecision hEnters (h.compiled.not_nullable_iteration hLoop.placed.site)

theorem begins_iteration {rest : Continuation}
    (hs : Ahead i start r outer (i.iterationAhead loop rest) m s) :
    i.grammar.Begins (i.grammar.shape loop.body) (i.kindAt s.position) := by
  by_contra hNot
  exact h.compiled.not_nullable_iteration hLoop.placed.site
    (hs.skip (c := [.sequence (i.grammar.shape loop.body)]) hNot).1

theorem rest_ne_nil (hs : Ahead i start r outer (i.iterationAhead loop (inSequence [] k)) m s) :
    i.rest s ≠ [] := by
  intro hNil
  have hDerives : DerivesIn i.grammar.rules i.grammar.vocabulary m
      ([.sequence (i.grammar.shape loop.body),
        .again (i.grammar.shape loop.body) loop.separator] ++ (inSequence [] k ++ outer)) [] :=
    hNil ▸ hs.derives
  obtain ⟨n, -, hRest⟩ := hDerives.of_append_nil
  have hAfter : Ahead i start r outer (inSequence [] k) n s := hs.change (hNil ▸ hRest)
  exact h.oneToken.repetition hs.followed.reachable hLoop.placed.site (begins_iteration h hLoop hs)
    hAfter.follows

theorem position_ne (hs : Ahead i start r outer (i.iterationAhead loop (inSequence [] k)) m s)
    (hRead : ReadDone i (inSequence (i.grammar.shape loop.body)) (inSequence []) s t)
    (ht : t.errors = []) : t.position ≠ s.position := by
  intro hSame
  have hSteps := hRead.reads (by rw [ht, hs.untroubled.errors]) ([], [])
  rw [rest_congr hSame, inSequence, List.append_nil] at hSteps
  have hUnfolds := (unfolds_of_steps hSteps).2 rfl (rest_ne_nil h hLoop hs)
  exact h.compiled.not_nullable_iteration hLoop.placed.site
    (hUnfolds.trans nullable_sequence_nil)

theorem repetition (hs : Ahead i start r outer (inSequence [.repetition loop.mandatory
      loop.separator (i.grammar.shape loop.body) occurrence] k) m s) :
    if i.enters s (i.decisionAt? loop.key) then
      Ahead i start r outer (i.iterationAhead loop (inSequence [] k)) m s
    else loop.mandatory = false ∧ Ahead i start r outer (inSequence [] k) m s := by
  have hEnters := enters_iteration_iff (s := s) h hLoop hs.followed.reachable
  obtain ⟨c, hExpands, hc⟩ := hs.production
  generalize hMandatory : loop.mandatory = mandatory at hExpands
  split
  · next hEnter =>
    cases hExpands with
    | iteration => exact hc
    | noIteration =>
      exact absurd hc.follows (h.oneToken.repetition hs.followed.reachable hLoop.placed.site
        (hEnters.mp hEnter))
  · next hEnter =>
    cases hExpands with
    | noIteration => exact ⟨rfl, hc⟩
    | iteration => exact absurd (hEnters.mpr (begins_iteration h hLoop hc)) hEnter

omit h hLoop in
theorem further (hs : Ahead i start r outer (i.furtherIterations loop c) m s) :
    ∃ d, (Segment.again (i.grammar.shape loop.body) loop.separator).Expands i.grammar.rules d ∧
      Ahead i start r outer (d ++ c) m s := by
  obtain ⟨d, hExpands, hd⟩ := DerivesIn.of_again hs.derives
  refine ⟨d, hExpands, hs.change ?_⟩
  rw [List.append_assoc]
  exact hd

/-- Where nothing but what follows a repetition is ahead, recovery skips nothing. -/
theorem skips_nothing (hs : Ahead i start r outer (inSequence [] k) m s) :
    i.skipToNextIteration s loop.key (i.decisionAt? loop.key) loop.separator = (s, false) := by
  rcases i.skipToNextIteration_cases s loop.key (i.decisionAt? loop.key) loop.separator with
    hSkip | ⟨exits, index, resumes, -, hExits, hEnd, hNot, hOutside, -⟩
  · exact hSkip
  · have hSite := hLoop.placed.site
    rw [hLoop.key, h.compiled.repetitionExit hSite] at hExits
    obtain rfl := Option.some.inj hExits
    rw [Input.inEnclosingFollows, Bool.or_eq_false_iff] at hOutside
    refine absurd ((hs.expected fun hBegins => ?_).resolve_left hEnd) (by simp [hOutside.2])
    have hMem := BeginsWith.mem_follow h.compiled.areSolid (h.compiled.isSolid_after hSite) hBegins
    exact absurd (hNot.symm.trans (TokenSet.contains_iff.mpr hMem)) Bool.false_ne_true

theorem iterations (hs : Ahead i start r outer (i.furtherIterations loop (inSequence [] k)) m s) :
    if i.continues s (i.decisionAt? loop.key) loop.separator then
      ∃ n ≤ m, Ahead i start r outer (i.iterationAhead loop (inSequence [] k)) n
        (i.consumeSeparator s loop.separator)
    else Ahead i start r outer (inSequence [] k) m s := by
  have hEnters := enters_iteration_iff (s := s) h hLoop hs.followed.reachable
  have hSite := hLoop.placed.site
  obtain ⟨d, hExpands, hd⟩ := hs.further
  obtain ⟨key, mandatory, separator, body⟩ := loop
  simp only at hEnters hExpands hd hSite ⊢
  cases separator with
  | none =>
    rw [Input.continues, Input.consumeSeparator]
    split
    · next hContinue =>
      cases hExpands with
      | another => exact ⟨m, Nat.le_refl m, hd⟩
      | stop =>
        exact absurd hd.follows (h.oneToken.repetition hs.followed.reachable hSite
          (hEnters.mp hContinue))
    · next hContinue =>
      cases hExpands with
      | stop => exact hd
      | another => exact absurd (hEnters.mpr (begins_iteration h hLoop hd)) hContinue
  | some token =>
    rw [Input.continues]
    split
    · next hContinue =>
      cases hExpands with
      | stop =>
        exact absurd hd.follows (h.oneToken.separator hs.followed.reachable hSite hContinue)
      | separated =>
        obtain ⟨-, n, rfl, ⟨x, xs, hRest, hDerives⟩ | ⟨rfl, hRest, hDerives⟩⟩ := Ahead.token hd
        · have hNext := Input.rest_of_next (t := i.consumeSeparator s (some token)) hRest
            (position_addToken _ _ _)
          exact ⟨n, Nat.le_succ n, hd.step (frame_consumeSeparator _) (errors_consumeSeparator _)
            (hNext.symm ▸ hDerives)⟩
        · obtain ⟨l, -, hAfter⟩ := DerivesIn.of_append_nil
            (c := [.sequence (i.grammar.shape body), .again (i.grammar.shape body) (some _)])
            hDerives
          have hBehind : Ahead i start r outer (inSequence [] k) l s := hs.change (hRest ▸ hAfter)
          exact absurd hBehind.follows
            (h.oneToken.separator hs.followed.reachable hSite hContinue)
    · next hContinue =>
      cases hExpands with
      | stop => exact hd
      | separated => exact absurd (Ahead.token hd).1 hContinue

end Decisions

theorem choice (h : i.IsPredictive sources start) {branches : List (Branch (Op α))}
    (hPlaced : Placed i.grammar r [.alternation (i.grammar.shapeOfBranches branches) occurrence] k)
    (hs : Ahead i start r outer
      (inSequence [.alternation (i.grammar.shapeOfBranches branches) occurrence] k) m s) :
    ∃ branch ∈ branches, (∀ mask, i.branchAt? s occurrence branches mask = some branch) ∧
      Ahead i start r outer (.sequence (i.grammar.shape branch.body) :: inSequence [] k) m s := by
  obtain ⟨c, hExpands, hc⟩ := hs.production
  cases hExpands with
  | alternative a ha =>
    obtain ⟨n, hn⟩ := List.getElem?_of_mem ha
    have hMapped := hn
    rw [Grammar.shapeOfBranches, List.getElem?_map] at hMapped
    obtain ⟨branch, hBranch, rfl⟩ := Option.map_eq_some_iff.mp hMapped
    have hFits : i.grammar.Begins (i.grammar.shape branch.body) (i.kindAt s.position) ∨
        Nullable i.grammar.rules [.sequence (i.grammar.shape branch.body)] ∧
          Follows i.grammar.rules i.grammar.vocabulary start r (inSequence [] k)
            (i.kindAt s.position) := by
      refine or_iff_not_imp_left.mpr fun hNot => ?_
      obtain ⟨hNull, hRest⟩ := hc.skip hNot
      exact ⟨hNull, hRest.follows⟩
    have hChosen : ∃ d, i.grammar.analysis.decisionAt? ⟨r, .or, occurrence⟩ = some d ∧
        d.choose i.grammar.vocabulary (i.coming s) none = some n :=
      h.compiled.chooses h.strict h.ungated hPlaced.site h.oneToken hs.followed.reachable hn hFits
        (h.registered _)
    obtain ⟨decision, hDecision, hChoose⟩ := hChosen
    have hFound : i.decisionAt? (s.key .or occurrence) = some decision := by
      rw [hs.untroubled.key]
      exact hDecision
    refine ⟨branch, List.mem_of_getElem? hBranch, fun mask => ?_, hc⟩
    rw [Input.branchAt?_plain (hPlaced.gate_eq_none h.ungated) hFound, hChoose, Option.bind_some]
    exact hBranch

/-! ## Tokens and calls -/

theorem consume (h : i.IsPredictive sources start) {kind : TypeId}
    (hs : Ahead i start r outer (inSequence [.terminal kind occurrence] k) m s)
    (label : Option String) : ∃ x t n, i.consume s occurrence kind label = .done x t ∧ n < m ∧
      Ahead i start r outer (inSequence [] k) n t := by
  obtain ⟨c, hExpands, hc⟩ := hs.production
  cases hExpands with
  | terminal =>
    obtain ⟨hMatch, n, rfl, hRead⟩ := token hc
    have hFrame := frame_consume (i := i) s occurrence kind label
    rw [Input.consume_of_isMatch label hMatch] at hFrame ⊢
    refine ⟨_, _, n, rfl, Nat.lt_succ_self n, ?_⟩
    rcases hRead with ⟨x, xs, hRest, hDerives⟩ | ⟨-, hRest, hDerives⟩
    · have hSome : ¬ (i.next s).isEof = true := by
        rw [isEof_next]
        intro hEnd
        rw [h.regular.rest_eq_nil hEnd] at hRest
        cases hRest
      rw [Input.behindNext, if_neg hSome] at hFrame ⊢
      refine hs.step hFrame (errors_addToken _ _ _) ?_
      rw [Input.rest_of_next hRest (position_addToken _ _ _)]
      exact hDerives
    · have hEnd : (i.next s).isEof = true := by
        rw [isEof_next, ← headKind_rest, hRest]
        rfl
      rw [Input.behindNext, if_pos hEnd] at hFrame ⊢
      refine hs.step hFrame (errors_addToken _ _ _) ?_
      rw [rest_congr (position_addToken _ _ _), hRest]
      exact hDerives

section Calls

variable {name : String} {id : RuleId} {after : Continuation}
  (hSite : (r, ⟨.nonTerminal name (some id) occurrence, after⟩) ∈ Analysis.sites i.grammar.rules)

include hSite

theorem enter (h : i.IsPredictive sources start)
    (hs : Ahead i start r outer (.sequence (definitionOf i.grammar.rules id) :: after) m s) :
    Ahead i start id (after ++ outer) (inSequence (definitionOf i.grammar.rules id) ([], [])) m
      (i.enter s id occurrence) := by
  refine ⟨⟨hs.untroubled.inside.tidy.inside_enter id occurrence, rfl, hs.untroubled.errors⟩,
    hs.followed.call hSite, fun {xs} hDerives hSome => ?_, ?_⟩
  · have hCall := hs.untroubled.callFollow? h.compiled hSite
    change i.followsAny _ (⟨id, occurrence⟩ :: s.calls) = true
    rw [Input.followsAny, hCall, Bool.or_eq_true]
    by_cases hBegins : BeginsWith i.grammar.rules i.grammar.vocabulary after (headKind xs)
    · have hMem := BeginsWith.mem_follow h.compiled.areSolid (h.compiled.isSolid_after hSite) hBegins
      exact .inl (TokenSet.contains_iff.mpr hMem)
    · obtain ⟨n, hReads⟩ := Derives.reads hDerives
      exact .inr (hs.known (hReads.skip hBegins).2.derives hSome)
  · rw [inSequence, List.append_nil]
    exact hs.derives

omit hSite in
theorem leave (hs : Ahead i start r outer c m s)
    (hFrame : Frame i (i.enter s id occurrence) t)
    (ht : Ahead i start id (after ++ outer) (inSequence [] ([], [])) n t) (label : Option String) :
    Ahead i start r outer after n (i.leave t id label) := by
  refine hs.step hFrame.leave ?_ ?_
  · rw [errors_leave, ht.untroubled.errors, hs.untroubled.errors]
  · rw [rest_congr (position_leave _ _)]
    exact DerivesIn.of_nil ht.derives

end Calls

end Ahead

end PredictiveParsing.Parse
