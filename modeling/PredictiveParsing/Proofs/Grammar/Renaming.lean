import PredictiveParsing.Grammar.Structure
import PredictiveParsing.Grammar.Ambiguity

/-!
# Other numbers for rules

References hold the numbers of their rules. With other numbers, productions keep all that the checks
and the analysis look at, as long as what is known of the rules goes by the new numbers too.
-/

namespace PredictiveParsing

variable {σ : RuleId → RuleId}

def DecisionKey.rename (σ : RuleId → RuleId) (k : DecisionKey) : DecisionKey :=
  { k with rule := σ k.rule }

def TerminalSite.rename (σ : RuleId → RuleId) (k : TerminalSite) : TerminalSite :=
  { k with rule := σ k.rule }

def CallSite.rename (σ : RuleId → RuleId) (k : CallSite) : CallSite :=
  { k with caller := σ k.caller, callee := σ k.callee }

namespace Production

mutual

def rename (σ : RuleId → RuleId) : Production → Production
  | .terminal token occurrence => .terminal token occurrence
  | .nonTerminal name target occurrence => .nonTerminal name (target.map σ) occurrence
  | .option definition occurrence => .option (renameAll σ definition) occurrence
  | .repetition mandatory separator definition occurrence =>
    .repetition mandatory separator (renameAll σ definition) occurrence
  | .alternation alternatives occurrence => .alternation (renameBranches σ alternatives) occurrence

def renameAll (σ : RuleId → RuleId) : List Production → List Production
  | [] => []
  | p :: ps => rename σ p :: renameAll σ ps

def renameBranches (σ : RuleId → RuleId) :
    List (Alternative Production) → List (Alternative Production)
  | [] => []
  | ⟨definition, ignore, gate⟩ :: rest =>
    ⟨renameAll σ definition, ignore, gate⟩ :: renameBranches σ rest

end

@[simp] theorem kind_rename (p : Production) : (p.rename σ).kind = p.kind := by
  cases p <;> simp [rename, kind]

@[simp] theorem occurrence_rename (p : Production) : (p.rename σ).occurrence = p.occurrence := by
  cases p <;> simp [rename, occurrence]

@[simp] theorem isEmpty_renameAll (ps : List Production) :
    (renameAll σ ps).isEmpty = ps.isEmpty := by
  cases ps <;> simp [renameAll]

def renameBranch (σ : RuleId → RuleId) (branch : Alternative Production) :
    Alternative Production :=
  { branch with definition := renameAll σ branch.definition }

theorem renameBranches_eq_map (branches : List (Alternative Production)) :
    renameBranches σ branches = branches.map (renameBranch σ) := by
  induction branches with
  | nil => simp [renameBranches]
  | cons branch rest ih => simp [renameBranches, renameBranch, ih]

mutual

theorem nodes_rename (p : Production) : (p.rename σ).nodes = p.nodes.map (rename σ) := by
  cases p with
  | terminal | nonTerminal => simp [rename, nodes]
  | option definition => simp [rename, nodes, nodesOf_renameAll definition]
  | repetition mandatory separator definition =>
    simp [rename, nodes, nodesOf_renameAll definition]
  | alternation alternatives => simp [rename, nodes, nodesOf_renameBranches alternatives]

theorem nodesOf_renameAll (ps : List Production) :
    nodesOf (renameAll σ ps) = (nodesOf ps).map (rename σ) := by
  cases ps with
  | nil => simp [renameAll, nodesOf]
  | cons p ps => simp [renameAll, nodesOf, nodes_rename p, nodesOf_renameAll ps]

theorem nodesOf_renameBranches (branches : List (Alternative Production)) :
    nodesOfBranches (renameBranches σ branches) = (nodesOfBranches branches).map (rename σ) := by
  cases branches with
  | nil => simp [renameBranches, nodesOfBranches]
  | cons branch rest =>
    simp [renameBranches, nodesOfBranches, nodesOf_renameAll branch.definition,
      nodesOf_renameBranches rest]

end

mutual

theorem size_rename (p : Production) : (p.rename σ).size = p.size := by
  cases p with
  | terminal | nonTerminal => simp [rename, size]
  | option definition => simp [rename, size, sizeAll_renameAll definition]
  | repetition mandatory separator definition => simp [rename, size, sizeAll_renameAll definition]
  | alternation alternatives => simp [rename, size, size_renameBranches alternatives]

theorem sizeAll_renameAll (ps : List Production) : sizeAll (renameAll σ ps) = sizeAll ps := by
  cases ps with
  | nil => simp [renameAll]
  | cons p ps => simp [renameAll, sizeAll, size_rename p, sizeAll_renameAll ps]

theorem size_renameBranches (branches : List (Alternative Production)) :
    sizeOfBranches (renameBranches σ branches) = sizeOfBranches branches := by
  cases branches with
  | nil => simp [renameBranches]
  | cons branch rest =>
    simp [renameBranches, sizeOfBranches, sizeAll_renameAll branch.definition,
      size_renameBranches rest]

end

section Known

variable {find? find?' : String → Option RuleId} {known known' : RuleId → Bool}
  {firsts firsts' : RuleId → TokenSet}

mutual

theorem resolve_rename (h : ∀ name, find?' name = (find? name).map σ) (p : Production) :
    resolve find?' p = (resolve find? p).rename σ := by
  cases p with
  | terminal | nonTerminal => simp [rename, resolve, h]
  | option definition => simp [rename, resolve, resolveAll_renameAll h definition]
  | repetition mandatory separator definition =>
    simp [rename, resolve, resolveAll_renameAll h definition]
  | alternation alternatives => simp [rename, resolve, resolve_renameBranches h alternatives]

theorem resolveAll_renameAll (h : ∀ name, find?' name = (find? name).map σ)
    (ps : List Production) : resolveAll find?' ps = renameAll σ (resolveAll find? ps) := by
  cases ps with
  | nil => simp [renameAll, resolveAll]
  | cons p ps => simp [renameAll, resolveAll, resolve_rename h p, resolveAll_renameAll h ps]

theorem resolve_renameBranches (h : ∀ name, find?' name = (find? name).map σ)
    (branches : List (Alternative Production)) :
    resolveBranches find?' branches = renameBranches σ (resolveBranches find? branches) := by
  cases branches with
  | nil => simp [renameBranches, resolveBranches]
  | cons branch rest =>
    simp [renameBranches, resolveBranches, resolveAll_renameAll h branch.definition,
      resolve_renameBranches h rest]

end

mutual

theorem nullable_rename (h : ∀ r, known' (σ r) = known r) (p : Production) :
    nullable known' (p.rename σ) = nullable known p := by
  cases p with
  | terminal | option => simp [rename, nullable]
  | nonTerminal name target =>
    cases target with
    | none => simp [rename, nullable]
    | some target => simp [rename, nullable, h]
  | repetition mandatory separator definition =>
    simp [rename, nullable, nullableAll_renameAll h definition]
  | alternation alternatives => simp [rename, nullable, nullable_renameBranches h alternatives]

theorem nullableAll_renameAll (h : ∀ r, known' (σ r) = known r) (ps : List Production) :
    nullableAll known' (renameAll σ ps) = nullableAll known ps := by
  cases ps with
  | nil => simp [renameAll, nullableAll]
  | cons p ps => simp [renameAll, nullableAll, nullable_rename h p, nullableAll_renameAll h ps]

theorem nullable_renameBranches (h : ∀ r, known' (σ r) = known r)
    (branches : List (Alternative Production)) :
    nullableBranches known' (renameBranches σ branches) = nullableBranches known branches := by
  cases branches with
  | nil => simp [renameBranches, nullableBranches]
  | cons branch rest =>
    simp [renameBranches, nullableBranches, nullableAll_renameAll h branch.definition,
      nullable_renameBranches h rest]

end

mutual

theorem first_rename (h : ∀ r, known' (σ r) = known r) (hFirsts : ∀ r, firsts' (σ r) = firsts r)
    (p : Production) : first known' firsts' (p.rename σ) = first known firsts p := by
  cases p with
  | terminal => simp [rename, first]
  | nonTerminal name target =>
    cases target with
    | none => simp [rename, first]
    | some target => simp [rename, first, hFirsts]
  | option definition => simp [rename, first, firstOf_renameAll h hFirsts definition]
  | repetition mandatory separator definition =>
    simp [rename, first, firstOf_renameAll h hFirsts definition]
  | alternation alternatives =>
    simp [rename, first, first_renameBranches h hFirsts alternatives]

theorem firstOf_renameAll (h : ∀ r, known' (σ r) = known r)
    (hFirsts : ∀ r, firsts' (σ r) = firsts r) (ps : List Production) :
    firstOf known' firsts' (renameAll σ ps) = firstOf known firsts ps := by
  cases ps with
  | nil => simp [renameAll, firstOf]
  | cons p ps =>
    simp [renameAll, firstOf, nullable_rename h p, first_rename h hFirsts p,
      firstOf_renameAll h hFirsts ps]

theorem first_renameBranches (h : ∀ r, known' (σ r) = known r)
    (hFirsts : ∀ r, firsts' (σ r) = firsts r) (branches : List (Alternative Production)) :
    firstOfBranches known' firsts' (renameBranches σ branches) =
      firstOfBranches known firsts branches := by
  cases branches with
  | nil => simp [renameBranches, firstOfBranches]
  | cons branch rest =>
    simp [renameBranches, firstOfBranches, firstOf_renameAll h hFirsts branch.definition,
      first_renameBranches h hFirsts rest]

end

end Known

end Production

namespace Structure

variable {fs fs' : FirstSets}

mutual

theorem opening_rename (h : ∀ r, fs'.isNullable (σ r) = fs.isNullable r) (p : Production) :
    opening fs' (p.rename σ) = ((opening fs p).1.map σ, (opening fs p).2) := by
  cases p with
  | terminal => simp [Production.rename, opening]
  | nonTerminal name target =>
    cases target with
    | none => simp [Production.rename, opening]
    | some target => simp [Production.rename, opening, h]
  | option definition => simp [Production.rename, opening, openingOf_renameAll h definition]
  | repetition mandatory separator definition =>
    simp [Production.rename, opening, openingOf_renameAll h definition]
  | alternation alternatives =>
    simp [Production.rename, opening, opening_renameBranches h alternatives]

theorem openingOf_renameAll (h : ∀ r, fs'.isNullable (σ r) = fs.isNullable r)
    (ps : List Production) : openingOf fs' (Production.renameAll σ ps) =
      ((openingOf fs ps).1.map σ, (openingOf fs ps).2) := by
  cases ps with
  | nil => simp [Production.renameAll, openingOf]
  | cons p ps =>
    simp only [Production.renameAll, openingOf, opening_rename h p, openingOf_renameAll h ps]
    split <;> simp

theorem opening_renameBranches (h : ∀ r, fs'.isNullable (σ r) = fs.isNullable r)
    (branches : List (Alternative Production)) :
    openingOfBranches fs' (Production.renameBranches σ branches) =
      ((openingOfBranches fs branches).1.map σ, (openingOfBranches fs branches).2) := by
  cases branches with
  | nil => simp [Production.renameBranches, openingOfBranches]
  | cons branch rest =>
    simp [Production.renameBranches, openingOfBranches, openingOf_renameAll h branch.definition,
      opening_renameBranches h rest]

end

theorem OccurrenceKey.of_rename {v : Vocabulary} (p : Production) :
    OccurrenceKey.of v (p.rename σ) = .of v p := by
  cases p with
  | terminal | nonTerminal | option | alternation =>
    simp [Production.rename, of, Production.kind, Production.occurrence]
  | repetition => simp [Production.rename, of, Production.kind, Production.occurrence]

end Structure

/-! ## What is made of productions -/

def Rule.rename (σ : RuleId → RuleId) (r : Rule) : Rule :=
  { r with definition := Production.renameAll σ r.definition }

theorem Rule.nodes_rename (r : Rule) : (r.rename σ).nodes = r.nodes.map (.rename σ) :=
  Production.nodesOf_renameAll r.definition

def Segment.rename (σ : RuleId → RuleId) : Segment → Segment
  | .sequence definition => .sequence (Production.renameAll σ definition)
  | .again definition separator => .again (Production.renameAll σ definition) separator
  | .token kind => .token kind

abbrev Continuation.rename (σ : RuleId → RuleId) (c : Continuation) : Continuation :=
  c.map (Segment.rename σ)

theorem Segment.size_rename (segment : Segment) : (segment.rename σ).size = segment.size := by
  cases segment with
  | sequence definition => simp [rename, size, Production.sizeAll_renameAll]
  | again definition separator => simp [rename, size, Production.sizeAll_renameAll]
  | token kind => rfl

def Partial.rename (σ : RuleId → RuleId) (p : Partial) : Partial :=
  { p with rest := Continuation.rename σ p.rest }

def Lookahead.Found.rename (σ : RuleId → RuleId) (f : Found) : Found :=
  { f with growing := f.growing.map (.rename σ) }

def Site.rename (σ : RuleId → RuleId) (site : Site) : Site :=
  ⟨site.production.rename σ, Continuation.rename σ site.after⟩

namespace Site

mutual

theorem within_rename (after : Continuation) (p : Production) :
    within (Continuation.rename σ after) (p.rename σ) = (within after p).map (rename σ) := by
  cases p with
  | terminal | nonTerminal => simp [Production.rename, within, rename]
  | option definition =>
    simp [Production.rename, within, rename, along_renameAll after definition]
  | repetition mandatory separator definition =>
    have hNested := along_renameAll (.again definition separator :: after) definition
    rw [Continuation.rename, List.map_cons, Segment.rename] at hNested
    simp [Production.rename, within, rename, hNested]
  | alternation alternatives =>
    simp [Production.rename, within, rename, among_renameBranches after alternatives]

theorem along_renameAll (after : Continuation) (ps : List Production) :
    along (Continuation.rename σ after) (Production.renameAll σ ps) =
      (along after ps).map (rename σ) := by
  cases ps with
  | nil => simp [Production.renameAll, along]
  | cons p ps =>
    have hFirst := within_rename (.sequence ps :: after) p
    rw [Continuation.rename, List.map_cons, Segment.rename] at hFirst
    simp [Production.renameAll, along, hFirst, along_renameAll after ps]

theorem among_renameBranches (after : Continuation) (branches : List (Alternative Production)) :
    amongBranches (Continuation.rename σ after) (Production.renameBranches σ branches) =
      (amongBranches after branches).map (rename σ) := by
  cases branches with
  | nil => simp [Production.renameBranches, amongBranches]
  | cons branch rest =>
    simp [Production.renameBranches, amongBranches, along_renameAll after branch.definition,
      among_renameBranches after rest]

end

theorem ofRule_rename (r : Rule) : ofRule (r.rename σ) = (ofRule r).map (rename σ) :=
  along_renameAll [] r.definition

end Site

end PredictiveParsing
