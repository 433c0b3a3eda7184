import PredictiveParsing.Builtin.JsonText
import PredictiveParsing.Proofs.Grammar.FollowSets
import PredictiveParsing.Proofs.Parse.Returns

/-!
# The rules of JSON texts

The rules are faithful. Some texts to parse by them.
-/

namespace PredictiveParsing.JsonText

theorem isFaithful : ∀ r ∈ rules, r.IsFaithful := by
  intro r hr
  simp only [rules, List.mem_cons, List.not_mem_nil, or_false] at hr
  rcases hr with rfl | rfl | rfl | rfl | rfl
  · exact ⟨rfl, rfl⟩
  · exact ⟨rfl, rfl⟩
  · exact ⟨rfl, rfl⟩
  · exact ⟨rfl, rfl⟩
  · exact ⟨rfl, rfl⟩

def follows : FollowSets :=
  [.ofList [Vocabulary.eof], .ofList [Vocabulary.eof, comma, rcurly, rsquare],
    .ofList [comma, rcurly], .ofList [Vocabulary.eof, comma, rcurly, rsquare],
    .ofList [comma, rcurly, rsquare]]

def character (kind : TypeId) (image : String) (offset : Nat) : Token :=
  ⟨kind, image, ⟨offset, offset + 1⟩, none, none, false⟩

def pair : List Token :=
  [character lsquare "[" 0, character number "1" 1, character comma "," 2, character number "2" 3,
    character rsquare "]" 4]

def broken : List Token :=
  [character lsquare "[" 0, character number "1" 1, character comma "," 2, character comma "," 3,
    character number "2" 4, character rsquare "]" 5, character rsquare "]" 6]

def parsed? (config : ParserConfig) (tokens : List Token) :
    Option (Grammar Unit × Parse.ParseOutput Unit) :=
  match Grammar.compile (.ofTypes types) rules config with
  | .error _ => none
  | .ok g =>
    match g.parseWithin 100 "json" tokens with
    | .parsed output => some (g, output)
    | _ => none

theorem exists_parsed (config : ParserConfig) (tokens : List Token)
    {p : Grammar Unit × Parse.ParseOutput Unit → Bool}
    (h : (parsed? config tokens).any p = true) :
    ∃ g output, Grammar.compile (.ofTypes types) rules config = .ok g ∧
      g.parseWithin 100 "json" tokens = .parsed output ∧ p (g, output) = true := by
  unfold parsed? at h
  split at h
  · cases h
  · next g hCompile =>
    split at h
    · next output hParse => exact ⟨g, output, hCompile, hParse, h⟩
    · cases h

end PredictiveParsing.JsonText
