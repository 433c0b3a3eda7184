import PredictiveParsing.Lexer.Config
import PredictiveParsing.Lexer.Dispatch

/-!
# Lexers

A lexer definition lists the token types of every mode. `Lexer.build` compiles their patterns and
refuses a definition that cannot work, with every reason it finds.
-/

namespace PredictiveParsing

structure LexerDefinition where
  modes : List (String × List TypeId)
  defaultMode : String

namespace LexerDefinition

def singleModeName : String := "default"

def single (types : List TypeId) : LexerDefinition :=
  ⟨[(singleModeName, types)], singleModeName⟩

/-- One mode of all types that have a pattern. -/
def ofVocabulary (v : Vocabulary) : LexerDefinition :=
  single (v.ids.filter fun id =>
    match v.type? id with
    | some t => !t.isCategory
    | none => false)

def modeIndex? (d : LexerDefinition) (name : String) : Option Nat :=
  d.modes.findIdx? fun (n, _) => n == name

/-- All types of all modes, each where it occurs first. -/
def used (d : LexerDefinition) : List TypeId := (d.modes.flatMap (·.2)).eraseDups

end LexerDefinition

inductive LexerDefinitionError where
  | invalidPattern (type : String)
  | emptyMatch (type : String)
  | notMatchable (type : String)
  | unknownPushMode (type target : String)
  | unknownDefaultMode (mode : String)
  | duplicateName (type : String)
  | unoptimized (type : String)
  | longerNotInMode (type longer mode : String)
  | unknownTokenType (type : String)
deriving DecidableEq, Repr

namespace LexerDefinitionError

def message : LexerDefinitionError → String
  | .invalidPattern t => "Token type `" ++ t ++ "` has an invalid pattern"
  | .emptyMatch t => "Token type `" ++ t ++ "` can match the empty string"
  | .notMatchable t => "Token type `" ++ t ++ "` has no pattern and cannot be matched"
  | .unknownPushMode t target =>
    "Token type `" ++ t ++ "` pushes unknown lexer mode `" ++ target ++ "`"
  | .unknownDefaultMode mode => "Unknown default lexer mode `" ++ mode ++ "`"
  | .duplicateName t => "Duplicate token type name `" ++ t ++ "`"
  | .unoptimized t => "Cannot compute the first characters of token type `" ++ t ++ "`"
  | .longerNotInMode t longer mode =>
    "Token type `" ++ t ++ "` has a longer alternative `" ++ longer ++
      "` which is not part of lexer mode `" ++ mode ++ "`"
  | .unknownTokenType t =>
    "Token type `" ++ t ++
      "` refers to a category or longer alternative which is not registered in its vocabulary"

end LexerDefinitionError

structure Lexer.Mode where
  name : String
  types : List TypeId
  dispatch : DispatchTable
deriving Inhabited

structure Lexer.Compiled where
  matcher : Matcher
  facts : PatternFacts

structure Lexer where
  vocabulary : Vocabulary
  config : LexerConfig
  modes : List Lexer.Mode
  defaultMode : Nat
  compiled : List (TypeId × Lexer.Compiled)

namespace Lexer

def namingErrors (v : Vocabulary) (d : LexerDefinition) : List LexerDefinitionError :=
  v.duplicates.map (fun id => .duplicateName (v.name id)) ++
  v.dangling.map (fun id => .unknownTokenType (v.name id)) ++
  (match d.modeIndex? d.defaultMode with
    | some _ => []
    | none => [.unknownDefaultMode d.defaultMode])

/-- Types preferred for longer matches that are missing from a mode. -/
def longerErrors (v : Vocabulary) (d : LexerDefinition) : List LexerDefinitionError :=
  d.modes.flatMap fun (mode, types) => types.flatMap fun id =>
    (((v.type? id).map (·.longer)).getD []).filterMap fun longer =>
      if types.contains longer then none
      else some (.longerNotInMode (v.name id) (v.name longer) mode)

section Compiling

variable [RegexLibrary]

def patternErrors (config : LexerConfig) (type : TokenType) : List LexerDefinitionError :=
  match type.pattern.compile config.lineTerminators with
  | .ok (_, facts) =>
    (if facts.nullable then [.emptyMatch type.name] else []) ++
    (if facts.first = .any && config.ensureOptimizations then [.unoptimized type.name] else [])
  | .error .malformed => [.invalidPattern type.name]
  | .error .notMatchable => [.notMatchable type.name]

def pushErrors (d : LexerDefinition) (type : TokenType) : List LexerDefinitionError :=
  match type.pushMode with
  | some target =>
    if (d.modeIndex? target).isSome then [] else [.unknownPushMode type.name target]
  | none => []

def definitionErrors (v : Vocabulary) (d : LexerDefinition) (config : LexerConfig) :
    List LexerDefinitionError :=
  namingErrors v d ++ longerErrors v d ++
    (d.used.filterMap v.type?).flatMap fun type => patternErrors config type ++ pushErrors d type

def compileTypes (v : Vocabulary) (d : LexerDefinition) (config : LexerConfig) :
    List (TypeId × Compiled) :=
  d.used.filterMap fun id => do
    let type ← v.type? id
    match type.pattern.compile config.lineTerminators with
    | .ok (matcher, facts) => some (id, ⟨matcher, facts⟩)
    | .error _ => none

def buildMode (compiled : List (TypeId × Compiled)) (name : String) (types : List TypeId) : Mode :=
  { name, types
    dispatch := .build (types.filterMap fun id =>
      (compiled.lookup id).map fun c => (id, c.facts.first)) }

def build (v : Vocabulary) (d : LexerDefinition) (config : LexerConfig) :
    Except (List LexerDefinitionError) Lexer :=
  match definitionErrors v d config with
  | [] =>
    let compiled := compileTypes v d config
    .ok
      { vocabulary := v, config, compiled
        modes := d.modes.map fun (name, types) => buildMode compiled name types
        defaultMode := (d.modeIndex? d.defaultMode).getD 0 }
  | errors => .error errors

end Compiling

def modeIndex? (l : Lexer) (name : String) : Option Nat := l.modes.findIdx? (·.name == name)

def mode (l : Lexer) (index : Nat) : Mode := l.modes.getD index default

def type? (l : Lexer) (id : TypeId) : Option TokenType := l.vocabulary.type? id

def pushTarget? (l : Lexer) (id : TypeId) : Option Nat := do
  l.modeIndex? (← (← l.type? id).pushMode)

def popsMode (l : Lexer) (id : TypeId) : Bool := ((l.type? id).map (·.popMode)).getD false

def longer (l : Lexer) (id : TypeId) : List TypeId := ((l.type? id).map (·.longer)).getD []

/-- Whether tokens of a type can contain line breaks: as its definition states, else as its pattern
allows. -/
def hasLineBreaks (l : Lexer) (id : TypeId) : Bool :=
  (((l.type? id).bind (·.lineBreaks)).orElse fun _ =>
    (l.compiled.lookup id).map (·.facts.lineBreaks)).getD false

end Lexer

end PredictiveParsing
