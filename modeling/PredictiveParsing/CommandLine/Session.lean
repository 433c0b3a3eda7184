import PredictiveParsing.CommandLine.Host
import PredictiveParsing.CommandLine.Options
import PredictiveParsing.CommandLine.Settings
import PredictiveParsing.CommandLine.Diagnostic
import PredictiveParsing.Builtin.JsonText
import PredictiveParsing.Builtin.Arithmetic
import PredictiveParsing.Regex.Library
import PredictiveParsing.Tree.Display
import PredictiveParsing.Json.Printer

/-!
# Sessions of the command line

A session reads its arguments, its settings and one file, parses the file in a built-in language and
shows what it was asked to show. What goes to a log besides is left out.
-/

namespace PredictiveParsing.CommandLine

inductive Failure where
  | usage (cause : UsageError)
  | unreadableSettings (path : String) (cause : ReadError)
  | malformedSettings (path : String)
  | unreadableFile (path : String) (cause : ReadError)
  | lexer (errors : List LexerDefinitionError)
  | grammar (cause : CompileError)
  | parse (problem : String)

namespace Failure

def grammarErrorLine (e : DefinitionError) : String :=
  e.kindName ++ " in rule `" ++ e.rule ++ "`: " ++ e.message

def message : Failure → String
  | .usage cause => cause.message
  | .unreadableSettings path cause => "Failed to read config `" ++ path ++ "`: " ++ cause.message
  | .malformedSettings path => "Invalid config `" ++ path ++ "`"
  | .unreadableFile path cause => "Failed to read `" ++ path ++ "`: " ++ cause.message
  | .lexer errors =>
    "Invalid lexer definition:\n  " ++ "\n  ".intercalate (errors.map (·.message))
  | .grammar (.invalid errors) =>
    DefinitionError.summary errors ++ "\n" ++ "\n".intercalate (errors.map grammarErrorLine)
  | .grammar .endlessLookahead => "Endless lookahead"
  | .parse problem => problem

end Failure

variable {m : Type → Type} [Monad m] (host : Host m)

def report (source : Source) (found : List Diagnostic) : m Unit :=
  found.forM fun d => host.err (d.line source.path source.text)

def phase (o : Options) (source : Source) (name : String) : Phase :=
  { name
    bytes := Text.byteLength source.text.toList
    iterations := max o.iterations 1
    isReported := o.showTimes }

/-- Shows the grammar, runs lexer and parser and shows their results. The result tells whether the
text is free of errors. -/
def analyse {α : Type} [Inhabited α] (o : Options) (source : Source) (l : Language α)
    (g : Grammar α) : m (Except Failure Bool) := do
  if o.showRules then host.out (g.displayRules ++ "\n")
  if o.showLookahead then host.out (g.displayDecisions ++ "\n")
  let lexed ← host.phase (phase o source "lex") fun _ => l.lexer.tokenize source.text
  let lexical := lexed.errors.map Diagnostic.ofLexical
  if o.errors = .eager then report host source lexical
  if o.showTokens then
    host.out ((Json.array (lexed.tokens.map Token.toJson)).pretty ++ "\n")
  match ← host.phase (phase o source "parse") fun _ => g.parse l.start lexed.tokens with
  | .parsed output =>
    let found := output.errors.map (Diagnostic.ofRecognition g.vocabulary)
    match o.errors with
    | .atEnd => report host source (lexical ++ found)
    | .eager => report host source found
    | .off => pure ()
    if o.showTree then output.tree.forM fun n => host.out (n.toJson.pretty ++ "\n")
    if o.showValue then host.out (l.display output.value ++ "\n")
    return .ok (lexed.errors.isEmpty && output.errors.isEmpty)
  | failed => return .error (.parse (failed.problem?.getD ""))

def analyseIn {α : Type} [Inhabited α] (o : Options) (settings : Settings) (source : Source)
    (language : LexerConfig → Except (List LexerDefinitionError) (Language α)) :
    m (Except Failure Bool) :=
  match language settings.lexer with
  | .error errors => return .error (.lexer errors)
  | .ok l =>
    match l.compile settings.parser with
    | .error cause => return .error (.grammar cause)
    | .ok g => analyse host o source l g

def readSettings : Option String → m (Except Failure Settings)
  | none => return .ok {}
  | some path => do
    match ← host.read path with
    | .error cause => return .error (.unreadableSettings path cause)
    | .ok source =>
      match Settings.read? source.text with
      | some settings => return .ok settings
      | none => return .error (.malformedSettings path)

def session [RegexLibrary] (args : List String) : m (Except Failure Bool) := do
  match Options.read args with
  | .error cause => return .error (.usage cause)
  | .ok o =>
    match ← readSettings host o.config with
    | .error failure => return .error failure
    | .ok settings =>
      match ← host.read o.file with
      | .error cause => return .error (.unreadableFile o.file cause)
      | .ok source =>
        match o.language with
        | .json => analyseIn host o settings source JsonText.language
        | .arithmetic => analyseIn host o settings source Arithmetic.language

/-- Runs a session. The exit code tells a text without errors, one with errors, and a failure
apart. -/
def run [RegexLibrary] (args : List String) : m UInt32 := do
  match ← session host args with
  | .ok true => return 0
  | .ok false => return 1
  | .error failure =>
    host.err (failure.message ++ "\n")
    return 2

end PredictiveParsing.CommandLine
