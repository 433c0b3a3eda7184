/-!
# Options of the command line

The arguments name a language, settings, what is to be shown, and one file.
-/

namespace PredictiveParsing.CommandLine

inductive LanguageName where
  | json
  | arithmetic
deriving DecidableEq, Repr

inductive ErrorReporting where
  | atEnd
  | eager
  | off
deriving DecidableEq, Repr

inductive CountError where
  | empty
  | invalidDigit
  | tooLarge
deriving DecidableEq, Repr

namespace CountError

def message : CountError → String
  | .empty => "cannot parse integer from empty string"
  | .invalidDigit => "invalid digit found in string"
  | .tooLarge => "number too large to fit in target type"

end CountError

inductive UsageError where
  | missingArgument (option : String)
  | unknownLanguage (name : String)
  | unknownErrorReporting (name : String)
  | badIterations (cause : CountError)
  | noFile
  | severalFiles
deriving DecidableEq, Repr

namespace UsageError

def message : UsageError → String
  | .missingArgument option => "Expected argument to " ++ option
  | .unknownLanguage name => "Unknown grammar `" ++ name ++ "`, expected json or arith"
  | .unknownErrorReporting name => "Unexpected argument to --errors `" ++ name ++ "`"
  | .badIterations cause => "Expected a number of iterations: " ++ cause.message
  | .noFile => "No file provided"
  | .severalFiles => "Only one file may be provided"

end UsageError

def countBound : Nat := 1 <<< 32

def readDigits (n : Nat) : List Char → Except CountError Nat
  | [] => .ok n
  | c :: cs =>
    if !c.isDigit then .error .invalidDigit
    else
      let next := 10 * n + (c.toNat - '0'.toNat)
      if next < countBound then readDigits next cs else .error .tooLarge

def readCount (text : String) : Except CountError Nat :=
  match text.toList with
  | [] => .error .empty
  | '+' :: c :: cs => readDigits 0 (c :: cs)
  | cs => readDigits 0 cs

structure Options where
  language : LanguageName
  config : Option String
  showTokens : Bool
  showRules : Bool
  showLookahead : Bool
  showTree : Bool
  showValue : Bool
  errors : ErrorReporting
  showTimes : Bool
  iterations : Nat
  file : String
deriving DecidableEq, Repr

namespace Options

def initial : Options :=
  { language := .json, config := none, showTokens := false, showRules := false,
    showLookahead := false, showTree := false, showValue := false, errors := .atEnd,
    showTimes := false, iterations := 1, file := "" }

def switch? (o : Options) : String → Option Options
  | "--tokens" => some { o with showTokens := true }
  | "--gast" => some { o with showRules := true }
  | "--lookahead" => some { o with showLookahead := true }
  | "--cst" => some { o with showTree := true }
  | "--value" => some { o with showValue := true }
  | "--bench" => some { o with showTimes := true }
  | _ => none

def setting? (o : Options) (option : String) : Option (String → Except UsageError Options) :=
  match option with
  | "--grammar" => some fun value =>
    match value with
    | "json" => .ok { o with language := .json }
    | "arith" => .ok { o with language := .arithmetic }
    | other => .error (.unknownLanguage other)
  | "--config" => some fun value => .ok { o with config := some value }
  | "--errors" => some fun value =>
    match value with
    | "eager" => .ok { o with errors := .eager }
    | "off" => .ok { o with errors := .off }
    | other => .error (.unknownErrorReporting other)
  | "--iters" => some fun value =>
    match readCount value with
    | .ok n => .ok { o with iterations := n }
    | .error cause => .error (.badIterations cause)
  | _ => none

/-- Reads arguments from left to right. Whatever is no option is a file. -/
def readAll (o : Options) (files : List String) :
    List String → Except UsageError (Options × List String)
  | [] => .ok (o, files)
  | arg :: rest =>
    match o.setting? arg with
    | some set =>
      match rest with
      | [] => .error (.missingArgument arg)
      | value :: rest =>
        match set value with
        | .ok o => readAll o files rest
        | .error e => .error e
    | none =>
      match o.switch? arg with
      | some o => readAll o files rest
      | none => readAll o (files ++ [arg]) rest

def read (args : List String) : Except UsageError Options :=
  match readAll initial [] args with
  | .error e => .error e
  | .ok (_, []) => .error .noFile
  | .ok (o, [file]) => .ok { o with file }
  | .ok (_, _) => .error .severalFiles

end Options

end PredictiveParsing.CommandLine
