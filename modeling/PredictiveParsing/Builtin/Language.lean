import PredictiveParsing.Lexer.Run
import PredictiveParsing.Parse.Run

/-!
# Languages

A language is a lexer, the rules of a grammar over its vocabulary, the rule to start from, and the
way its values are written.
-/

namespace PredictiveParsing

structure Language (α : Type) where
  lexer : Lexer
  rules : List (RuleBody α)
  start : String
  display : α → String

namespace Language

variable {α : Type}

def build [RegexLibrary] (types : List TokenType) (lexed : List TypeId) (config : LexerConfig)
    (rules : List (RuleBody α)) (start : String) (display : α → String) :
    Except (List LexerDefinitionError) (Language α) :=
  (Lexer.build (.ofTypes types) (.single lexed) config).map fun lexer => ⟨lexer, rules, start, display⟩

def compile (l : Language α) (config : ParserConfig) : Except CompileError (Grammar α) :=
  Grammar.compile l.lexer.vocabulary l.rules config

end Language

end PredictiveParsing
