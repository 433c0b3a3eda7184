import PredictiveParsing.Builtin.Language

/-!
# The language of JSON texts
-/

namespace PredictiveParsing.JsonText

def types : List TokenType :=
  [ (TokenType.regex "WhiteSpace" "[ \\t\\n\\r]+").skip,
    .regex "StringLiteral" "\"(?:[^\\\\\"]|\\\\(?:[bfnrtv\"\\\\/]|u[0-9a-fA-F]\x7b4\x7d))*\"",
    .regex "NumberLiteral" "-?(?:0|[1-9]\\d*)(?:\\.\\d+)?(?:[eE][+-]?\\d+)?",
    .literal "LCurly" "\x7b",
    .literal "RCurly" "\x7d",
    .literal "LSquare" "[",
    .literal "RSquare" "]",
    .literal "Comma" ",",
    .literal "Colon" ":",
    .literal "True" "true",
    .literal "False" "false",
    .literal "Null" "null" ]

def string : TypeId := 2

def number : TypeId := 3

def lcurly : TypeId := 4

def rcurly : TypeId := 5

def lsquare : TypeId := 6

def rsquare : TypeId := 7

def comma : TypeId := 8

def colon : TypeId := 9

def trueWord : TypeId := 10

def falseWord : TypeId := 11

def nullWord : TypeId := 12

def oneOf (bodies : List (List (Op Unit))) : Op Unit :=
  .choice 0 (bodies.map Branch.plain) fun _ a => a

def rules : List (RuleBody Unit) :=
  [ ⟨"json", [oneOf [[.enter "object"], [.enter "array"]]]⟩,
    ⟨"object",
      [.token lcurly, .manySeparated comma [.enter "objectItem"], .token rcurly]⟩,
    ⟨"objectItem", [.token string, .token colon, .enter "value"]⟩,
    ⟨"array", [.token lsquare, .manySeparated comma [.enter "value"], .token rsquare]⟩,
    ⟨"value",
      [oneOf [[.token string], [.token number], [.enter "object"], [.enter "array"],
        [.token trueWord], [.token falseWord], [.token nullWord]]]⟩ ]

def language [RegexLibrary] (config : LexerConfig) : Except (List LexerDefinitionError) (Language Unit) :=
  Language.build types ((List.range 12).map (· + 1)) config rules "json" fun _ => "()"

end PredictiveParsing.JsonText
