import PredictiveParsing.Builtin.Language
import PredictiveParsing.Decimal.Reading
import PredictiveParsing.Decimal.Shortest

/-!
# The language of arithmetic expressions

A calculator: sums of products of numbers, parenthesised expressions and powers, computed while they
are parsed.
-/

namespace PredictiveParsing.Arithmetic

def types : List TokenType :=
  [ (TokenType.regex "WhiteSpace" "\\s+").skip,
    .category "AdditionOperator",
    .category "MultiplicationOperator",
    (TokenType.literal "Plus" "+").inCategory 2,
    (TokenType.literal "Minus" "-").inCategory 2,
    (TokenType.literal "Multi" "*").inCategory 3,
    (TokenType.literal "Div" "/").inCategory 3,
    .literal "LParen" "(",
    .literal "RParen" ")",
    .regex "NumberLiteral" "\\d+(?:\\.\\d+)?",
    .literal "PowerFunc" "power",
    .literal "Comma" "," ]

def whiteSpace : TypeId := 1

def additive : TypeId := 2

def multiplicative : TypeId := 3

def plus : TypeId := 4

def minus : TypeId := 5

def multi : TypeId := 6

def div : TypeId := 7

def lparen : TypeId := 8

def rparen : TypeId := 9

def number : TypeId := 10

def power : TypeId := 11

def comma : TypeId := 12

/-- A value, and the operator or base that waits for its right operand. -/
structure Calculation where
  value : Float
  operator : TypeId
  base : Float

instance : Inhabited Calculation := ⟨⟨0.0, Vocabulary.eof, 0.0⟩⟩

/-- The value of a number as it is written. What is no plain decimal counts as zero. -/
def numberValue (image : String) : Float := (Decimal.read? image).getD 0.0

def takeValue (operand c : Calculation) : Calculation := { c with value := operand.value }

def takeOperator (t : Token) (c : Calculation) : Calculation := { c with operator := t.kind }

def addOperand (operand c : Calculation) : Calculation :=
  { c with value :=
    if c.operator = plus then c.value + operand.value else c.value - operand.value }

def multiplyOperand (operand c : Calculation) : Calculation :=
  { c with value :=
    if c.operator = multi then c.value * operand.value else c.value / operand.value }

def operands (rule : String) (operator : TypeId) (apply : Calculation → Calculation → Calculation) :
    List (Op Calculation) :=
  [ .subrule 0 rule none takeValue,
    .repetition false none 0
      [.consume 0 operator none takeOperator, .subrule 1 rule none apply] id ]

def rules : List (RuleBody Calculation) :=
  [ ⟨"expression", [.subrule 0 "additionExpression" none takeValue]⟩,
    ⟨"additionExpression", operands "multiplicationExpression" additive addOperand⟩,
    ⟨"multiplicationExpression", operands "atomicExpression" multiplicative multiplyOperand⟩,
    ⟨"atomicExpression",
      [.choice 0
        [ .plain [.subrule 0 "parenthesisExpression" none takeValue],
          .plain [.consume 0 number none fun t c => { c with value := numberValue t.image }],
          .plain [.subrule 0 "powerFunction" none takeValue] ]
        takeValue]⟩,
    ⟨"parenthesisExpression",
      [.token lparen, .subrule 0 "expression" none takeValue, .token rparen]⟩,
    ⟨"powerFunction",
      [ .token power, .token lparen,
        .subrule 0 "expression" none fun operand c => { c with base := operand.value },
        .token comma,
        .subrule 1 "expression" none fun operand c =>
          { c with value := Float.pow c.base operand.value },
        .token rparen ]⟩ ]

def lexed : List TypeId :=
  [whiteSpace, plus, minus, multi, div, lparen, rparen, number, power, comma]

def language [RegexLibrary] (config : LexerConfig) :
    Except (List LexerDefinitionError) (Language Calculation) :=
  Language.build types lexed config rules "expression" fun c => Decimal.write Decimal.plain c.value

end PredictiveParsing.Arithmetic
