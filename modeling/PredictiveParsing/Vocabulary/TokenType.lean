/-!
# Token types

What a vocabulary is told about a type of token: how its text is found, where its tokens go, and
how it relates to other types.
-/

namespace PredictiveParsing

/-- Token types are numbered in the order of their definition. -/
abbrev TypeId := Nat

/-- A matcher gets the whole text and a byte offset into it, and answers a length in bytes. -/
structure CustomPattern where
  matchAt : List Char → Nat → Option Nat
  /-- Characters a match can start with, if they are known. -/
  startChars : Option (List Char)

inductive Pattern where
  | literal (text : String)
  | regex (source : String)
  | custom (pattern : CustomPattern)
  /-- No text matches a category by itself. -/
  | category

inductive Group where
  | default
  | skip
  | named (name : String)
deriving DecidableEq, Repr

structure TokenType where
  name : String
  pattern : Pattern
  group : Group
  categories : List TypeId
  /-- Types preferred over this one where they match a longer text. -/
  longer : List TypeId
  pushMode : Option String
  popMode : Bool
  /-- Whether tokens can contain line breaks; computed from the pattern if not stated. -/
  lineBreaks : Option Bool

namespace TokenType

def new (name : String) (pattern : Pattern) : TokenType :=
  { name, pattern, group := .default, categories := [], longer := [], pushMode := none,
    popMode := false, lineBreaks := none }

def literal (name text : String) : TokenType := new name (.literal text)

def regex (name source : String) : TokenType := new name (.regex source)

def category (name : String) : TokenType := new name .category

def isCategory (t : TokenType) : Bool :=
  match t.pattern with
  | .category => true
  | _ => false

def skip (t : TokenType) : TokenType := { t with group := .skip }

def inCategory (t : TokenType) (c : TypeId) : TokenType :=
  { t with categories := t.categories ++ [c] }

end TokenType

end PredictiveParsing
