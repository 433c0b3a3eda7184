import PredictiveParsing.Vocabulary.TokenType

/-!
# Vocabularies

A vocabulary numbers token types in the order in which they are defined. A type can name earlier
types as its categories, and then matches wherever one of them, or one of theirs, is expected.
-/

namespace PredictiveParsing

structure Vocabulary.Entry where
  type : TokenType
  matching : List TypeId
  /-- Whether the definition named an id that was not registered. -/
  dangling : Bool

structure Vocabulary where
  entries : Array Vocabulary.Entry

namespace Vocabulary

def size (v : Vocabulary) : Nat := v.entries.size

def isRegistered (v : Vocabulary) (id : TypeId) : Bool := id < v.size

def type? (v : Vocabulary) (id : TypeId) : Option TokenType := v.entries[id]?.map (·.type)

def name (v : Vocabulary) (id : TypeId) : String := ((v.type? id).map (·.name)).getD ""

def matching (v : Vocabulary) (id : TypeId) : List TypeId := (v.entries[id]?.map (·.matching)).getD []

/-- Whether a token of type `actual` will do where `expected` is expected. -/
def isMatch (v : Vocabulary) (actual expected : TypeId) : Bool :=
  actual == expected || (v.matching actual).contains expected

def ids (v : Vocabulary) : List TypeId := List.range v.size

/-- The other types that match the given one, in ascending order. -/
def subtypes (v : Vocabulary) (category : TypeId) : List TypeId :=
  v.ids.filter fun id => id != category && (v.matching id).contains category

def members (v : Vocabulary) (category : TypeId) : List TypeId := category :: v.subtypes category

def lookup? (v : Vocabulary) (name : String) : Option TypeId :=
  v.entries.findIdx? fun e => e.type.name == name

/-- Registers a type under the next id. References to ids not yet registered are dropped. -/
def define (v : Vocabulary) (type : TokenType) : Vocabulary :=
  let categories := type.categories.filter v.isRegistered
  let longer := type.longer.filter v.isRegistered
  let inherited := v.ids.filter fun id => categories.any fun c => (v.matching c).contains id
  { entries := v.entries.push
      { type := { type with categories, longer }
        matching := inherited ++ [v.size]
        dangling :=
          categories.length + longer.length != type.categories.length + type.longer.length } }

def eof : TypeId := 0

def empty : Vocabulary := define ⟨#[]⟩ (.category "EOF")

def ofTypes (types : List TokenType) : Vocabulary := types.foldl define empty

def duplicates (v : Vocabulary) : List TypeId :=
  v.ids.filter fun id => v.lookup? (v.name id) != some id

/-- Types that were defined with a reference to an unregistered type. -/
def dangling (v : Vocabulary) : List TypeId :=
  v.ids.filter fun id => (v.entries[id]?.map (·.dangling)).getD false

end Vocabulary

end PredictiveParsing
