/-!
# Symbols

An external symbol is written in ASCII letters, digits and underscores.  `sanitize` turns any name
into one: a pair of colons becomes one underscore, and so does each other character that a symbol
cannot hold.
-/

namespace FlatApi.Symbol

/-- A character that a symbol may hold. -/
def isSymbolChar (c : Char) : Bool := c.isAlphanum || c == '_'

def sanitizeChars : List Char → List Char
  | ':' :: ':' :: r => '_' :: sanitizeChars r
  | c :: r => (if isSymbolChar c then c else '_') :: sanitizeChars r
  | [] => []

def sanitize (name : String) : String := String.ofList (sanitizeChars name.toList)

end FlatApi.Symbol
