import FlatApi.Text.Space

/-!
# Spellings of native types

Two spellings of a type mean the same if they differ only in white space that separates nothing:
`const  char *` is `const char*`.
-/

namespace FlatApi.Spelling

/-- The text without the blanks that stand right before a mark. -/
def dropSpaceBefore (mark : Char) : List Char → List Char
  | ' ' :: c :: r =>
    if c = mark then c :: dropSpaceBefore mark r else ' ' :: dropSpaceBefore mark (c :: r)
  | c :: r => c :: dropSpaceBefore mark r
  | [] => []

/-- Words are separated by one blank, and stars and ampersands follow the word before them. -/
def normalizeChars (s : List Char) : List Char :=
  dropSpaceBefore '&' (dropSpaceBefore '*' ([' '].intercalate (Text.words s)))

def normalize (s : String) : String := String.ofList (normalizeChars s.toList)

/-- The type of functions that return nothing. -/
def isVoid (s : String) : Bool := normalize s == "void"

end FlatApi.Spelling
