import FlatApi.Yaml.Malformed

/-!
# Reading positions in a YAML text

The character classes that the token rules speak of, and a cursor: the characters still to be
read together with the line, the column and the count of octets passed.  A line break is one
step, however it is written; `Cursor.lineBreak?` gives the character that stands for it.
-/

namespace FlatApi.Yaml

/-- Characters that a text may hold at all. -/
def isAllowed (c : Char) : Bool :=
  let n := c.toNat
  n == 0x09 || n == 0x0A || n == 0x0D || (0x20 ≤ n && n ≤ 0x7E) || n == 0x85
    || (0xA0 ≤ n && n ≤ 0xD7FF) || (0xE000 ≤ n && n ≤ 0xFFFD) || 0x10000 ≤ n

/-- Line feed, carriage return, next line, line separator and paragraph separator. -/
def isBreak (c : Char) : Bool :=
  c == '\n' || c == '\r' || c == '\u0085' || c == '\u2028' || c == '\u2029'

def isBlank (c : Char) : Bool := c == ' ' || c == '\t'

def isBlankOrBreak (c : Char) : Bool := isBlank c || isBreak c

/-- Letters of anchors, tag handles and directive names. -/
def isWordChar (c : Char) : Bool := c.isAlphanum || c == '_' || c == '-'

/-- The text ends here, or a blank or a break follows. -/
def endsWord : List Char → Bool
  | [] => true
  | c :: _ => isBlankOrBreak c

/-- Three dashes, or three full stops, that stand as a word of their own. -/
def isDocumentMark (mark : Char) : List Char → Bool
  | a :: b :: c :: rest => a == mark && b == mark && c == mark && endsWord rest
  | _ => false

/-- A place in the text. -/
structure Cursor where
  rest : List Char
  /-- The number of octets passed. -/
  index : Nat := 0
  line : Nat := 0
  column : Nat := 0

/-- The octets that characters are written with. -/
def octetCount (s : List Char) : Nat := s.foldr (fun c n => c.utf8Size + n) 0

namespace Cursor

/-- One document mark at the start of a line. -/
def atDocumentMark (c : Cursor) : Bool :=
  c.column == 0 && (isDocumentMark '-' c.rest || isDocumentMark '.' c.rest)

/-- The place `n` characters on, in the same line, with `rest` still to come. -/
def within (c : Cursor) (n : Nat) (rest : List Char) : Cursor :=
  { rest
    index := c.index + octetCount (c.rest.take n)
    line := c.line
    column := c.column + n }

/-- The start of the next line, `n` characters on. -/
def below (c : Cursor) (n : Nat) (rest : List Char) : Cursor :=
  { rest, index := c.index + octetCount (c.rest.take n), line := c.line + 1, column := 0 }

/-- One character on. -/
def next (c : Cursor) : Cursor := c.within 1 (c.rest.drop 1)

/-- At most `n` characters on. -/
def skip (c : Cursor) (n : Nat) : Cursor := c.within (c.rest.take n).length (c.rest.drop n)

/-- The longest run of characters with `p`, none of which is a break, and the place after it. -/
def span (c : Cursor) (p : Char → Bool) : List Char × Cursor :=
  let run := c.rest.takeWhile p
  (run, c.within run.length (c.rest.drop run.length))

def skipWhile (c : Cursor) (p : Char → Bool) : Cursor := (c.span p).2

/-- The line break here, if there is one: the character it contributes to a text, and the start
of the next line.  The separators of Unicode stay what they are, all other breaks count as a
line feed. -/
def lineBreak? (c : Cursor) : Option (Char × Cursor) :=
  match c.rest with
  | '\r' :: '\n' :: r => some ('\n', c.below 2 r)
  | b :: r =>
    if b == '\n' || b == '\r' || b == '\u0085' then some ('\n', c.below 1 r)
    else if b == '\u2028' || b == '\u2029' then some (b, c.below 1 r)
    else none
  | [] => none

/-- A line break takes at least one character. -/
theorem lineBreak?_shorter {c d : Cursor} {b : Char} (h : c.lineBreak? = some (b, d)) :
    d.rest.length < c.rest.length := by
  unfold lineBreak? at h
  split at h
  · next r hr => cases h; simp only [below, hr, List.length_cons]; omega
  · next b' r _ hr =>
    split at h
    · cases h; simp only [below, hr, List.length_cons]; omega
    · split at h
      · cases h; simp only [below, hr, List.length_cons]; omega
      · cases h
  · cases h

end Cursor

end FlatApi.Yaml
