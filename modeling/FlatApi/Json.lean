/-!
# Writing JSON

Texts, lists and records, one item a line, each level two blanks further in.
-/

namespace FlatApi

inductive Json where
  | text (s : String)
  | list (items : List Json)
  | record (fields : List (String × Json))

namespace Json

/-- One hexadecimal digit, in lower case. -/
def hexDigit (n : Nat) : Char := if n < 10 then Char.ofNat (48 + n) else Char.ofNat (87 + n)

/-- One character between quotes. -/
def escape (c : Char) : List Char :=
  match c with
  | '"' => ['\\', '"']
  | '\\' => ['\\', '\\']
  | '\x08' => ['\\', 'b']
  | '\t' => ['\\', 't']
  | '\n' => ['\\', 'n']
  | '\x0c' => ['\\', 'f']
  | '\r' => ['\\', 'r']
  | c =>
    if c.toNat < 0x20 then
      ['\\', 'u', '0', '0', hexDigit (c.toNat / 16), hexDigit (c.toNat % 16)]
    else [c]

def quote (s : String) : List Char := '"' :: s.toList.flatMap escape ++ ['"']

/-- The end of a line, and the blanks of the next one. -/
def newline (level : Nat) : List Char := '\n' :: List.replicate (2 * level) ' '

mutual

/-- The text of a value that stands `level` levels deep. -/
def chars (level : Nat) : Json → List Char
  | .text s => quote s
  | .list [] => ['[', ']']
  | .list (x :: xs) =>
    '[' :: newline (level + 1) ++ chars (level + 1) x ++ itemChars (level + 1) xs
      ++ newline level ++ [']']
  | .record [] => ['{', '}']
  | .record ((k, x) :: xs) =>
    '{' :: newline (level + 1) ++ quote k ++ [':', ' '] ++ chars (level + 1) x
      ++ fieldChars (level + 1) xs ++ newline level ++ ['}']

/-- The items behind the first one. -/
def itemChars (level : Nat) : List Json → List Char
  | [] => []
  | x :: xs => ',' :: newline level ++ chars level x ++ itemChars level xs

/-- The fields behind the first one. -/
def fieldChars (level : Nat) : List (String × Json) → List Char
  | [] => []
  | (k, x) :: xs =>
    ',' :: newline level ++ quote k ++ [':', ' '] ++ chars level x ++ fieldChars level xs

end

def write (j : Json) : String := String.ofList (chars 0 j)

end Json

end FlatApi
