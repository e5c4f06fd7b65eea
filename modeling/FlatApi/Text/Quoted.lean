import FlatApi.Text.Printable

/-!
# Text in double quotes

How a diagnostic shows a string found in the input: quotes and backslashes are escaped, common
controls have a letter, and what cannot be shown stands as its number.
-/

namespace FlatApi.Text

/-- One character between quotes. -/
def quotedChar (c : Char) : List Char :=
  match c with
  | '\x00' => ['\\', '0']
  | '\t' => ['\\', 't']
  | '\r' => ['\\', 'r']
  | '\n' => ['\\', 'n']
  | '"' => ['\\', '"']
  | '\\' => ['\\', '\\']
  | c =>
    if isPrintable c then [c]
    else ['\\', 'u', '{'] ++ Nat.toDigits 16 c.toNat ++ ['}']

/-- The text with its quotes. -/
def quoted (s : String) : String :=
  String.ofList ('"' :: s.toList.flatMap quotedChar ++ ['"'])

end FlatApi.Text
