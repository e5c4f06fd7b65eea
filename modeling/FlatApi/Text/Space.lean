/-!
# White space

The blanks of Unicode, and the words between them.
-/

namespace FlatApi.Text

/-- A character with the property `White_Space`. -/
def isSpace (c : Char) : Bool :=
  let n := c.toNat
  (0x09 ≤ n && n ≤ 0x0D) || n == 0x20 || n == 0x85 || n == 0xA0 || n == 0x1680
    || (0x2000 ≤ n && n ≤ 0x200A) || n == 0x2028 || n == 0x2029 || n == 0x202F || n == 0x205F
    || n == 0x3000

/-- The longest runs of characters that are no white space. -/
def words : List Char → List (List Char)
  | [] => []
  | c :: r =>
    if isSpace c then words r
    else match r with
      | [] => [[c]]
      | d :: _ =>
        if isSpace d then [c] :: words r
        else match words r with
          | [] => [[c]]
          | w :: ws => (c :: w) :: ws

end FlatApi.Text
