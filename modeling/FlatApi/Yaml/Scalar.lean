import FlatApi.Text.Binary64
import FlatApi.Yaml.Token

/-!
# What a scalar stands for

A plain scalar is read as the first of these that fits: nothing, a truth value, an integer, a
number with a fraction or an exponent, a string.  Integers are told apart by size, because a field
that looks for a number of an item accepts only those of 64 bits without a sign.
-/

namespace FlatApi.Yaml

open FlatApi.Text (Binary64)

/-- The value of a scalar. -/
inductive Scalar where
  | null
  | bool (b : Bool)
  /-- Below `2 ^ 64`, without a minus sign. -/
  | natural (n : Nat)
  /-- From `-2 ^ 63` on, with a minus sign. -/
  | negative (n : Int)
  /-- An integer that needs more than 64 bits. -/
  | wide (n : Int)
  | float (x : Binary64)
  | string (s : String)
  deriving DecidableEq

namespace Scalar

/-! ## Words -/

def isNullWord (s : String) : Bool := s == "null" || s == "Null" || s == "NULL" || s == "~"

def boolWord? (s : String) : Option Bool :=
  if s == "true" || s == "True" || s == "TRUE" then some true
  else if s == "false" || s == "False" || s == "FALSE" then some false
  else none

/-! ## Integers -/

def digit? (radix : Nat) (c : Char) : Option Nat :=
  let d :=
    if c.isDigit then c.toNat - '0'.toNat
    else if 'a' ≤ c && c ≤ 'z' then c.toNat - 'a'.toNat + 10
    else if 'A' ≤ c && c ≤ 'Z' then c.toNat - 'A'.toNat + 10
    else 36
  if d < radix then some d else none

/-- The number that a row of digits writes.  There is at least one digit. -/
def digits? (radix : Nat) : List Char → Option Nat
  | [] => none
  | cs => do return (← cs.mapM (digit? radix)).foldl (fun n d => radix * n + d) 0

/-- A row of several digits that begins with a zero is no number. -/
def isZeroPadded (s : List Char) : Bool :=
  let body := match s with
    | '+' :: r | '-' :: r => r
    | s => s
  match body with
  | '0' :: d :: r => (d :: r).all Char.isDigit
  | _ => false

/-- An integer without its sign: a letter behind a leading zero sets the radix. -/
def magnitude? (s : List Char) : Option Nat :=
  match s with
  | '0' :: 'x' :: r => digits? 16 r
  | '0' :: 'o' :: r => digits? 8 r
  | '0' :: 'b' :: r => digits? 2 r
  | s => if isZeroPadded s then none else digits? 10 s

def unsigned? (s : List Char) : Option Nat :=
  match s with
  | '+' :: r => magnitude? r
  | s => magnitude? s

def signed? (s : List Char) : Option Nat :=
  match s with
  | '-' :: r => magnitude? r
  | _ => none

/-- The integer that a text writes, if it needs at most 128 bits. -/
def integer? (s : List Char) : Option Scalar :=
  match unsigned? s, signed? s with
  | some n, _ =>
    if n < Nat.pow 2 64 then some (.natural n)
    else if n < Nat.pow 2 128 then some (.wide n)
    else none
  | none, some n =>
    if n ≤ Nat.pow 2 63 then some (.negative (-n))
    else if n ≤ Nat.pow 2 127 then some (.wide (-n))
    else none
  | none, none => none

/-! ## Fractions -/

/-- The digits at the front, and the rest. -/
def spanDigits (s : List Char) : List Char × List Char := s.span Char.isDigit

/-- The exponent of a decimal: nothing, or the letter, a sign and digits. -/
def exponent? : List Char → Option Int
  | [] => some 0
  | e :: r =>
    if e != 'e' && e != 'E' then none
    else match r with
      | '-' :: ds => (digits? 10 ds).map fun n => -(n : Int)
      | '+' :: ds => (digits? 10 ds).map Int.ofNat
      | ds => (digits? 10 ds).map Int.ofNat

/-- A decimal without its sign: digits with or without a point, and an exponent. -/
def decimal? (negative : Bool) (s : List Char) : Option Binary64 := do
  let (whole, r) := spanDigits s
  let (part, r) := match r with
    | '.' :: r => spanDigits r
    | r => ([], r)
  let all := whole ++ part
  let n ← digits? 10 all
  let e ← exponent? r
  Binary64.nearest? negative n (Nat.toDigits 10 n).length (e - part.length)

/-- The fraction, infinity or undefined value that a text writes.  A decimal too large for a
finite value is none. -/
def float? (s : List Char) : Option Binary64 :=
  let text := String.ofList s
  let unsigned := match s with
    | '+' :: r => if r.head? == some '+' || r.head? == some '-' then [] else r
    | s => s
  let word := String.ofList unsigned
  if word == ".inf" || word == ".Inf" || word == ".INF" then some (.infinite false)
  else if text == "-.inf" || text == "-.Inf" || text == "-.INF" then some (.infinite true)
  else if text == ".nan" || text == ".NaN" || text == ".NAN" then some .nan
  else match unsigned with
    | '-' :: r => decimal? true r
    | r => decimal? false r

/-! ## Plain and tagged scalars -/

/-- The value of a plain scalar without a tag. -/
def ofPlain (text : String) : Scalar :=
  let s := text.toList
  if text.isEmpty || isNullWord text then .null
  else match boolWord? text with
    | some b => .bool b
    | none => match integer? s with
      | some n => n
      | none => match (if isZeroPadded s then none else float? s) with
        | some x => .float x
        | none => .string text

/-- The value of a scalar.  A tag of the standard kinds of scalars makes the text be read as that
kind alone; if it is not of that kind, the answer is what was expected. -/
def resolve (tag : Option Tag) (text : String) (style : Style) : Except String Scalar :=
  match tag with
  | some .bool => match boolWord? text with
    | some b => .ok (.bool b)
    | none => .error "a boolean"
  | some .int => match integer? text.toList with
    | some n => .ok n
    | none => .error "an integer"
  | some .float => match float? text.toList with
    | some x => .ok (.float x)
    | none => .error "a float"
  | some .null =>
    if isNullWord text then .ok .null else .error "null"
  | tag =>
    if style == .plain && tag.all (·.isOwn) then .ok (ofPlain text)
    else .ok (.string text)

end Scalar

end FlatApi.Yaml
