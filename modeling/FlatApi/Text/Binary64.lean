/-!
# Decimal and binary fractions

A finite number of the 64-bit binary format is `m * 2 ^ q` with `m < 2 ^ 53` and
`-1074 ≤ q ≤ 971`.  `nearest?` finds the number nearest to a decimal, and `shortest` the shortest
decimal to which a number is nearest.  Both are exact: they compare integers only.
-/

namespace FlatApi.Text

/-- A value of the 64-bit binary format. -/
inductive Binary64 where
  | nan
  | infinite (negative : Bool)
  /-- The value `m * 2 ^ q`, or its negative. -/
  | finite (negative : Bool) (m : Nat) (q : Int)
  deriving DecidableEq

namespace Binary64

/-- The integer nearest to a quotient, of two the even one. -/
def roundQuotient (num den : Nat) : Nat :=
  let t := num / den
  let r := num % den
  if 2 * r < den then t else if den < 2 * r then t + 1 else t + t % 2

/-- `num / den * b ^ e` as a quotient. -/
def scale (b : Nat) (num den : Nat) (e : Int) : Nat × Nat :=
  if 0 ≤ e then (num * b.pow e.toNat, den) else (num, den * b.pow (-e).toNat)

/-- The finite value nearest to a positive quotient; none if the quotient is too large. -/
def nearestQuotient? (num den : Nat) : Option (Nat × Int) :=
  let guess : Int := max ((num.log2 : Int) - den.log2 - 53) (-1074)
  let (n, d) := scale 2 num den (-guess)
  let q := if n / d < Nat.pow 2 53 then guess else guess + 1
  let (n, d) := scale 2 num den (-q)
  let m := roundQuotient n d
  let (m, q) := if m = Nat.pow 2 53 then (Nat.pow 2 52, q + 1) else (m, q)
  if q ≤ 971 then some (m, q) else none

/-- The finite value nearest to `digits * 10 ^ e`, whose number of digits is `width`; none if the
decimal is too large. -/
def nearest? (negative : Bool) (digits : Nat) (width : Nat) (e : Int) : Option Binary64 :=
  if digits = 0 || e + width < -330 then some (finite negative 0 (-1074))
  else if 310 < e + width then none
  else
    let (num, den) := scale 10 digits 1 e
    (nearestQuotient? num den).map fun (m, q) => finite negative m q

/-! ## The shortest decimal -/

/-- The shortest decimal `c * 10 ^ k` nearest to `m * 2 ^ q`, from the grid `10 ^ k` on to finer
ones, `steps` at most.

In units of `2 ^ (q - 2)` the value is `4 * m`, and the decimals that are nearest to it lie
between `low` and `high`; the ends count if `m` is even. -/
def shortestFrom (m : Nat) (q : Int) (k : Int) : Nat → Nat × Int
  | 0 => (m, q)
  | steps + 1 =>
    let value := 4 * m
    let low := if m = Nat.pow 2 52 && -1074 < q then value - 1 else value - 2
    let high := value + 2
    -- one unit is `unit / step` of the grid
    let (unit, step) := scale 10 (scale 2 1 1 (q - 2)).1 (scale 2 1 1 (q - 2)).2 (-k)
    let inside (c : Nat) : Bool :=
      let x := c * step
      if m % 2 = 0 then low * unit ≤ x && x ≤ high * unit else low * unit < x && x < high * unit
    let c := value * unit / step
    let rest := value * unit - c * step
    match inside c, inside (c + 1) with
    | true, true => (if 2 * rest < step then c else c + 1, k)
    | true, false => (c, k)
    | false, true => (c + 1, k)
    | false, false => shortestFrom m q (k - 1) steps

/-- The shortest decimal `c * 10 ^ k` nearest to `m * 2 ^ q`, which is not zero.  Seventeen digits
are always enough. -/
def shortest (m : Nat) (q : Int) : Nat × Int :=
  let top : Int := ((m.log2 : Int) + q) * 30103 / 100000 + 2
  shortestFrom m q top 22

/-- The decimal `c * 10 ^ k` with a point and no exponent. -/
def positional (c : Nat) (k : Int) : String :=
  let digits := Nat.toDigits 10 c
  if 0 ≤ k then String.ofList (digits ++ List.replicate k.toNat '0') ++ ".0"
  else
    let places := (-k).toNat
    let digits := List.replicate (places + 1 - digits.length) '0' ++ digits
    let whole := digits.length - places
    String.ofList (digits.take whole ++ '.' :: digits.drop whole)

/-- The text of a value: the shortest decimal, with at least one place after the point. -/
def text : Binary64 → String
  | nan => "NaN"
  | infinite negative => if negative then "-inf" else "inf"
  | finite negative m q =>
    let sign := if negative then "-" else ""
    if m = 0 then sign ++ "0.0"
    else
      let (c, k) := shortest m q
      sign ++ positional c k

end Binary64

end FlatApi.Text
