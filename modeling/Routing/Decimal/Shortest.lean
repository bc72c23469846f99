/-!
# The shortest decimal that reads back

A finite positive binary fraction is `m · 2 ^ q`. The reals that round to it lie between the
midpoints to its two neighbours. `shortest` finds the least number of digits with which a decimal
lies in that interval, and of the decimals with that many digits the one nearest to the value.
-/

namespace Routing.Decimal

/-- The decimal `0.d₁d₂…dₙ · 10 ^ point`, by its digits as one number. -/
structure Digits where
  digits : Nat
  point : Int
  deriving DecidableEq, Repr

/-- A positive binary fraction and the interval that rounds to it, all in units of
`2 ^ exponent`. -/
structure Rounded where
  value : Nat
  low : Nat
  high : Nat
  exponent : Int
  closed : Bool

/-- The interval of `m · 2 ^ q`; `narrow` says that the neighbour below is at half the distance. -/
def Rounded.of (m : Nat) (q : Int) (narrow : Bool) : Rounded :=
  ⟨4 * m, if narrow then 4 * m - 1 else 4 * m - 2, 4 * m + 2, q - 2, m % 2 == 0⟩

/-- The fraction `num / den` of `n` units of `2 ^ e` counted in units of `10 ^ t`. -/
def inGrid (n : Nat) (e t : Int) : Nat × Nat :=
  (n * Nat.pow 2 e.toNat * Nat.pow 10 (-t).toNat, Nat.pow 2 (-e).toNat * Nat.pow 10 t.toNat)

/-- The number of decimal digits of the whole part of `num / den`, which may be zero or negative:
the least `p` with `num / den < 10 ^ p`. The search starts at a lower bound. -/
def pointOf (num den : Nat) (start : Int) : Nat → Int
  | 0 => start
  | fuel + 1 =>
    if num * Nat.pow 10 (-start).toNat < den * Nat.pow 10 start.toNat then start
    else pointOf num den (start + 1) fuel

/-- Whether `d` units of `10 ^ t` lie in the interval. -/
def Rounded.contains (r : Rounded) (t : Int) (d : Nat) : Bool :=
  let (lowNum, den) := inGrid r.low r.exponent t
  let (highNum, _) := inGrid r.high r.exponent t
  if r.closed then lowNum ≤ d * den && d * den ≤ highNum
  else lowNum < d * den && d * den < highNum

/-- The decimal in the grid of `10 ^ t` nearest to the value, if one lies in the interval; of two
equally near ones the greater. -/
def Rounded.nearest? (r : Rounded) (t : Int) : Option Nat :=
  let (num, den) := inGrid r.value r.exponent t
  let below := num / den
  let above := below + 1
  match r.contains t below && below != 0, r.contains t above with
  | true, true => some (if 2 * (num % den) < den then below else above)
  | true, false => some below
  | false, true => some above
  | false, false => none

/-- Drops the zeros at the end of a number. -/
def dropZeros : Nat → Nat → Nat
  | 0, d => d
  | fuel + 1, d => if d % 10 = 0 && d != 0 then dropZeros fuel (d / 10) else d

/-- Tries the grids with more and more digits. -/
def Rounded.search (r : Rounded) (point : Int) (count : Nat) : Nat → Digits
  | 0 => ⟨0, point⟩
  | fuel + 1 =>
    match r.nearest? (point - count) with
    | some d => ⟨dropZeros 20 d, if d = Nat.pow 10 count then point + 1 else point⟩
    | none => r.search point (count + 1) fuel

/-- The shortest decimal that reads back as `m · 2 ^ q`. -/
def shortest (m : Nat) (q : Int) (narrow : Bool) : Digits :=
  let r := Rounded.of m q narrow
  let (num, den) := inGrid r.value r.exponent 0
  let bits : Int := (Nat.log2 m : Int) + q
  let start := bits * 30103 / 100000 - 1
  r.search (pointOf num den start 6) 1 18

end Routing.Decimal
