import Routing.Decimal.Shortest
/-!
# The text of a floating point number

A number is written with the fewest digits that read back, and always with a point or an exponent:
positional from `0.0001` up to below `10 ^ 16`, and with an exponent elsewhere.
-/

namespace Routing.Decimal

/-- A 64-bit floating point number taken apart. -/
inductive Parts where
  | nan
  | infinite (negative : Bool)
  | zero (negative : Bool)
  | finite (negative : Bool) (m : Nat) (q : Int) (narrow : Bool)

/-- The parts of the number with these 64 bits. -/
def Parts.ofBits (bits : Nat) : Parts :=
  let negative := bits / Nat.pow 2 63 == 1
  let exponent : Nat := bits / Nat.pow 2 52 % Nat.pow 2 11
  let fraction : Nat := bits % Nat.pow 2 52
  if exponent = 2047 then if fraction = 0 then .infinite negative else .nan
  else if exponent = 0 then
    if fraction = 0 then .zero negative else .finite negative fraction (-1074) false
  else
    .finite negative (Nat.pow 2 52 + fraction) ((exponent : Int) - 1075)
      (fraction == 0 && exponent != 1)

def zeros (n : Nat) : String :=
  String.ofList (List.replicate n '0')

/-- The decimal with a point between its digits. -/
def Digits.positional (d : Digits) : String :=
  let text := (toString d.digits).toList
  if d.point ≤ 0 then "0." ++ zeros (-d.point).toNat ++ String.ofList text
  else
    let n := d.point.toNat
    if text.length ≤ n then String.ofList text ++ zeros (n - text.length) ++ ".0"
    else String.ofList (text.take n) ++ "." ++ String.ofList (text.drop n)

/-- The decimal with one digit before the point and an exponent. -/
def Digits.scientific (d : Digits) : String :=
  let text := (toString d.digits).toList
  let rest := text.drop 1
  let fraction := if rest.isEmpty then "" else "." ++ String.ofList rest
  String.ofList (text.take 1) ++ fraction ++ "e" ++ toString (d.point - 1)

/-- The decimal as it is written without a sign. -/
def Digits.text (d : Digits) : String :=
  if -4 < d.point && d.point ≤ 16 then d.positional else d.scientific

def sign (negative : Bool) : String :=
  if negative then "-" else ""

/-- The text of a number by its parts. -/
def Parts.text : Parts → String
  | .nan => "NaN"
  | .infinite negative => sign negative ++ "inf"
  | .zero negative => sign negative ++ "0.0"
  | .finite negative m q narrow => sign negative ++ (shortest m q narrow).text

def text (x : Float) : String :=
  (Parts.ofBits x.toBits.toNat).text

end Routing.Decimal
