/-!
# Floating-point numbers as decimals with fixed places

The exact value of a floating-point number, and its decimal with a given
number of places.
-/

/-! ## Exact values of floating-point numbers

`Binary64.ofFloat` takes a floating-point number apart: a finite number
is a natural number times a power of two, with a sign.
-/

namespace VaultSearch

/-- A floating-point number; a finite one is `mantissa * 2 ^ exponent`. -/
inductive Binary64 where
  | nan (negative : Bool)
  | infinite (negative : Bool)
  | finite (negative : Bool) (mantissa : Nat) (exponent : Int)
  deriving Repr, DecidableEq

namespace Binary64

/-- The power of two that begins the mantissas of 53 binary digits. -/
def leadBit : Nat := Nat.pow 2 52

/-- The number whose sign, exponent and fraction stand in the bits of `bits`. -/
def ofBits (bits : Nat) : Binary64 :=
  let negative := bits / Nat.pow 2 63 % 2 = 1
  let exponent : Nat := bits / leadBit % 2048
  let fraction : Nat := bits % leadBit
  if exponent = 2047 then
    if fraction = 0 then .infinite negative else .nan negative
  else if exponent = 0 then .finite negative fraction (-1074)
  else .finite negative (leadBit + fraction) ((exponent : Int) - 1075)

def ofFloat (x : Float) : Binary64 := ofBits x.toBits.toNat

/-- A finite number as a fraction of natural numbers. -/
def fraction (mantissa : Nat) (exponent : Int) : Nat × Nat :=
  match exponent with
  | .ofNat e => (mantissa * Nat.pow 2 e, 1)
  | .negSucc e => (mantissa, Nat.pow 2 (e + 1))

end Binary64

end VaultSearch

/-! ## Fixed places

A finite number is rounded to a given number of places after the point,
exactly: the nearer decimal is taken, and of two equally near ones the
one whose last digit is even. The sign of a negative number stays when
it rounds to zero.
-/

namespace VaultSearch.Decimal

/-- `num / den`, rounded to the nearest number; a tie goes to the even one. -/
def roundDiv (num den : Nat) : Nat :=
  let q := num / den
  let r := num % den
  if 2 * r > den || (2 * r = den && q % 2 = 1) then q + 1 else q

/-- The decimal digits of a number with at least `width` of them. -/
def digits (width n : Nat) : String :=
  let ds := Nat.toDigits 10 n
  String.ofList (List.replicate (width - ds.length) '0' ++ ds)

/-- A number with `places` digits after the point. -/
def fixed (places : Nat) (x : Float) : String :=
  match Binary64.ofFloat x with
  | .nan _ => "NaN"
  | .infinite negative => (if negative then "-" else "") ++ "inf"
  | .finite negative mantissa exponent =>
    let (num, den) := Binary64.fraction mantissa exponent
    let one := Nat.pow 10 places
    let n := roundDiv (num * one) den
    let whole := digits 1 (n / one)
    let part := if places = 0 then "" else "." ++ digits places (n % one)
    (if negative then "-" else "") ++ whole ++ part

end VaultSearch.Decimal
