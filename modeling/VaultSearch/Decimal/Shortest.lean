import VaultSearch.Decimal.Fixed

/-!
# Decimals and the floating-point numbers nearest to them

A decimal is read as the nearest floating-point number, and a number is
written as the shortest decimal that is read as it.
-/

namespace VaultSearch.Decimal

/-! ## The nearest floating-point number

`nearest n e` is the floating-point number nearest to `n * 10 ^ e`; of
two equally near ones it is the one whose mantissa is even. The number
is found in exact arithmetic: the quotient is scaled by a power of two
so that its whole part is a mantissa, and rounded.
-/

/-- The exponent for which `num / den` has a mantissa of 53 binary digits, or the
least exponent there is. -/
def exponentOf (num den : Nat) : Int :=
  let guess : Int := (num.log2 : Int) - (den.log2 : Int) - 53
  let (a, b) := Binary64.fraction num (-guess)
  max (if a / (b * den) < 2 * Binary64.leadBit then guess else guess + 1) (-1074)

/-- The bits of the positive infinite number. -/
def infiniteBits : Nat := 2047 * Binary64.leadBit

/-- The bits of the floating-point number nearest to `num / den`. A mantissa that
rounds up to a power of two carries over into the exponent. -/
def nearestBits (num den : Nat) : Nat :=
  if num = 0 then 0
  else
    let exponent := exponentOf num den
    let (a, b) := Binary64.fraction num (-exponent)
    min (roundDiv a (b * den) + (exponent + 1074).toNat * Binary64.leadBit) infiniteBits

/-- The bits of the floating-point number nearest to `n * 10 ^ e`. Numbers far out
of reach are told by their number of digits. -/
def nearestDecimalBits (n : Nat) (e : Int) : Nat :=
  let magnitude := ((Nat.toDigits 10 n).length : Int) + e
  if n = 0 || magnitude < -330 then 0
  else if 310 < magnitude then infiniteBits
  else match e with
    | .ofNat k => nearestBits (n * Nat.pow 10 k) 1
    | .negSucc k => nearestBits n (Nat.pow 10 (k + 1))

/-- The floating-point number nearest to `n * 10 ^ e`. -/
def nearest (n : Nat) (e : Int) : Float := Float.ofBits (nearestDecimalBits n e).toUInt64

/-! ## The shortest decimal

A floating-point number stands for all the numbers that are nearer to it
than to its neighbours, its `Interval`. `shortest` is the decimal of the
fewest digits in that interval, and of those the nearest one. It looks
for the decimals of one digit, of two, and so on: if the interval holds
any decimal of a grid, then it holds one of the two that are next to the
number.
-/

/-! ### The numbers that are read as one -/

/-- The value of `mantissa * 2 ^ exponent`. -/
def value (mantissa : Nat) (exponent : Int) : Rat := mantissa * (2 : Rat) ^ exponent

/-- The numbers from `low` to `high`, with the ends or without them. -/
structure Interval where
  low : Rat
  high : Rat
  closed : Bool
  deriving Repr, DecidableEq

def Interval.contains (i : Interval) (x : Rat) : Bool :=
  if i.closed then i.low ≤ x && x ≤ i.high else i.low < x && x < i.high

/-- The numbers that are read as `mantissa * 2 ^ exponent`. The neighbour below a
power of two is half as far away as the one above. A number in the middle is
read as the neighbour whose mantissa is even. -/
def Interval.around (mantissa : Nat) (exponent : Int) : Interval :=
  let gap := (2 : Rat) ^ exponent
  let below := if mantissa = Binary64.leadBit ∧ -1074 < exponent then gap / 2 else gap
  let x := value mantissa exponent
  ⟨x - below / 2, x + gap / 2, mantissa % 2 = 0⟩

/-! ### The digits -/

/-- Which of two equally near decimals is taken. -/
inductive Tie where
  | toEven
  | up
  deriving Repr, DecidableEq

/-- The multiple of `step` in an interval that is nearest to `x`. -/
def pick? (tie : Tie) (i : Interval) (x step : Rat) : Option Nat :=
  let n := (x / step).floor.toNat
  match i.contains (n * step), i.contains ((n + 1) * step) with
  | false, false => none
  | true, false => some n
  | false, true => some (n + 1)
  | true, true =>
    let middle := (n + 1 / 2) * step
    some (if x < middle || (x = middle && tie = .toEven && n % 2 = 0) then n else n + 1)

/-- The power of ten of the first digit of a positive number. -/
def magnitude (x : Rat) : Int :=
  if 1 ≤ x then ((Nat.toDigits 10 x.floor.toNat).length : Int) - 1
  else -((Nat.toDigits 10 x⁻¹.floor.toNat).length : Int)

/-- The decimal point and the digits of a number: `point` digits stand before the
point, or zeros after it if it is negative. -/
structure Digits where
  digits : List Char
  point : Int
  deriving Repr, DecidableEq

/-- The digits of `n * 10 ^ e`, without zeros at the end. -/
def Digits.of (n : Nat) (e : Int) : Digits :=
  let ds := Nat.toDigits 10 n
  ⟨(ds.reverse.dropWhile (· = '0')).reverse, ds.length + e⟩

/-- The shortest decimal that is read as `mantissa * 2 ^ exponent`, a positive
number. -/
def shortest (tie : Tie) (mantissa : Nat) (exponent : Int) : Digits :=
  let x := value mantissa exponent
  let i := Interval.around mantissa exponent
  let top := magnitude x
  let found := (List.range 17).findSome? fun (k : Nat) =>
    let e := top - (k : Int)
    (pick? tie i x ((10 : Rat) ^ e)).map fun n => Digits.of n e
  found.getD (match exponent with
    | .ofNat e => Digits.of (mantissa * Nat.pow 2 e) 0
    | .negSucc e => Digits.of (mantissa * Nat.pow 5 (e + 1)) (-(e + 1 : Int)))

/-! ### Texts -/

/-- The digits around their point, with at least one on either side. -/
def Digits.positional (d : Digits) : String :=
  let whole := d.point.toNat
  let front := d.digits.take whole
  let back := List.replicate (-d.point).toNat '0' ++ d.digits.drop whole
  let front := front ++ List.replicate (whole - front.length) '0'
  String.ofList
    ((if front = [] then ['0'] else front) ++ '.' :: (if back = [] then ['0'] else back))

/-- The first digit, the others after the point, and the power of ten. -/
def Digits.scientific (d : Digits) : String :=
  let fraction := if d.digits.length ≤ 1 then [] else '.' :: d.digits.drop 1
  String.ofList (d.digits.take 1 ++ fraction) ++ s!"e{d.point - 1}"

end VaultSearch.Decimal
