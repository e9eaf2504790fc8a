import VaultSearch.Decimal.Shortest
import VaultSearch.Text.Words
import VaultSearch.Toml.Quoted
import VaultSearch.Toml.Value

/-!
# TOML scalars

Texts, numbers, truth values, dates and times. Digits of a number may
have single underscores between them. A whole number fits into 64 bits
with its sign; a decimal number is read as the nearest floating-point
number, and refused if it is too large.
-/

namespace VaultSearch.Toml.Scalar

/-! ## Numbers -/

/-- The digits of a number without the underscores between them. -/
def digits? (base : Nat) (cs : List Char) : Option (List Char) :=
  let groups := cs.splitOnP (· = '_')
  if groups.all (Text.areDigits base) then some groups.flatten else none

/-- Decimal digits without a needless zero in front. -/
def plainDigits? (cs : List Char) : Option (List Char) := do
  let ds ← digits? 10 cs
  if ds.length ≠ 1 && ds.head? = some '0' then none else some ds

/-- A sign, if there is one, and what follows it. -/
def sign : List Char → Bool × List Char
  | '-' :: cs => (true, cs)
  | '+' :: cs => (false, cs)
  | cs => (false, cs)

/-- A whole number; one to the base 16, 8 or 2 has no sign. -/
def integer? (cs : List Char) : Option Int := do
  let n : Int ← match cs with
    | '0' :: 'x' :: ds => (digits? 16 ds).map fun ds => (Text.natOf 16 ds : Int)
    | '0' :: 'o' :: ds => (digits? 8 ds).map fun ds => (Text.natOf 8 ds : Int)
    | '0' :: 'b' :: ds => (digits? 2 ds).map fun ds => (Text.natOf 2 ds : Int)
    | _ =>
      let (negative, ds) := sign cs
      (plainDigits? ds).map fun ds =>
        if negative then -(Text.natOf 10 ds : Int) else Text.natOf 10 ds
  if fitsWord n then some n else none

/-- A power of ten after `e`. -/
def exponent? (cs : List Char) : Option Int :=
  let (negative, ds) := sign cs
  (digits? 10 ds).map fun ds => if negative then -(Text.natOf 10 ds : Int) else Text.natOf 10 ds

/-- A decimal number without a sign: its digits and the power of ten of the last one.
It has a fraction, an exponent, or both. -/
def decimal? (cs : List Char) : Option (Nat × Int) := do
  let (front, power) := cs.span fun c => c ≠ 'e' && c ≠ 'E'
  let (whole, fraction) := front.span (· ≠ '.')
  if power.isEmpty && fraction.isEmpty then none
  else
    let whole ← plainDigits? whole
    let fraction ← if fraction.isEmpty then some [] else digits? 10 (fraction.drop 1)
    let power ← if power.isEmpty then some 0 else exponent? (power.drop 1)
    some (Text.natOf 10 (whole ++ fraction), power - fraction.length)

def signed (negative : Bool) (x : Float) : Float := if negative then -x else x

/-- A decimal number, an infinity, or no number. -/
def float? (cs : List Char) : Option Float :=
  let (negative, body) := sign cs
  match body with
  | ['i', 'n', 'f'] => some (signed negative (Float.ofBits (Decimal.infiniteBits).toUInt64))
  | ['n', 'a', 'n'] => some (signed negative (0.0 / 0.0))
  | _ => do
    let (n, e) ← decimal? body
    if !negative && Decimal.nearestDecimalBits n e = Decimal.infiniteBits then none
    else some (signed negative (Decimal.nearest n e))

/-! ## Dates and times -/

/-- A number of `count` digits that is at least `low` and at most `high`. -/
def digitsWithin (count low high : Nat) : Reader Nat := fun s => do
  let ds := s.take count
  let n ← if ds.length = count then Text.natOf? 10 ds else none
  if low ≤ n && n ≤ high then some (n, s.drop count) else none

def daysIn (year month : Nat) : Nat :=
  if month = 2 then
    if year % 4 = 0 && (year % 100 ≠ 0 || year % 400 = 0) then 29 else 28
  else if [4, 6, 9, 11].contains month then 30
  else 31

def date : Reader Unit := do
  let year ← digitsWithin 4 0 9999
  Reader.char '-'
  let month ← digitsWithin 2 1 12
  Reader.char '-'
  let _ ← digitsWithin 2 1 (daysIn year month)

def time : Reader Unit := do
  let _ ← digitsWithin 2 0 23
  Reader.char ':'
  let _ ← digitsWithin 2 0 59
  Reader.char ':'
  let _ ← digitsWithin 2 0 60
  let _ ← Reader.optional (do
    Reader.char '.'
    let _ ← Reader.satisfying Char.isDigit
    Reader.span Char.isDigit)

/-- The distance of a time from universal time. -/
def offset : Reader Unit :=
  (do let _ ← Reader.satisfying fun c => c = 'Z' || c = 'z') <|> (do
    let _ ← Reader.satisfying fun c => c = '+' || c = '-'
    let _ ← digitsWithin 2 0 23
    Reader.char ':'
    let _ ← digitsWithin 2 0 59)

/-- A date, a time, or a date and a time with or without an offset. -/
def dateTime : Reader Unit :=
  (do
    date
    let _ ← Reader.optional (do
      let _ ← Reader.satisfying fun c => c = 'T' || c = 't' || c = ' '
      time
      Reader.optional offset)) <|> time

/-! ## Any scalar -/

/-- The characters of numbers and truth values. -/
def isWordChar (c : Char) : Bool := c.isAlphanum || "+-._".toList.contains c

/-- The number or truth value that a word writes. -/
def ofWord? (cs : List Char) : Option Value :=
  if cs = "true".toList then some (.bool true)
  else if cs = "false".toList then some (.bool false)
  else ((integer? cs).map .integer) <|> ((float? cs).map .float)

/-- A value that holds no others. -/
def read : Reader Value :=
  (do return .string (← Quoted.read)) <|> (do dateTime; return .dateTime) <|> (do
    match ofWord? (← Reader.span isWordChar) with
    | none => failure
    | some v => return v)

end VaultSearch.Toml.Scalar
