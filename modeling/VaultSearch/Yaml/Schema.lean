import VaultSearch.Decimal.Shortest
import VaultSearch.Text.Words
import VaultSearch.Yaml.Node

/-!
# What YAML scalars stand for

A plain scalar may be missing, a truth value or a number; any other is
text. A tag of the language asks for one of these kinds, and a tag of
the document's own makes a scalar nothing that can be read here.
`Document.text?` is the text that a node stands for.
-/

namespace VaultSearch.Yaml

namespace Schema

open Text (areDigits natOf)

def isNull (s : String) : Bool := ["null", "Null", "NULL", "~"].contains s

def isBool (s : String) : Bool :=
  ["true", "True", "TRUE", "false", "False", "FALSE"].contains s

/-- Digits with a needless zero in front, which are text. -/
def isPadded (cs : List Char) : Bool :=
  let cs := match cs with
    | '-' :: r | '+' :: r => r
    | _ => cs
  match cs with
  | '0' :: r => !r.isEmpty && r.all (·.isDigit)
  | _ => false

/-- A whole number with an optional sign, in base 16, 8 or 2 after `0x`, `0o` or
`0b`, and in base 10 otherwise. Its magnitude is less than 2^128, or at most
2^127 below zero. -/
def isInt (cs : List Char) : Bool :=
  let (limit, body) := match cs with
    | '-' :: r => (Nat.pow 2 127 + 1, r)
    | '+' :: r => (Nat.pow 2 128, r)
    | _ => (Nat.pow 2 128, cs)
  let fits := fun (base : Nat) (ds : List Char) => areDigits base ds && natOf base ds < limit
  let based := match body with
    | '0' :: 'x' :: ds => fits 16 ds
    | '0' :: 'o' :: ds => fits 8 ds
    | '0' :: 'b' :: ds => fits 2 ds
    | _ => false
  based || (!isPadded cs && fits 10 body)

/-- The digits and the power of ten of a decimal number with a fraction and an
exponent, both optional. -/
def decimal? (cs : List Char) : Option (Nat × Int) := do
  let (whole, rest) := cs.span Char.isDigit
  let (fraction, rest) := match rest with
    | '.' :: r => r.span Char.isDigit
    | _ => ([], rest)
  if whole.isEmpty && fraction.isEmpty then none
  else
    let exponent ← match rest with
      | [] => some (0 : Int)
      | e :: r =>
        if e ≠ 'e' && e ≠ 'E' then none
        else
          let (negative, ds) := match r with
            | '-' :: ds => (true, ds)
            | '+' :: ds => (false, ds)
            | _ => (false, r)
          if !areDigits 10 ds then none
          else some (if negative then -(natOf 10 ds : Int) else natOf 10 ds)
    some (natOf 10 (whole ++ fraction), exponent - fraction.length)

/-- Whether `digits` · 10 ^ `power` rounds to a finite number. -/
def isFinite (digits : Nat) (power : Int) : Bool :=
  Decimal.nearestDecimalBits digits power < Decimal.infiniteBits

/-- A decimal number that binary64 can hold, an infinity or no number. -/
def isFloat (cs : List Char) : Bool :=
  let s := String.ofList cs
  let body := match cs with
    | '+' :: r => r
    | _ => cs
  if [".inf", ".Inf", ".INF"].contains (String.ofList body)
      || ["-.inf", "-.Inf", "-.INF", ".nan", ".NaN", ".NAN"].contains s then true
  else
    let unsigned := match cs with
      | '+' :: r | '-' :: r => r
      | _ => cs
    (decimal? unsigned).any fun (digits, power) => isFinite digits power

/-- Whether a plain scalar without a tag is text. -/
def isText (s : String) : Bool :=
  let cs := s.toList
  !(s.isEmpty || isNull s || isBool s || isInt cs || (!isPadded cs && isFloat cs))

/-- The tags of the language that ask for another kind than text. -/
def isKindTag (tag : String) : Bool :=
  ["bool", "int", "float", "null"].any fun k => tag = "tag:yaml.org,2002:" ++ k

end Schema

/-- The text that a scalar stands for, if it stands for text. -/
def Node.text? : Node → Option String
  | .scalar tag text plain =>
    match tag with
    | none => if !plain || Schema.isText text then some text else none
    | some tag =>
      if tag.startsWith "!" || Schema.isKindTag tag then none else some text
  | _ => none

/-- Whether the node is a missing value; `none` for a tag that asks for one in vain. -/
def Node.isMissing? : Node → Option Bool
  | .scalar tag text plain =>
    if !plain then some false
    else match tag with
      | none => some (text.isEmpty || Schema.isNull text)
      | some tag =>
        if tag = "tag:yaml.org,2002:null" then
          if Schema.isNull text then some true else none
        else some false
  | _ => some false

/-- The text of a node, with references resolved. -/
def Document.text? (d : Document) (n : Node) : Option String := (d.resolve n).bind Node.text?

end VaultSearch.Yaml
