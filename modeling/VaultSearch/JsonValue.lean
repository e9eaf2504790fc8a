import VaultSearch.Decimal.Shortest
import VaultSearch.Text.Words

/-!
# JSON texts

`JsonValue.render` writes a value over several lines, each level of
nesting indented by two more blanks. A number with a fraction has the
fewest digits that read back as it, and a power of ten when it is very
large or very small.
-/

namespace VaultSearch

inductive JsonValue where
  | null
  | natural (n : Nat)
  | float (x : Float)
  | string (s : String)
  | array (elements : List JsonValue)
  | object (members : List (String × JsonValue))

namespace JsonValue

/-! ## Scalars -/

/-- A character between quotes. -/
def escape (c : Char) : List Char :=
  match c with
  | '"' => ['\\', '"']
  | '\\' => ['\\', '\\']
  | '\x08' => ['\\', 'b']
  | '\x0c' => ['\\', 'f']
  | '\n' => ['\\', 'n']
  | '\r' => ['\\', 'r']
  | '\t' => ['\\', 't']
  | _ =>
    if c < ' ' then
      ['\\', 'u', '0', '0', Nat.digitChar (c.toNat / 16), Nat.digitChar (c.toNat % 16)]
    else [c]

def quote (s : String) : String := String.ofList ('"' :: s.toList.flatMap escape ++ ['"'])

/-- Digits with the point among them, unless it lies too far out. -/
def renderDigits (d : Decimal.Digits) : String :=
  if -5 < d.point ∧ d.point ≤ 16 then d.positional else d.scientific

/-- A number; one that is not finite has no text. -/
def renderFloat (x : Float) : String :=
  match Binary64.ofFloat x with
  | .nan _ | .infinite _ => "null"
  | .finite negative mantissa exponent =>
    (if negative then "-" else "") ++
      if mantissa = 0 then "0.0"
      else renderDigits (Decimal.shortest .toEven mantissa exponent)

/-! ## Values -/

/-- The line break in front of something at a level of nesting. -/
def newLine (level : Nat) : String := "\n" ++ String.ofList (List.replicate (2 * level) ' ')

/-- Pieces between brackets, each on a line of its own. -/
def enclose (level : Nat) (left right : String) (pieces : List String) : String :=
  if pieces.isEmpty then left ++ right
  else left ++ newLine (level + 1) ++ Text.joinWith ("," ++ newLine (level + 1)) pieces ++
    newLine level ++ right

mutual

/-- The text of a value at a level of nesting. -/
def renderAt (level : Nat) : JsonValue → String
  | null => "null"
  | natural n => s!"{n}"
  | float x => renderFloat x
  | string s => quote s
  | array elements => enclose level "[" "]" (renderElements level elements)
  | object members => enclose level "\x7b" "\x7d" (renderMembers level members)

def renderElements (level : Nat) : List JsonValue → List String
  | [] => []
  | v :: vs => renderAt (level + 1) v :: renderElements level vs

def renderMembers (level : Nat) : List (String × JsonValue) → List String
  | [] => []
  | (key, v) :: rest => (quote key ++ ": " ++ renderAt (level + 1) v) :: renderMembers level rest

end

/-- The text of a value. -/
def render (v : JsonValue) : String := v.renderAt 0

end JsonValue

end VaultSearch
