import VaultSearch.Decimal.Shortest
import VaultSearch.Toml.Quoted
import VaultSearch.Toml.Scalar
import VaultSearch.Toml.Value

/-!
# TOML documents

Reading the text of a document, and writing it.
-/

namespace VaultSearch.Toml

/-! ## Reading

A document is a list of statements, one on a line: the header of a
table, the header of one more table of a list, or a key and its value.
`statements?` reads the statements of a text, and `Entries.ofStatements?`
is the table that they describe, if they fit together.
-/

/-! ### Keys -/

/-- Fewer than this many parts make a key, and fewer values lie inside each other. -/
def depthLimit : Nat := 80

def isBareKeyChar (c : Char) : Bool := c.isAlphanum || c = '_' || c = '-'

def bareKey : Reader String := do
  let cs ← Reader.span isBareKeyChar
  if cs.isEmpty then failure else return String.ofList cs

/-- The parts of a key, with blanks around each. -/
def key : Reader (List String) := do
  let part : Reader String := do
    blanks
    let k ← Quoted.readLine <|> bareKey
    blanks
    return k
  let parts ← Reader.separated part (Reader.char '.')
  if parts.length < depthLimit then return parts else failure

/-! ### Values -/

/-- A list of values between brackets, over any number of lines. -/
def array (element : Reader Value) : Reader Value := do
  Reader.char '['
  let spaced : Reader Value := do
    gap
    let v ← element
    gap
    return v
  let found ← Reader.optional (Reader.separated spaced (Reader.char ','))
  if found.isSome then
    let _ ← Reader.optional (Reader.char ',')
  gap
  Reader.char ']'
  return .array (found.getD [])

/-- A key, an equals sign and a value. -/
def pair (element : Reader Value) : Reader (List String × Value) := do
  let path ← key
  Reader.char '='
  blanks
  return (path, ← element)

/-- Assign a value to the key with the given parts. -/
def Entries.assignKey (parts : List String) (v : Value) : Entries.Change := fun form es =>
  match parts.getLast? with
  | none => none
  | some last => Entries.assign parts.dropLast last v form es

/-- Keys and values between braces, on one line. -/
def inlineTable (element : Reader Value) : Reader Value := do
  Reader.char '{'
  let spaced : Reader (List String × Value) := do
    let p ← pair element
    blanks
    return p
  let found ← Reader.optional (Reader.separated spaced (Reader.char ','))
  blanks
  Reader.char '}'
  let built := (found.getD []).foldlM (fun (form, es) (parts, v) =>
    Entries.assignKey parts v form es) (Form.inline, [])
  match built with
  | none => failure
  | some (form, es) => return .table form es

/-- A value in which others lie at most `room` deep. -/
def value : (room : Nat) → Reader Value
  | 0 => Scalar.read
  | room + 1 => array (value room) <|> inlineTable (value room) <|> Scalar.read

/-! ### Statements -/

inductive Statement where
  | header (path : List String)
  | element (path : List String)
  | assign (path : List String) (v : Value)

def statement : Reader Statement :=
  (do
    Reader.exactly "[["
    let path ← key
    Reader.exactly "]]"
    return .element path) <|>
  (do
    Reader.char '['
    let path ← key
    Reader.char ']'
    return .header path) <|>
  (do
    let (path, v) ← pair (value (depthLimit - 1))
    return .assign path v)

/-- A line with a statement or without one. -/
def line : Reader (Option Statement) := do
  blanks
  let s ← Reader.optional statement
  lineEnd
  return s

/-- The statements of a text. A byte order mark in front does not count. -/
def statements? (cs : List Char) : Option (List Statement) :=
  let cs := match cs with
    | '\uFEFF' :: rest => rest
    | _ => cs
  (Reader.whole? (Reader.many line) cs).map fun ss => ss.filterMap id

namespace Entries

/-- Do what one statement says, and give the way to the table of the statements
that follow. -/
def obey (acc : List String × Form × Entries) (s : Statement) :
    Option (List String × Form × Entries) :=
  let (place, form, es) := acc
  let at_ (path : List String) (change : String → Change) : Option (Form × Entries) :=
    match path.getLast? with
    | none => none
    | some last => descend false (change last) path.dropLast form es
  match s with
  | .header path => (at_ path open_).map fun r => (path, r)
  | .element path => (at_ path append).map fun r => (path, r)
  | .assign path v => (descend false (assignKey path v) place form es).map fun r => (place, r)

/-- The table that statements describe. -/
def ofStatements? (ss : List Statement) : Option Entries :=
  (ss.foldlM obey ([], Form.header, [])).map fun (_, _, es) => es

/-- The table that a text describes. -/
def parse? (text : String) : Option Entries := (statements? text.toList).bind ofStatements?

end Entries

/-! ## Writing

A document is written section by section, with an empty line between
two of them. A list of more than one value has a line for each. A number
with a fraction is written with the fewest digits that read back as it,
and never with a power of ten.
-/

def renderFloat (x : Float) : String :=
  let sign (negative : Bool) := if negative then "-" else ""
  match Binary64.ofFloat x with
  | .nan negative => sign negative ++ "nan"
  | .infinite negative => sign negative ++ "inf"
  | .finite negative 0 _ => sign negative ++ "0.0"
  | .finite negative mantissa exponent =>
    sign negative ++ (Decimal.shortest .up mantissa exponent).positional

/-- The text of a value that holds no others. A whole number has to fit into 64
bits with its sign. -/
def Value.renderScalar? : Value → Option String
  | .string s => some (Quoted.render s)
  | .integer n => if fitsWord n then some s!"{n}" else none
  | .float x => some (renderFloat x)
  | .bool b => some s!"{b}"
  | _ => none

/-- The text of a scalar or of a list of scalars. -/
def Value.render? : Value → Option String
  | .array vs => do
    let texts ← vs.mapM Value.renderScalar?
    match texts with
    | _ :: _ :: _ => return "[\n" ++ String.join (texts.map fun t => s!"    {t},\n") ++ "]"
    | _ => return "[" ++ String.join texts ++ "]"
  | v => v.renderScalar?

/-- A table of scalars and lists with the name in its header. -/
structure Section where
  name : String
  entries : Entries

def Section.render? (s : Section) : Option String := do
  let lines ← s.entries.mapM fun (key, v) => v.render?.map fun text => s!"{key} = {text}\n"
  return s!"[{s.name}]\n" ++ String.join lines

/-- The text of a document; `none` if a number does not fit. -/
def renderSections? (ss : List Section) : Option String :=
  (ss.mapM Section.render?).map "\n".intercalate

end VaultSearch.Toml
