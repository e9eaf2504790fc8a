/-!
# TOML values

A `Value` is what a key of a document stands for. A table remembers by
what form of writing it came about, since that decides who may add to it
later: `descend` walks from a table along keys, makes the tables that
are missing, and refuses a way that the forms close.
-/

namespace VaultSearch.Toml

/-- How a table came about. -/
inductive Form where
  /-- Between braces; nothing is added later. -/
  | inline
  /-- Under its own header. -/
  | header
  /-- On the way to a header further down. -/
  | implied
  /-- On the way of a dotted key. -/
  | dotted
  deriving Repr, DecidableEq

/-- A date or a time is told apart from other values, and no more. -/
inductive Value where
  | string (text : String)
  | integer (n : Int)
  | float (x : Float)
  | bool (b : Bool)
  | dateTime
  | array (elements : List Value)
  | table (form : Form) (entries : List (String × Value))
  | tables (elements : List (List (String × Value)))

/-- Whether a whole number fits into 64 bits with its sign. -/
def fitsWord (n : Int) : Bool := -9223372036854775808 ≤ n && n ≤ 9223372036854775807

/-- The entries of a table, by key. -/
abbrev Entries := List (String × Value)

namespace Entries

/-- The value of a key in its place; a new key comes last. -/
def set (es : Entries) (key : String) (v : Value) : Entries :=
  if es.any fun e => e.1 = key then es.map fun e => if e.1 = key then (key, v) else e
  else es ++ [(key, v)]

/-- A change of the table at the end of a way; it may be refused. -/
abbrev Change := Form → Entries → Option (Form × Entries)

/-- Change the table that `path` leads to from the table of the given form and
entries. A dotted way makes dotted tables and goes through no table that has a
header; the way of a header makes implied ones. Both go on in the last one of a
list of tables. -/
def descend (dotted : Bool) (change : Change) : List String → Change
  | [], form, es => change form es
  | key :: path, form, es =>
    match List.lookup key es with
    | none =>
      (descend dotted change path (if dotted then .dotted else .implied) []).map
        fun (g, inner) => (form, es.set key (.table g inner))
    | some (.table g inner) =>
      if g = .inline || (dotted && g = .header) then none
      else (descend dotted change path g inner).map
        fun (g, inner) => (form, es.set key (.table g inner))
    | some (.tables elements) =>
      match elements.getLast? with
      | none => none
      | some inner => (descend dotted change path .header inner).map
          fun (_, inner) => (form, es.set key (.tables (elements.dropLast ++ [inner])))
    | some _ => none

/-- Give a new key of a table its value. A dotted way leads to dotted tables only,
and to those only a dotted way leads. -/
def add (isDottedWay : Bool) (key : String) (v : Value) : Change := fun form es =>
  if (form = .dotted) != isDottedWay || (List.lookup key es).isSome then none
  else some (form, es.set key v)

/-- Give the value of a dotted key. -/
def assign (path : List String) (key : String) (v : Value) : Change :=
  descend true (add (!path.isEmpty) key v) path

/-- Give the table at a key its header. -/
def open_ (key : String) : Change := fun form es =>
  match List.lookup key es with
  | none => some (form, es.set key (.table .header []))
  | some (.table .implied inner) => some (form, es.set key (.table .header inner))
  | some _ => none

/-- Add a table to the list of tables at a key. -/
def append (key : String) : Change := fun form es =>
  match List.lookup key es with
  | none => some (form, es.set key (.tables [[]]))
  | some (.tables elements) => some (form, es.set key (.tables (elements ++ [[]])))
  | some _ => none

end Entries

end VaultSearch.Toml
