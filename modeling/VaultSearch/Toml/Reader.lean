/-!
# Reading TOML texts

A `Reader` takes what it reads from the front of a text, or refuses the
text. This module holds the characters and the white space of TOML and
the readers that the others are built from. `many` goes on as long as a
reader takes something.
-/

namespace VaultSearch.Toml

/-- A way to read a value from the front of a text. -/
abbrev Reader := StateT (List Char) Option

namespace Reader

variable {α β : Type}

/-! ## Single characters -/

/-- The character in front, which stays there. -/
def peek? : Reader (Option Char) := fun s => some (s.head?, s)

/-- One character that satisfies `p`. -/
def satisfying (p : Char → Bool) : Reader Char
  | [] => none
  | c :: rest => if p c then some (c, rest) else none

def char (c : Char) : Reader Unit := fun s => ((satisfying (· = c)).run s).map fun (_, r) => ((), r)

/-- The characters of `word`. -/
def exactly (word : String) : Reader Unit := fun s =>
  (word.toList.isPrefixOf? s).map fun rest => ((), rest)

/-- The longest front of the text whose characters satisfy `p`. -/
def span (p : Char → Bool) : Reader (List Char) := fun s => some (s.takeWhile p, s.dropWhile p)

/-! ## Combinations -/

def optional (r : Reader α) : Reader (Option α) := fun s =>
  match r.run s with
  | none => some (none, s)
  | some (a, rest) => some (some a, rest)

/-- Read as often as the reader succeeds and takes something. -/
def many (r : Reader α) (s : List Char) : Option (List α × List Char) :=
  match r.run s with
  | none => some ([], s)
  | some (a, rest) =>
    if rest.length < s.length then (many r rest).map fun (as, last) => (a :: as, last)
    else some ([a], rest)
termination_by s.length

/-- One or more, with `separator` between them. -/
def separated (r : Reader α) (separator : Reader β) : Reader (List α) := do
  let first ← r
  let others ← many (do let _ ← separator; r)
  return first :: others

/-- What a reader makes of a whole text. -/
def whole? (r : Reader α) (s : List Char) : Option α :=
  match r.run s with
  | some (a, []) => some a
  | _ => none

end Reader

/-! ## White space -/

def isBlank (c : Char) : Bool := c = ' ' || c = '\t'

/-- The characters that may stand in a comment. -/
def isCommentChar (c : Char) : Bool := c = '\t' || (' ' ≤ c && c ≠ '\x7f')

def blanks : Reader Unit := fun s => some ((), s.dropWhile isBlank)

/-- A line feed, with or without a carriage return in front of it. -/
def lineBreak : Reader Unit
  | '\n' :: rest => some ((), rest)
  | '\r' :: '\n' :: rest => some ((), rest)
  | _ => none

/-- A comment, if one begins here; its line break stays. -/
def comment : Reader Unit
  | '#' :: rest => some ((), rest.dropWhile isCommentChar)
  | s => some ((), s)

/-- What may follow in a line: blanks, a comment, and the end of the line or of
the text. -/
def lineEnd : Reader Unit := do
  blanks
  comment
  match ← Reader.peek? with
  | none => return ()
  | some _ => lineBreak

/-- Blanks, comments and line breaks. -/
def gap : Reader Unit := do
  let _ ← Reader.many (do blanks; comment; lineBreak)
  blanks
  comment

end VaultSearch.Toml
