/-!
# Places in a YAML text

The character classes of YAML and a `Cursor`: what is left of a text and
the place reached. A line may end in a line feed, a carriage return,
both, a next-line character, or one of the two Unicode separators.
-/

namespace VaultSearch.Yaml

/-! ## Character classes -/

def isBreak (c : Char) : Bool :=
  c = '\n' || c = '\r' || c = '\x85' || c = '\u2028' || c = '\u2029'

def isBlank (c : Char) : Bool := c = ' ' || c = '\t'

/-- Whether a word ends before the character, or at the end of the text. -/
def endsWord : Option Char → Bool
  | none => true
  | some c => isBlank c || isBreak c

/-- The characters of names. -/
def isNameChar (c : Char) : Bool := c.isAlphanum || c = '_' || c = '-'

/-- The characters that a YAML text may hold. -/
def isPrintable (c : Char) : Bool :=
  let n := c.toNat
  n = 0x9 || n = 0xa || n = 0xd || (0x20 ≤ n && n ≤ 0x7e) || n = 0x85 ||
    (0xa0 ≤ n && n ≤ 0xd7ff) || (0xe000 ≤ n && n ≤ 0xfffd) || 0x10000 ≤ n

/-- What a line break stands for inside a text: only the Unicode separators
keep their identity. -/
def breakText (c : Char) : Char :=
  if c = '\u2028' || c = '\u2029' then c else '\n'

/-! ## Cursors -/

/-- A place in a text, counted from zero. -/
structure Mark where
  index : Nat := 0
  line : Nat := 0
  column : Nat := 0
  deriving Repr, DecidableEq

/-- The place `n` characters further on the same line. -/
def Mark.along (m : Mark) (n : Nat) : Mark := ⟨m.index + n, m.line, m.column + n⟩

/-- The place at the start of the next line, after a break of `n` characters. -/
def Mark.down (m : Mark) (n : Nat) : Mark := ⟨m.index + n, m.line + 1, 0⟩

/-- What is left of a text, and its place. -/
structure Cursor where
  rest : List Char
  mark : Mark := {}
  deriving Repr, DecidableEq

namespace Cursor

def peek? (c : Cursor) : Option Char := c.rest.head?

def peekAt? (c : Cursor) (n : Nat) : Option Char := c.rest[n]?

/-- Move `n` characters along the line. -/
def skip (c : Cursor) (n : Nat) : Cursor := ⟨c.rest.drop n, c.mark.along n⟩

/-- The characters in front that satisfy `p`, and the cursor after them. -/
def span (c : Cursor) (p : Char → Bool) : List Char × Cursor :=
  let taken := c.rest.takeWhile p
  (taken, c.skip taken.length)

def skipWhile (c : Cursor) (p : Char → Bool) : Cursor := (c.span p).2

/-- The line break in front, if there is one: what it stands for and the cursor
after it. -/
def lineBreak? (c : Cursor) : Option (Char × Cursor) :=
  match c.rest with
  | '\r' :: '\n' :: rest => some ('\n', ⟨rest, c.mark.down 2⟩)
  | b :: rest => if isBreak b then some (breakText b, ⟨rest, c.mark.down 1⟩) else none
  | [] => none

/-- The cursor after a line break in front, if there is one. -/
def skipBreak (c : Cursor) : Cursor := ((c.lineBreak?).map (·.2)).getD c

/-- The cursor after blanks and a comment; it stays in the line. -/
def skipBlanksAndComment (c : Cursor) : Cursor :=
  let c := c.skipWhile isBlank
  if c.peek? = some '#' then c.skipWhile (!isBreak ·) else c

/-- Whether the line is at its end. -/
def atLineEnd (c : Cursor) : Bool := c.peek?.all isBreak

/-- Whether three equal characters `sign` stand alone at the start of a line. -/
def startsWithSign (c : Cursor) (sign : Char) : Bool :=
  c.mark.column = 0 && c.rest.take 3 = [sign, sign, sign] && endsWord (c.peekAt? 3)

/-- Whether a document begins or ends at the cursor. -/
def atDocumentSign (c : Cursor) : Bool := c.startsWithSign '-' || c.startsWithSign '.'

end Cursor

end VaultSearch.Yaml
