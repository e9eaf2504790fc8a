import VaultSearch.Text.Words
import VaultSearch.Yaml.Cursor

/-!
# Texts of YAML scalars

The three ways to write a scalar: plain, between quotes, and as a block
of indented lines. Line breaks inside a plain or quoted scalar are
folded: a single break is a space, and of more breaks all but the first
stand (`Gap.text`). A block keeps its breaks (`|`) or folds those
between lines that begin with no blank (`>`).
-/

namespace VaultSearch.Yaml

/-! ## Gaps -/

/-- What separates two pieces of a plain or quoted scalar: blanks, or line
breaks. The first break is missing where an escape has cancelled it. -/
inductive Gap where
  | blanks (text : List Char)
  | breaks (first : Option Char) (more : List Char)
  deriving Repr, DecidableEq

namespace Gap

def isBroken : Gap → Bool
  | blanks _ => false
  | breaks _ _ => true

/-- A blank at the start of a line does not count. -/
def addBlank (c : Char) : Gap → Gap
  | blanks text => blanks (text ++ [c])
  | g => g

def addBreak (c : Char) : Gap → Gap
  | blanks _ => breaks (some c) []
  | breaks first more => breaks first (more ++ [c])

/-- What the gap stands for. -/
def text : Gap → List Char
  | blanks text => text
  | breaks (some '\n') [] => [' ']
  | breaks (some '\n') more => more
  | breaks first more => first.toList ++ more

/-- Read on from a gap. A tab before column `indent` of a line is refused. -/
def readFrom (indent : Nat) : (fuel : Nat) → Gap → Cursor → Option (Gap × Cursor)
  | 0, g, c => some (g, c)
  | fuel + 1, g, c =>
    match c.lineBreak? with
    | some (b, c') => readFrom indent fuel (g.addBreak b) c'
    | none =>
      match c.peek? with
      | some b =>
        if !isBlank b then some (g, c)
        else if g.isBroken && c.mark.column < indent && b = '\t' then none
        else readFrom indent fuel (g.addBlank b) (c.skip 1)
      | none => some (g, c)

/-- Read the blanks and breaks in front of the cursor after the gap `g`. -/
def read (indent : Nat) (g : Gap) (c : Cursor) : Option (Gap × Cursor) :=
  readFrom indent c.rest.length g c

end Gap

/-! ## Plain scalars -/

/-- Whether a plain scalar is cut before `c`, given the character after it. -/
def cutsPlain (inFlow : Bool) (c : Char) (after : Option Char) : Bool :=
  endsWord (some c) || (c = ':' && endsWord after) ||
    (inFlow && (c = ',' || c = '[' || c = ']' || c = '{' || c = '}'))

/-- A colon that may not stand in a plain scalar of a flow collection. -/
def isStrayColon (inFlow : Bool) (c : Char) (after : Option Char) : Bool :=
  inFlow && c = ':' && after.any (",?[]\x7b\x7d".toList.contains ·)

/-- A piece of a plain scalar without blanks; `none` for a stray colon. -/
def plainPiece? (inFlow : Bool) : List Char → Option (List Char)
  | [] => some []
  | c :: rest =>
    if endsWord (some c) then some []
    else if isStrayColon inFlow c rest.head? then none
    else if cutsPlain inFlow c rest.head? then some []
    else (plainPiece? inFlow rest).map (c :: ·)

/-- A plain scalar that has been read. -/
structure PlainScalar where
  text : List Char
  /-- Whether a line break follows the last piece. -/
  broken : Bool
  after : Cursor

/-- Read on in a plain scalar after `text` and `gap`. -/
def readPlainFrom (inFlow : Bool) (indent : Nat) :
    (fuel : Nat) → List Char → Gap → Cursor → Option PlainScalar
  | 0, text, gap, c => some ⟨text, gap.isBroken, c⟩
  | fuel + 1, text, gap, c =>
    if c.atDocumentSign || c.peek? = some '#' then some ⟨text, gap.isBroken, c⟩
    else do
      let piece ← plainPiece? inFlow c.rest
      let c := c.skip piece.length
      let (text, gap) :=
        if piece.isEmpty then (text, gap) else (text ++ gap.text ++ piece, .blanks [])
      if !c.peek?.any fun d => isBlank d || isBreak d then
        some ⟨text, gap.isBroken, c⟩
      else
        let (gap, c) ← gap.read indent c
        if !inFlow && c.mark.column < indent then some ⟨text, gap.isBroken, c⟩
        else readPlainFrom inFlow indent fuel text gap c

/-- Read a plain scalar whose further lines begin at column `indent` or later. -/
def readPlain (inFlow : Bool) (indent : Nat) (c : Cursor) : Option PlainScalar :=
  readPlainFrom inFlow indent (c.rest.length + 1) [] (.blanks []) c

/-! ## Quoted scalars -/

/-- What the characters after a backslash stand for and how many they are. -/
def escape? : List Char → Option (Char × Nat)
  | [] => none
  | c :: rest =>
    match c with
    | '0' => some ('\x00', 1)
    | 'a' => some ('\x07', 1)
    | 'b' => some ('\x08', 1)
    | 't' | '\t' => some ('\t', 1)
    | 'n' => some ('\n', 1)
    | 'v' => some ('\x0b', 1)
    | 'f' => some ('\x0c', 1)
    | 'r' => some ('\r', 1)
    | 'e' => some ('\x1b', 1)
    | ' ' | '"' | '/' | '\\' => some (c, 1)
    | 'N' => some ('\x85', 1)
    | '_' => some ('\xa0', 1)
    | 'L' => some ('\u2028', 1)
    | 'P' => some ('\u2029', 1)
    | 'x' => (Text.numbered? 2 rest).map (·, 3)
    | 'u' => (Text.numbered? 4 rest).map (·, 5)
    | 'U' => (Text.numbered? 8 rest).map (·, 9)
    | _ => none

/-- A piece of a quoted scalar without blanks. -/
structure QuotedPiece where
  text : List Char
  /-- Whether a backslash has cancelled the line break after the piece. -/
  joined : Bool
  after : Cursor

/-- Read a piece between quotes of the given kind after `text`. -/
def readQuotedPiece (double : Bool) : (fuel : Nat) → List Char → Cursor → Option QuotedPiece
  | 0, text, c => some ⟨text, false, c⟩
  | fuel + 1, text, c =>
    match c.rest with
    | [] => some ⟨text, false, c⟩
    | d :: rest =>
      if endsWord (some d) then some ⟨text, false, c⟩
      else if !double && d = '\'' then
        if rest.head? = some '\'' then readQuotedPiece double fuel (text ++ [d]) (c.skip 2)
        else some ⟨text, false, c⟩
      else if double && d = '"' then some ⟨text, false, c⟩
      else if double && d = '\\' then
        match (c.skip 1).lineBreak? with
        | some (_, c') => some ⟨text, true, c'⟩
        | none =>
          match escape? rest with
          | some (e, n) => readQuotedPiece double fuel (text ++ [e]) (c.skip (n + 1))
          | none => none
      else readQuotedPiece double fuel (text ++ [d]) (c.skip 1)

/-- Read on in a quoted scalar after `text`. -/
def readQuotedFrom (double : Bool) :
    (fuel : Nat) → List Char → Cursor → Option (List Char × Cursor)
  | 0, _, _ => none
  | fuel + 1, text, c =>
    if c.atDocumentSign || c.rest.isEmpty then none
    else do
      let piece ← readQuotedPiece double c.rest.length text c
      if piece.after.peek? = some (if double then '"' else '\'') then
        some (piece.text, piece.after.skip 1)
      else
        let gap := if piece.joined then Gap.breaks none [] else .blanks []
        let (gap, c) ← gap.read 0 piece.after
        readQuotedFrom double fuel (piece.text ++ gap.text) c

/-- Read a quoted scalar from its opening quote on. -/
def readQuoted (double : Bool) (c : Cursor) : Option (List Char × Cursor) :=
  readQuotedFrom double (c.rest.length + 1) [] (c.skip 1)

/-! ## Block scalars -/

/-- What becomes of the breaks at the end of a block. -/
inductive Chomp where
  | strip | clip | keep
  deriving Repr, DecidableEq

/-- The head of a block: its chomping and the indentation it gives. -/
def blockHead? (c : Cursor) : Option (Chomp × Option Nat × Cursor) :=
  let chomp? := fun (c : Cursor) => match c.peek? with
    | some '+' => some Chomp.keep
    | some '-' => some Chomp.strip
    | _ => none
  let digit? := fun (c : Cursor) => c.peek?.bind fun d =>
    if d.isDigit then some (d.toNat - '0'.toNat) else none
  let (chomp, indent, c) := match chomp? c with
    | some k => (k, digit? (c.skip 1), c.skip (if (digit? (c.skip 1)).isSome then 2 else 1))
    | none => match digit? c with
      | some n => ((chomp? (c.skip 1)).getD .clip, some n,
          c.skip (if (chomp? (c.skip 1)).isSome then 2 else 1))
      | none => (Chomp.clip, none, c)
  if indent = some 0 then none else some (chomp, indent, c)

/-- The empty lines in front of a block line. `indent` is the indentation of the
block where it is known; `widest` is the deepest column seen. -/
def blockBreaks (indent : Option Nat) :
    (fuel : Nat) → (widest : Nat) → List Char → Cursor → Option (Nat × List Char × Cursor)
  | 0, widest, breaks, c => some (widest, breaks, c)
  | fuel + 1, widest, breaks, c =>
    let c := match indent with
      | none => c.skipWhile (· = ' ')
      | some n =>
        c.skip (min (n - c.mark.column) (c.rest.takeWhile (· = ' ')).length)
    let widest := max widest c.mark.column
    if indent.all (c.mark.column < ·) && c.peek? = some '\t' then none
    else match c.lineBreak? with
      | some (b, c') => blockBreaks indent fuel widest (breaks ++ [b]) c'
      | none => some (widest, breaks, c)

/-- The lines of a block after `text`. `last` is the break of the line before and
`empty` the breaks after it; `blank` says whether that line began with a blank. -/
def blockLines (folded : Bool) (indent : Nat) :
    (fuel : Nat) → (text last empty : List Char) → (blank : Bool) → Cursor →
    Option (List Char × List Char × List Char × Cursor)
  | 0, text, last, empty, _, c => some (text, last, empty, c)
  | fuel + 1, text, last, empty, blank, c =>
    if c.mark.column ≠ indent || c.rest.isEmpty then some (text, last, empty, c)
    else
      let blank' := c.peek?.any isBlank
      let joint :=
        if folded && last.head? = some '\n' && !blank && !blank' then
          if empty.isEmpty then [' '] else []
        else last
      let (line, c) := c.span (!isBreak ·)
      let (last, c) := match c.lineBreak? with
        | some (b, c') => ([b], c')
        | none => ([], c)
      match blockBreaks (some indent) (c.rest.length + 1) 0 [] c with
      | none => none
      | some (_, empty', c) =>
        blockLines folded indent fuel (text ++ joint ++ empty ++ line) last empty' blank' c

/-- Read a block scalar from its indicator on. `parent` is the column of the
enclosing collection, -1 at the outermost level. -/
def readBlock (folded : Bool) (parent : Int) (c : Cursor) : Option (List Char × Cursor) := do
  let (chomp, given, c) ← blockHead? (c.skip 1)
  let c := c.skipBlanksAndComment
  if !c.atLineEnd then none
  else
    let c := c.skipBreak
    let given := given.map fun n => parent.toNat + n
    let (widest, empty, c) ← blockBreaks given (c.rest.length + 1) 0 [] c
    let indent := given.getD (max (max widest (parent + 1).toNat) 1)
    let (text, last, empty, c) ←
      blockLines folded indent (c.rest.length + 1) [] [] empty false c
    let ending := match chomp with
      | .strip => []
      | .clip => last
      | .keep => last ++ empty
    some (text ++ ending, c)

end VaultSearch.Yaml
