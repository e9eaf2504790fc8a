import VaultSearch.Text.Words
import VaultSearch.Toml.Reader

/-!
# Quoted texts

TOML writes a text in one of four ways: between double quotes, where a
backslash begins an escape, or between single quotes, where every
character stands for itself; and each of them on one line or, between
three quotes, on any number of lines. `Quoted.read` reads all of them,
and `Quoted.render` takes the first way in which the text stands without
escapes.
-/

namespace VaultSearch.Toml.Quoted

/-! ## Reading -/

/-- The characters that stand for themselves in any quoted text. -/
def isTextChar (c : Char) : Bool := c = '\t' || (' ' ≤ c && c ≠ '\x7f')

def isLiteralChar (c : Char) : Bool := isTextChar c && c ≠ '\''

def isBasicChar (c : Char) : Bool := isTextChar c && c ≠ '"' && c ≠ '\\'

/-- The character that `n` hexadecimal digits name. -/
def numbered (n : Nat) : Reader Char := fun s => (Text.numbered? n s).map fun c => (c, s.drop n)

/-- What follows the backslash of an escape. -/
def escaped : Reader Char
  | 'b' :: rest => some ('\x08', rest)
  | 't' :: rest => some ('\t', rest)
  | 'n' :: rest => some ('\n', rest)
  | 'f' :: rest => some ('\x0c', rest)
  | 'r' :: rest => some ('\r', rest)
  | '"' :: rest => some ('"', rest)
  | '\\' :: rest => some ('\\', rest)
  | 'u' :: rest => numbered 4 rest
  | 'U' :: rest => numbered 8 rest
  | _ => none

/-- A character of a text between double quotes. -/
def basicChar : Reader Char
  | '\\' :: rest => escaped rest
  | s => Reader.satisfying isBasicChar s

/-- A text between double quotes on one line. -/
def basic : Reader (List Char) := do
  Reader.char '"'
  let text ← Reader.many basicChar
  Reader.char '"'
  return text

/-- A text between single quotes on one line. -/
def literal : Reader (List Char) := do
  Reader.char '\''
  let text ← Reader.span isLiteralChar
  Reader.char '\''
  return text

/-- One or two quotes inside a block. -/
def innerQuotes (quote : Char) : Reader (List Char) := do
  let quotes ← Reader.span (· = quote)
  if quotes.length = 1 || quotes.length = 2 then return quotes else failure

/-- The three quotes that close a block, and up to two more that belong to its
text. -/
def closingQuotes (quote : Char) : Reader (List Char) := fun s =>
  let n := min (s.takeWhile (· = quote)).length 5
  if n < 3 then none else some (List.replicate (n - 3) quote, s.drop n)

/-- A backslash at the end of a line, which joins it to what comes next. -/
def lineJoin : Reader Unit := do
  Reader.char '\\'
  blanks
  lineBreak
  let _ ← Reader.many (do blanks; lineBreak)
  blanks

/-- A text on any number of lines, made of `piece`s. A line break right after the
opening quotes does not count. -/
def block (quote : Char) (piece : Reader (List Char)) : Reader (List Char) := do
  Reader.exactly (String.ofList [quote, quote, quote])
  let _ ← Reader.optional lineBreak
  let pieces ← Reader.many piece
  let last ← closingQuotes quote
  return pieces.flatten ++ last

/-- A line break of a block, which is read as a line feed. -/
def brokenLine : Reader (List Char) := do lineBreak; return ['\n']

def basicBlock : Reader (List Char) :=
  block '"' (brokenLine <|> innerQuotes '"' <|> (do lineJoin; return []) <|>
    (do return [← basicChar]))

def literalBlock : Reader (List Char) :=
  block '\'' (brokenLine <|> innerQuotes '\'' <|>
    (do return [← Reader.satisfying isLiteralChar]))

/-- A quoted text on one line. -/
def readLine : Reader String := do return String.ofList (← basic <|> literal)

/-- A quoted text. -/
def read : Reader String := do
  return String.ofList (← basicBlock <|> basic <|> literalBlock <|> literal)

/-! ## Writing -/

/-- The control characters that only an escape can write. -/
def isControl (c : Char) : Bool := (c < ' ' && c ≠ '\t' && c ≠ '\n') || c = '\x7f'

/-- Whether a run of more than `n` quotes occurs in the text, of which `seen` come
before it. -/
def hasRun (quote : Char) (n : Nat) : (seen : Nat) → List Char → Bool
  | _, [] => false
  | seen, c :: cs =>
    if c = quote then n < seen + 1 || hasRun quote n (seen + 1) cs else hasRun quote n 0 cs

/-- The last four hexadecimal digits of a number, in upper case. -/
def hex4 (n : Nat) : List Char :=
  [n / 4096 % 16, n / 256 % 16, n / 16 % 16, n % 16].map fun d => (Nat.digitChar d).toUpper

/-- The escape of a character that does not stand for itself. -/
def escape (c : Char) : List Char :=
  match c with
  | '\x08' => ['\\', 'b']
  | '\t' => ['\\', 't']
  | '\n' => ['\\', 'n']
  | '\x0c' => ['\\', 'f']
  | '\r' => ['\\', 'r']
  | '"' => ['\\', '"']
  | '\\' => ['\\', '\\']
  | _ => '\\' :: 'u' :: hex4 c.toNat

/-- A text with the escapes it needs between double quotes. `quotes` of them may
follow each other as they are, and `seen` have done so. -/
def escapeAll (inBlock : Bool) (quotes : Nat) : (seen : Nat) → List Char → List Char
  | _, [] => []
  | seen, c :: cs =>
    if c = '"' && seen < quotes then c :: escapeAll inBlock quotes (seen + 1) cs
    else if isBasicChar c && c ≠ '\t' || (c = '\n' && inBlock) then
      c :: escapeAll inBlock quotes 0 cs
    else escape c ++ escapeAll inBlock quotes 0 cs

/-- The text in front of a block: a block of several lines begins with a break,
which does not count. -/
def blockLead (cs : List Char) : List Char := if cs.contains '\n' then ['\n'] else []

def renderBasic (cs : List Char) : List Char := '"' :: escapeAll false 0 0 cs ++ ['"']

def renderLiteral (cs : List Char) : List Char := '\'' :: cs ++ ['\'']

def renderBasicBlock (cs : List Char) : List Char :=
  ['"', '"', '"'] ++ blockLead cs ++ escapeAll true 2 0 cs ++ ['"', '"', '"']

def renderLiteralBlock (cs : List Char) : List Char :=
  ['\'', '\'', '\''] ++ blockLead cs ++ cs ++ ['\'', '\'', '\'']

/-- The characters of the quoted form of a text. -/
def renderChars (cs : List Char) : List Char :=
  let controls := cs.any isControl
  let lines := cs.contains '\n'
  let backslashes := cs.contains '\\'
  if !controls && !lines && !backslashes && !cs.contains '"' then renderBasic cs
  else if !controls && !lines && !cs.contains '\'' then renderLiteral cs
  else if !controls && !backslashes && !hasRun '"' 2 0 cs then renderBasicBlock cs
  else if !controls && !hasRun '\'' 2 0 cs then renderLiteralBlock cs
  else if lines then renderBasicBlock cs
  else renderBasic cs

/-- The quoted form of a text. -/
def render (s : String) : String := String.ofList (renderChars s.toList)

end VaultSearch.Toml.Quoted
