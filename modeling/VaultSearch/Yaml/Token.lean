import VaultSearch.Text.Utf8
import VaultSearch.Yaml.Scalar

/-!
# YAML tokens

`Token.scan` cuts a text into tokens. In a block the columns decide:
a deeper column opens a collection and a shallower one closes it. That a
node was a key is known only at the colon after it, so a node that may
be a key leaves a `Candidate`, by which the tokens that announce the key
are put in front of it afterwards. A candidate lapses at the end of its
line or after 1024 characters.
-/

namespace VaultSearch.Yaml

inductive Token where
  | version (major minor : Nat)
  | tagHandle (handle lead : String)
  | documentStart
  | documentEnd
  | blockSequenceStart
  | blockMappingStart
  | blockEnd
  | flowSequenceStart
  | flowSequenceEnd
  | flowMappingStart
  | flowMappingEnd
  | blockEntry
  | flowEntry
  | key
  | value
  | reference (name : String)
  | anchor (name : String)
  | tag (handle suffix : String)
  | scalar (text : String) (plain : Bool)
  deriving Repr, DecidableEq

/-- A node that the next colon may turn into a key. -/
structure Candidate where
  /-- Whether the node has to be a key, for it begins an entry of a mapping. -/
  required : Bool
  /-- The number of tokens in front of the node. -/
  place : Nat
  mark : Mark
  deriving Repr, DecidableEq

/-- The state between two tokens. -/
structure Scan where
  cursor : Cursor
  tokens : Array Token := #[]
  /-- The column of the innermost block collection, -1 outside all. -/
  indent : Int := -1
  /-- The columns of the enclosing block collections. -/
  outer : List Int := []
  /-- Whether a key may begin here. -/
  keyAllowed : Bool := true
  candidate : Option Candidate := none
  /-- The candidates of the collections around the open flow collections. -/
  around : List (Option Candidate) := []

namespace Scan

def inFlow (s : Scan) : Bool := !s.around.isEmpty

def emit (s : Scan) (t : Token) : Scan := { s with tokens := s.tokens.push t }

/-- Emit a token of `n` characters. -/
def emitOver (s : Scan) (n : Nat) (t : Token) : Scan :=
  { s.emit t with cursor := s.cursor.skip n }

/-- Put a token in front of the one at `place`. -/
def insertAt (s : Scan) (place : Nat) (t : Token) : Scan :=
  { s with tokens := s.tokens.insertIdxIfInBounds place t }

/-- Close the block collections that lie deeper than a column. -/
def closeTo (column : Int) (s : Scan) : Scan :=
  if s.inFlow then s
  else
    let (closed, left) := (s.indent :: s.outer).span (column < ·)
    { s with
      tokens := s.tokens ++ Array.replicate closed.length Token.blockEnd
      indent := left.headD (-1)
      outer := left.tail }

/-- Open a block collection at a column that lies deeper than the innermost one,
with its start token at `place`. -/
def openAt (s : Scan) (column place : Nat) (t : Token) : Scan :=
  if s.inFlow || (column : Int) ≤ s.indent then s
  else { s.insertAt place t with indent := column, outer := s.indent :: s.outer }

/-- Give up the candidate; one that has to be a key may not be given up. -/
def dropCandidate (s : Scan) : Option Scan :=
  if s.candidate.any (·.required) then none else some { s with candidate := none }

/-- Note that a node begins here. -/
def noteCandidate (s : Scan) : Option Scan :=
  if !s.keyAllowed then some s
  else do
    let s ← s.dropCandidate
    let required := !s.inFlow && s.indent = (s.cursor.mark.column : Int)
    some { s with candidate := some ⟨required, s.tokens.size, s.cursor.mark⟩ }

/-- The candidates that have not lapsed at the place reached. -/
def lapse (s : Scan) : Option Scan := do
  let here := s.cursor.mark
  let check : Option Candidate → Option (Option Candidate)
    | none => some none
    | some k =>
      if k.mark.line < here.line || k.mark.index + 1024 < here.index then
        if k.required then none else some none
      else some (some k)
  let candidate ← check s.candidate
  let around ← s.around.mapM check
  some { s with candidate, around }

/-- Move to the next token. -/
def skipToToken : (fuel : Nat) → Scan → Scan
  | 0, s => s
  | fuel + 1, s =>
    let c := if s.cursor.mark.index = 0 && s.cursor.peek? = some '\ufeff' then s.cursor.skip 1
      else s.cursor
    let c := c.skipWhile fun d => d = ' ' || ((s.inFlow || !s.keyAllowed) && d = '\t')
    let c := if c.peek? = some '#' then c.skipWhile (!isBreak ·) else c
    match c.lineBreak? with
    | some (_, c) =>
      skipToToken fuel { s with cursor := c, keyAllowed := s.keyAllowed || !s.inFlow }
    | none => { s with cursor := c }

/-! ## Directives, names and tags -/

/-- A number of at most nine digits. -/
def directiveNumber? (c : Cursor) : Option (Nat × Cursor) :=
  let (digits, c) := c.span (·.isDigit)
  if digits.isEmpty || digits.length > 9 then none
  else some (digits.foldl (fun n d => n * 10 + (d.toNat - '0'.toNat)) 0, c)

/-- The octets of a run of percent escapes, and the number of their characters. -/
def percentOctets : List Char → List UInt8 × Nat
  | '%' :: a :: b :: rest =>
    match Text.natOf? 16 [a, b] with
    | some n =>
      let (more, count) := percentOctets rest
      (UInt8.ofNat n :: more, count + 3)
    | none => ([], 0)
  | _ => ([], 0)

def isUriChar (inBrackets : Bool) (c : Char) : Bool :=
  isNameChar c || ";/?:@&=+$.%!~*'()".toList.contains c ||
    (inBrackets && (c = ',' || c = '[' || c = ']'))

/-- The characters of a tag, with percent escapes resolved. -/
def uri? (inBrackets : Bool) : (fuel : Nat) → List Char → Cursor → Option (List Char × Cursor)
  | 0, text, c => some (text, c)
  | fuel + 1, text, c =>
    match c.peek? with
    | some '%' =>
      let (octets, n) := percentOctets c.rest
      if n = 0 then none
      else (Utf8.decode? octets).bind fun t =>
        uri? inBrackets fuel (text ++ t.toList) (c.skip n)
    | some d =>
      if isUriChar inBrackets d then uri? inBrackets fuel (text ++ [d]) (c.skip 1)
      else some (text, c)
    | none => some (text, c)

/-- A handle such as `!`, `!!` or `!name!` at the cursor. -/
def handle? (c : Cursor) : Option (List Char × Cursor) :=
  if c.peek? ≠ some '!' then none
  else
    let (name, c) := (c.skip 1).span isNameChar
    if c.peek? = some '!' then some ('!' :: name ++ ['!'], c.skip 1)
    else some ('!' :: name, c)

/-- A directive line. -/
def directive? (c : Cursor) : Option (Token × Cursor) := do
  let (name, c) := (c.skip 1).span isNameChar
  if name.isEmpty || !endsWord c.peek? then none
  else
    let c := c.skipWhile isBlank
    let (token, c) ← match String.ofList name with
      | "YAML" => do
        let (major, c) ← directiveNumber? c
        if c.peek? ≠ some '.' then none
        else
          let (minor, c) ← directiveNumber? (c.skip 1)
          some (Token.version major minor, c)
      | "TAG" => do
        let (handle, c) ← handle? c
        if !(handle = ['!'] || (handle.length ≥ 2 && handle.getLast? = some '!'))
            || !c.peek?.any isBlank then none
        else
          let (lead, c) ← uri? true c.rest.length [] (c.skipWhile isBlank)
          if lead.isEmpty || !endsWord c.peek? then none
          else some (Token.tagHandle (String.ofList handle) (String.ofList lead), c)
      | _ => none
    let c := c.skipBlanksAndComment
    if c.atLineEnd then some (token, c.skipBreak) else none

/-- The name of an anchor or alias, after its sign. -/
def name? (c : Cursor) : Option (String × Cursor) :=
  let (name, c) := (c.skip 1).span isNameChar
  if name.isEmpty || !(endsWord c.peek? || c.peek?.any ("?:,]\x7d%@\x60".toList.contains ·)) then
    none
  else some (String.ofList name, c)

/-- A tag, with its handle set apart; the handle is empty for a tag in full and
for a lone exclamation mark. -/
def tag? (inFlow : Bool) (c : Cursor) : Option (Token × Cursor) := do
  let (handle, suffix, c) ←
    if c.peekAt? 1 = some '<' then do
      let (suffix, c) ← uri? true c.rest.length [] (c.skip 2)
      if suffix.isEmpty || c.peek? ≠ some '>' then none
      else some ([], suffix, c.skip 1)
    else do
      let (handle, c) ← handle? c
      if handle.length ≥ 2 && handle.getLast? = some '!' then
        let (suffix, c) ← uri? false c.rest.length [] c
        if suffix.isEmpty then none else some (handle, suffix, c)
      else
        let (suffix, c) ← uri? false c.rest.length handle.tail c
        if suffix.isEmpty then some ([], ['!'], c) else some (['!'], suffix, c)
  if (inFlow && c.peek? = some ',') || endsWord c.peek? then
    some (.tag (String.ofList handle) (String.ofList suffix), c)
  else none

/-! ## One token -/

/-- Leave all block collections, for a document or directive begins. -/
def leaveBlocks (s : Scan) : Option Scan :=
  (s.closeTo (-1)).dropCandidate.map ({ · with keyAllowed := false })

/-- An indicator that begins an entry or a key of a block collection. -/
def blockIndicator (s : Scan) (start sign : Token) : Option Scan := do
  let s ← if s.inFlow then some s
    else if !s.keyAllowed then none
    else some (s.openAt s.cursor.mark.column s.tokens.size start)
  let s ← s.dropCandidate
  some ({ s with keyAllowed := sign = Token.blockEntry || !s.inFlow }.emitOver 1 sign)

/-- The colon before a value. -/
def valueIndicator (s : Scan) : Option Scan :=
  match s.candidate with
  | some k =>
    let s := (s.insertAt k.place .key).openAt k.mark.column k.place .blockMappingStart
    some ({ s with candidate := none, keyAllowed := false }.emitOver 1 .value)
  | none => do
    let s ← if s.inFlow then some s
      else if !s.keyAllowed then none
      else some (s.openAt s.cursor.mark.column s.tokens.size .blockMappingStart)
    some ({ s with keyAllowed := !s.inFlow }.emitOver 1 .value)

/-- A node of one token, which may be a key. -/
def node (s : Scan) (read : Cursor → Option (Token × Cursor)) : Option Scan := do
  let s ← s.noteCandidate
  let (t, c) ← read s.cursor
  some { s.emit t with cursor := c, keyAllowed := false }

def openFlow (s : Scan) (t : Token) : Option Scan := do
  let s ← s.noteCandidate
  some ({ s with around := s.candidate :: s.around, candidate := none,
                 keyAllowed := true }.emitOver 1 t)

def closeFlow (s : Scan) (t : Token) : Option Scan := do
  let s ← s.dropCandidate
  let s := match s.around with
    | [] => s
    | k :: around => { s with candidate := k, around }
  some ({ s with keyAllowed := false }.emitOver 1 t)

def blockScalar (s : Scan) (folded : Bool) : Option Scan := do
  let s ← s.dropCandidate
  let (text, c) ← readBlock folded s.indent s.cursor
  some { s.emit (.scalar (String.ofList text) false) with cursor := c, keyAllowed := true }

def plainScalar (s : Scan) : Option Scan := do
  let s ← s.noteCandidate
  let p ← readPlain s.inFlow (s.indent + 1).toNat s.cursor
  some { s.emit (.scalar (String.ofList p.text) true) with
    cursor := p.after, keyAllowed := p.broken }

def quotedScalar (s : Scan) (double : Bool) : Option Scan :=
  s.node fun c => (readQuoted double c).map fun (text, c) =>
    (.scalar (String.ofList text) false, c)

/-- Read the token that begins with the character `c`. -/
def tokenAt (s : Scan) (c : Char) : Option Scan :=
  let cursor := s.cursor
  let wordEnds := endsWord (cursor.peekAt? 1)
  if cursor.mark.column = 0 && c = '%' then do
    let s ← s.leaveBlocks
    let (t, cursor) ← directive? s.cursor
    some { s.emit t with cursor }
  else if cursor.startsWithSign '-' then s.leaveBlocks.map (·.emitOver 3 .documentStart)
  else if cursor.startsWithSign '.' then s.leaveBlocks.map (·.emitOver 3 .documentEnd)
  else match c with
    | '[' => s.openFlow .flowSequenceStart
    | '{' => s.openFlow .flowMappingStart
    | ']' => s.closeFlow .flowSequenceEnd
    | '}' => s.closeFlow .flowMappingEnd
    | ',' => s.dropCandidate.map fun s => { s with keyAllowed := true }.emitOver 1 .flowEntry
    | '-' =>
      if wordEnds then s.blockIndicator .blockSequenceStart .blockEntry else s.plainScalar
    | '?' =>
      if s.inFlow || wordEnds then s.blockIndicator .blockMappingStart .key else s.plainScalar
    | ':' => if s.inFlow || wordEnds then s.valueIndicator else s.plainScalar
    | '*' => s.node fun c => (name? c).map fun (n, c) => (.reference n, c)
    | '&' => s.node fun c => (name? c).map fun (n, c) => (.anchor n, c)
    | '!' => s.node (tag? s.inFlow)
    | '\'' => s.quotedScalar false
    | '"' => s.quotedScalar true
    | '|' => if s.inFlow then none else s.blockScalar false
    | '>' => if s.inFlow then none else s.blockScalar true
    | '#' | '%' | '@' | '\x60' => none
    | _ => if endsWord (some c) then none else s.plainScalar

/-- Read the remaining tokens. -/
def run : (fuel : Nat) → Scan → Option Scan
  | 0, s => some s
  | fuel + 1, s => do
    let s ← (s.skipToToken (s.cursor.rest.length + 1)).lapse
    let s := s.closeTo s.cursor.mark.column
    match s.cursor.peek? with
    | none => (s.closeTo (-1)).dropCandidate
    | some c => run fuel (← s.tokenAt c)

end Scan

/-- The tokens of a text; `none` if they break a rule of the language. -/
def Token.scan (text : List Char) : Option (List Token) :=
  if text.all isPrintable then
    ((Scan.run (text.length + 1) { cursor := ⟨text, {}⟩ }).map (·.tokens.toList))
  else none

end VaultSearch.Yaml
