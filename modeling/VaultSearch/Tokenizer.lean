import VaultSearch.Config
import VaultSearch.Text.LetterCase
import VaultSearch.Text.Property

/-!
# Tokens

Text is cut at blanks and brackets into segments, and a segment loses
the characters at its ends that are neither letters nor numbers. A short
segment is a token as it stands. Besides, a segment with CJK characters
is cut into words by a segmenter, because those scripts write no spaces;
any other segment is cut at its punctuation and at the humps of camel
case. A single character is a token only if it is CJK.
-/

namespace VaultSearch

/-- Cuts CJK text into words. -/
structure Segmenter where
  ready : Bool
  /-- The words of a text; the flag asks for a guess at unknown words. -/
  cut : Bool → String → Except Fault (List String)

/-- A segmenter that was never made ready. -/
def Segmenter.cold : Segmenter := ⟨false, fun _ _ => .error .segmenterUnavailable⟩

/-- Whether a character belongs to a CJK, Kana or Hangul block. -/
def isCjk (c : Char) : Bool :=
  let n := c.toNat
  (0x1100 ≤ n && n ≤ 0x11ff) || (0x3040 ≤ n && n ≤ 0x309f) || (0x30a0 ≤ n && n ≤ 0x30ff) ||
  (0x3130 ≤ n && n ≤ 0x318f) || (0x3400 ≤ n && n ≤ 0x4dbf) || (0x4e00 ≤ n && n ≤ 0x9fff) ||
  (0xac00 ≤ n && n ≤ 0xd7af) || (0xf900 ≤ n && n ≤ 0xfaff) || (0x20000 ≤ n && n ≤ 0x2a6df)

structure Tokenizer where
  segmenter : Option Segmenter
  cjkPatch : Bool
  useHmm : Bool

namespace Tokenizer

open Text

def ofConfig (c : Config) (segmenter : Option Segmenter) : Tokenizer :=
  ⟨segmenter, c.index.cjkPatch, c.index.useHmm⟩

/-! ## Segments -/

/-- The brackets that end a segment. -/
def brackets : List Char :=
  ['(', ')', '[', ']', '\x7b', '\x7d', '<', '>', '（', '）', '【', '】', '「', '」', '『', '』',
    '《', '》', '〈', '〉']

/-- Whether a character ends a segment. -/
def isSeparator (c : Char) : Bool := isBlank c || brackets.contains c

/-- The segments of a text, without those that hold no letter or number. -/
def segments (text : List Char) : List (List Char) :=
  ((text.splitOnP isSeparator).map (trimMatches fun c => !isAlphanumeric c)).filter (· ≠ [])

/-- Whether a word is worth indexing: no lone character unless it is CJK, and
no mere punctuation. -/
def isMeaningful : List Char → Bool
  | [] => false
  | [c] => isCjk c
  | cs => cs.any isAlphanumeric

/-- A segment with fewer characters is a token as it stands. -/
def rawLimit : Nat := 12

/-! ## Words of a segment -/

/-- Whether a part begins at the capital `c`, which stands between `prev` and
`rest`: after a small letter or a number, or as the last of several capitals
before a small letter. -/
def startsPart (prev c : Char) (rest : List Char) : Bool :=
  isUppercase c &&
    (isLowercase prev || isNumeric prev || (isUppercase prev && rest.head?.any isLowercase))

/-- The parts of a word in camel case. -/
def camelParts : List Char → List (List Char)
  | [] => [[]]
  | [c] => [[c]]
  | p :: c :: rest =>
    let parts := camelParts (c :: rest)
    if startsPart p c rest then [p] :: parts
    else (p :: parts.headD []) :: parts.tail

/-- The words between the punctuation of a segment, cut at their humps. -/
def plainWords (segment : List Char) : List (List Char) :=
  (((segment.splitOnP fun c => !isAlphanumeric c).filter (· ≠ [])).flatMap camelParts).filter
    isMeaningful

/-- The words that the segmenter finds, or the whole segment if it fails. -/
def dictionaryWords (k : Tokenizer) (segment : List Char) : List (List Char) :=
  let words := match k.segmenter with
    | some s => s.cut k.useHmm (String.ofList segment)
    | none => .error .segmenterUnavailable
  match words with
  | .ok words => (words.map fun w => trim w.toList).filter isMeaningful
  | .error _ => [segment]

/-- Whether a segment goes to the segmenter. -/
def consults (k : Tokenizer) (segment : List Char) : Bool := k.cjkPatch && segment.any isCjk

/-- The tokens of one segment, in no particular order. -/
def segmentTokens (k : Tokenizer) (segment : List Char) : List (List Char) :=
  (if segment.length < rawLimit && isMeaningful segment then [segment] else []) ++
    if k.consults segment then k.dictionaryWords segment else plainWords segment

/-- The distinct tokens of a text in ascending order. -/
def tokenize (k : Tokenizer) (text : String) : List String :=
  distinctSorted (((segments text.toList).flatMap k.segmentTokens).map String.ofList)

end Tokenizer

end VaultSearch
