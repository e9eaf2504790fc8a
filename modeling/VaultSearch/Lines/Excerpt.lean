import VaultSearch.Lines.Occurrence
import VaultSearch.Text.Words
import VaultSearch.TopK

/-!
# The lines of a hit

The lines of a file that show why it is a hit: the terms that are looked
for, the lines that are best for them with their marks, and the excerpt
of such a line.
-/

namespace VaultSearch

/-! ## The terms worth showing

A hit names query terms and the indexed terms that they reached. Of
these, the lines of a file are searched for the query terms that are
indexed terms themselves, or for the reached terms if there are none;
and a term that occurs within another one is left out.
-/

/-- The terms that the reduction starts from. -/
def sourceTerms (queryTerms matchedTerms : List String) : List String :=
  let kept := queryTerms.filter matchedTerms.contains
  if kept.isEmpty then matchedTerms else kept

/-- Whether `term` is a part of another term of `source`. -/
def isCovered (source : List String) (term : String) : Bool :=
  source.any fun other => other ≠ term && Text.contains term.toList other.toList

/-- The distinct terms of the source, without the empty one and those that are
part of another, in order of first occurrence. -/
def shownTerms (queryTerms matchedTerms : List String) : List String :=
  let source := sourceTerms queryTerms matchedTerms
  source.eraseDups.filter fun term => term ≠ "" && !isCovered source term

/-! ## The best lines

Every line in which a shown term occurs is a candidate. Its score is the
number of characters of each term that occurs in it, and a small bonus
for each further occurrence. The best candidates are kept and
highlighted: the last term that occurs anchors a window of characters,
and the offsets that an occurrence covers inside the window are marked.
-/

/-- A line with the offset of its anchor and the offsets that are marked,
ascending. All of them count characters of the full text. -/
structure MatchedLine (S : Type) where
  text : String
  row : Nat
  col : Nat
  positions : List Nat
  score : S
  deriving Repr

/-- A line in which a term occurs. -/
structure Candidate (S : Type) where
  line : Line
  occurrences : List Occurrence
  score : S

structure LinesMatcher where
  caseSensitive : Bool
  truncate : TruncateSettings

namespace LinesMatcher

def ofConfig (c : Config) : LinesMatcher := ⟨c.search.caseSensitive, c.truncate⟩

def matching (m : LinesMatcher) (inPrefixMode : Bool) : Matching := ⟨m.caseSensitive, inPrefixMode⟩

/-! ### Scores -/

/-- The bonus for a further occurrence of a term. -/
def repeatBonus {S : Type} [Score S] : S := 0.01

/-- The number of characters of the term with number `i`. -/
def termLength (patterns : List TermPattern) (i : Nat) : Nat :=
  (patterns[i]?.map fun p => p.chars.length).getD 0

/-- Add an occurrence to a score; `acc.1` lists the terms that have been seen. -/
def addOccurrence {S : Type} [Score S] (patterns : List TermPattern) (acc : List Nat × S)
    (o : Occurrence) : List Nat × S :=
  if acc.1.contains o.term then (acc.1, acc.2 + repeatBonus)
  else (o.term :: acc.1, acc.2 + Score.ofNat (termLength patterns o.term))

/-- The score of a line: the length of a term at its first occurrence, a bonus
at each further one. -/
def lineScore {S : Type} [Score S] (patterns : List TermPattern) (os : List Occurrence) : S :=
  (os.foldl (addOccurrence patterns) ([], 0.0)).2

/-- Candidates with a better score are greater, and of equal ones the one that
stands first in the file. -/
def compareCandidates {S : Type} [Score S] (a b : Candidate S) : Ordering :=
  if Score.lt a.score b.score then .lt
  else if Score.lt b.score a.score then .gt
  else compare b.line.row a.line.row

/-! ### Highlighting -/

/-- The first occurrence of the last term that occurs. -/
def anchor? (terms : Nat) (os : List Occurrence) : Option Occurrence :=
  (List.range terms).reverse.findSome? fun i => os.find? fun o => o.term = i

/-- Whether a text has CJK characters. -/
def isWide (text : List Char) : Bool := text.any isCjk

/-- The column and the marked offsets of a line. The end of the window is a sum of numbers
without a bound, not of machine words. -/
def highlight (m : LinesMatcher) (kind : ExcerptKind) (terms : Nat) (text : List Char)
    (os : List Occurrence) : Nat × List Nat :=
  match anchor? terms os with
  | none => (0, [])
  | some a =>
    let limit := m.truncate.limit kind (isWide text)
    let first := a.start - limit.maxPreChars
    let last := min (a.start + a.length + limit.maxPostChars) text.length
    (a.start, (List.range' first (last - first)).filter fun p => os.any (·.covers p))

/-! ### Selection -/

/-- The patterns of the terms that are worth showing. -/
def shownPatterns (queryTerms matchedTerms : List String) : List TermPattern :=
  TermPattern.compile (shownTerms queryTerms matchedTerms)

/-- A line in which a term occurs, with its score. -/
def candidate? {S : Type} [Score S] (matching : Matching) (patterns : List TermPattern)
    (line : Line) : Option (Candidate S) :=
  let os := matching.occurrences patterns line.text.toList
  if os.isEmpty then none else some ⟨line, os, lineScore patterns os⟩

/-- Offer a line to the best ones, if it is a candidate. -/
def offer {S : Type} [Score S] (matching : Matching) (patterns : List TermPattern)
    (best : TopK (Candidate S)) (line : Line) : TopK (Candidate S) :=
  match candidate? matching patterns line with
  | none => best
  | some c => (best.push compareCandidates c).1

/-- A candidate with its anchor and its marked offsets. -/
def present {S : Type} (m : LinesMatcher) (kind : ExcerptKind) (terms : Nat) (c : Candidate S) :
    MatchedLine S :=
  let (col, positions) := m.highlight kind terms c.line.text.toList c.occurrences
  ⟨c.line.text, c.line.row, col, positions, c.score⟩

/-- The best `topK` lines for the terms of a hit, best first. -/
def matchLines {S : Type} [Score S] (m : LinesMatcher) (lines : List Line)
    (queryTerms matchedTerms : List String) (topK : Nat) (kind : ExcerptKind)
    (inPrefixMode : Bool) : List (MatchedLine S) :=
  let patterns := shownPatterns queryTerms matchedTerms
  if patterns.isEmpty || topK = 0 then []
  else
    let best := lines.foldl (offer (m.matching inPrefixMode) patterns) { capacity := topK }
    (best.toSortedList compareCandidates).map (m.present kind patterns.length)

/-! ### Context -/

/-- Whether a line is too short to belong to a paragraph. -/
def isBoundary (limit : TruncateLimit) (line : Line) : Bool :=
  (Text.trim line.text.toList).length < limit.boundaryLineMinChars

/-- The lines of the paragraph around the line with number `row`. -/
def context (lines : List Line) (row : Nat) (limit : TruncateLimit) : List Line :=
  match lines.span (·.row ≠ row) with
  | (_, []) => []
  | (before, center :: after) =>
    ((before.reverse.take limit.maxPreLines).takeWhile (!isBoundary limit ·)).reverse ++
      center :: (after.take limit.maxPostLines).takeWhile (!isBoundary limit ·)

end LinesMatcher

/-! ## Excerpts

An excerpt is a line cut down to the characters around its anchor. An
end that was cut off is marked by an ellipsis, and the marked offsets
are shifted to the excerpt's own text. `Excerpt.bracketed` shows the
marks as brackets.
-/

structure Excerpt where
  text : String
  positions : List Nat
  deriving Repr, DecidableEq

def ellipsis : Char := '…'

/-- Cut a line down to the characters that `limit` allows around its column. The sum of a
column and a limit is that of numbers without a bound, not of machine words. -/
def MatchedLine.excerpt {S : Type} (line : MatchedLine S) (limit : TruncateLimit) : Excerpt :=
  let cs := line.text.toList
  let first := min (line.col - limit.maxPreChars) cs.length
  let last := max (min (line.col + limit.maxPostChars) cs.length) first
  let lead := if 0 < first then [ellipsis] else []
  let tail := if last < cs.length then [ellipsis] else []
  { text := String.ofList (lead ++ (cs.drop first).take (last - first) ++ tail)
    positions := (line.positions.filter fun p => first ≤ p && p < last).map
      fun p => p - first + lead.length }

namespace Excerpt

/-- Write the characters from offset `i` on, with a bracket wherever the marked
part begins or ends; `inside` says whether a bracket is open. -/
def bracketFrom (marked : Nat → Bool) : (i : Nat) → (inside : Bool) → List Char → List Char
  | _, inside, [] => if inside then [']'] else []
  | i, inside, c :: cs =>
    let bracket := match marked i, inside with
      | true, false => ['[']
      | false, true => [']']
      | _, _ => []
    bracket ++ c :: bracketFrom marked (i + 1) (marked i) cs

/-- The text with its marked parts in brackets. -/
def bracketed (e : Excerpt) : String :=
  String.ofList (bracketFrom e.positions.contains 0 false e.text.toList)

end Excerpt

end VaultSearch
