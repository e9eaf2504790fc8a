import VaultSearch.Index
import VaultSearch.Query
import VaultSearch.TopK

/-!
# Ranked search

A query term reaches an indexed term when it is that term, when it is a
beginning of it, or when few edits lead from one to the other. Each
posting of a reached term adds to the score of its document: the weight
of the way it was reached, times the boost of the field, times the
rarity of the term, times a factor that falls with the length of the
field. The documents of the query terms are then intersected or united,
and the hits are listed by score and path.
-/

namespace VaultSearch

/-! ## Edit distance

`editDistance a b` is the least number of insertions, deletions and
substitutions of single characters that turn `a` into `b`. It is
computed one row at a time: the row after the characters read so far of
`a` holds their distance to each beginning of `b`. There are two rows.
The next one is written over the one before the last, entry by entry,
and then they change places.
-/

/-- The row of the characters read so far, and the one that is written over. -/
structure EditRows where
  last : Array Nat
  next : Array Nat

namespace EditRows

/-- Write the entry of the next row for the beginning of the second text that
ends in `d`, its character with offset `j`; `c` is the new character of the
first. -/
def writeEntry (c : Char) (rows : EditRows) : (entry : Char × Nat) → EditRows
  | (d, j) =>
    let above := rows.last.getD (j + 1) 0
    let left := rows.next.getD j 0
    let diagonal := rows.last.getD j 0
    let entry := min (min (above + 1) (left + 1)) (diagonal + if c = d then 0 else 1)
    { rows with next := rows.next.setIfInBounds (j + 1) entry }

/-- Write the next row, for the character with offset `i` of the first text, and
let the rows change places. -/
def writeRow (b : List Char) (rows : EditRows) : (entry : Char × Nat) → EditRows
  | (c, i) =>
    let begun := { rows with next := rows.next.setIfInBounds 0 (i + 1) }
    let written := b.zipIdx.foldl (writeEntry c) begun
    { last := written.next, next := written.last }

/-- The rows before any character is read. -/
def first (b : List Char) : EditRows :=
  { last := Array.range (b.length + 1), next := Array.replicate (b.length + 1) 0 }

end EditRows

/-- The edit distance of two texts. -/
def editDistance (a b : List Char) : Nat :=
  if a.isEmpty then b.length
  else if b.isEmpty then a.length
  else (a.zipIdx.foldl (EditRows.writeRow b) (EditRows.first b)).last.getD b.length 0

/-! ## Reaching terms and ranking documents -/

/-- The options of one search. -/
structure SearchOptions where
  prefixMatch : Bool
  fuzzyMatch : Bool
  combineWith : Combine
  deriving Repr, DecidableEq

namespace SearchOptions

def ofConfig (s : SearchSettings) : SearchOptions := ⟨s.prefixMatch, s.fuzzyMatch, s.combineWith⟩

/-- The options with the switches of a query. -/
def withToggles (o : SearchOptions) (t : Toggles) : SearchOptions :=
  { o with prefixMatch := t.prefixMatch, fuzzyMatch := t.fuzzyMatch }

def withCombine (o : SearchOptions) (c : Combine) : SearchOptions := { o with combineWith := c }

end SearchOptions

/-! ### Expansion of a query term -/

/-- A term up to this many characters is not matched fuzzily. -/
def fuzzyFreeChars : Nat := 3

/-- The largest edit distance that is ever allowed. -/
def fuzzyMaxDistance : Nat := 6

/-- The edit distance allowed for a term of `chars` characters. -/
def fuzzyDistance (chars : Nat) (proportion : Float) : Nat :=
  if chars ≤ fuzzyFreeChars then 0
  else min (Float.round (Float.ofNat chars * proportion)).toUInt64.toNat fuzzyMaxDistance

/-- How a query term reaches an indexed term. -/
inductive Reach where
  | exact
  | extension
  | near (distance limit : Nat)
  deriving Repr, DecidableEq

/-- The weight of a way to reach a term. -/
def Reach.weight {S : Type} [Score S] : Reach → S
  | exact => 1.0
  | extension => 0.375
  | near d limit => 0.45 * (1.0 - Score.ofNat d / (Score.ofNat limit + 1.0))

/-- The indexed terms that begin with `q`, without `q` itself. Terms that begin alike stand
together, so the scan starts after `q` and stops at the first that does not begin with it. -/
def extensions (ix : Index) (q : String) : List String :=
  (ix.postings.keys.dropWhile fun t => !decide (q < t)).takeWhile fun t =>
    q.toList.isPrefixOf t.toList

/-- The indexed terms within `limit` edits of `q`, without `q` itself, each with its
distance. A term whose length differs by more than `limit` is not looked into. -/
def neighbours (ix : Index) (q : String) (limit : Nat) : List (String × Nat) :=
  let chars := q.toList.length
  ix.postings.keys.filterMap fun t =>
    let other := t.toList.length
    if t = q || chars + limit < other || other + limit < chars then none
    else
      let d := editDistance q.toList t.toList
      if d ≤ limit then some (t, d) else none

/-- The indexed terms that query term `q` reaches, each time that it reaches one, with the way. -/
def ways (ix : Index) (o : SearchOptions) (s : SearchSettings) (q : String) :
    List (String × Reach) :=
  let chars := q.toList.length
  let limit := fuzzyDistance chars s.fuzzyProportion
  (if ix.postings.contains q then [(q, .exact)] else []) ++
  (if o.prefixMatch && max s.minPrefixLength 1 ≤ chars then
    (extensions ix q).map fun t => (t, .extension)
  else []) ++
  (if o.fuzzyMatch && 0 < limit then
    (neighbours ix q limit).map fun (t, d) => (t, .near d limit)
  else [])

/-- Keep the greatest weight at which a term was reached. -/
def offer {S : Type} [Score S] (best : Std.TreeMap String S) (way : String × Reach) :
    Std.TreeMap String S :=
  best.alter way.1 fun w => some (Score.max (w.getD 0.0) way.2.weight)

/-- The indexed terms that a query term reaches, ascending, each with the
greatest weight among its ways. -/
def expand {S : Type} [Score S] (ix : Index) (o : SearchOptions) (s : SearchSettings)
    (q : String) : List (String × S) :=
  ((ways ix o s q).foldl offer {}).toList

/-! ### Scores -/

section Scores

variable {S : Type} [Score S]

/-- The rarity of a term that occurs in `docFreq` of `documents` documents. -/
def idf (documents docFreq : Nat) : S :=
  let n : S := Score.ofNat documents
  let df : S := Score.ofNat docFreq
  Score.ln (1.0 + (n - df + 0.5) / (df + 0.5))

/-- The mean length of a field over the live documents. -/
def averageLength (ix : Index) (f : Field) : S :=
  if ix.live = 0 then 0.0 else Score.ofNat (ix.totals.get f) / Score.ofNat ix.live

/-- The factor of one occurrence in a field of `length` tokens: the longer the
field beside the average, the smaller. -/
def saturation (length : Nat) (average : S) : S :=
  let k1 : S := 1.2
  let b : S := 0.7
  let norm : S :=
    if Score.lt 0.0 average then 1.0 - b + b * (Score.ofNat length / average) else 1.0
  (k1 + 1.0) / (1.0 + k1 * norm)

/-- What one posting of a term adds to the score of its document. -/
def postingScore (ix : Index) (s : SearchSettings) (weight rarity : S) (e : Entry) (f : Field) :
    S :=
  weight * Score.ofFloat (s.weights.get f) * rarity *
    saturation (e.lengths.get f) (averageLength ix f)

/-! ### Tallies of documents -/

/-- What a search has found out about a document: its score so far, the query
terms that reach it, and the terms that they reached. -/
structure Tally (S : Type) where
  score : S
  queryTerms : List String
  matchedTerms : List String

abbrev Tallies (S : Type) := Std.TreeMap Nat (Tally S)

def Tally.zero : Tally S := ⟨0.0, [], []⟩

/-- Both tallies of a document together. -/
def Tally.merge (a b : Tally S) : Tally S :=
  ⟨a.score + b.score, a.queryTerms ++ b.queryTerms, a.matchedTerms ++ b.matchedTerms⟩

/-- Count one posting of the term `t`, reached from `q`. -/
def Tally.count (q t : String) (score : S) (tally : Option (Tally S)) : Tally S :=
  let tally := tally.getD .zero
  ⟨tally.score + score, [q], tally.matchedTerms ++ [t]⟩

/-- The documents that one query term reaches. With `only`, the others are left
out. -/
def termTallies (ix : Index) (o : SearchOptions) (s : SearchSettings) (only : Option Nat)
    (q : String) : Tallies S :=
  (expand ix o s q).foldl (fun tallies (t, weight) =>
    let rarity : S := idf ix.live (ix.docFreq t)
    (ix.postingsOf t).foldl (fun tallies p =>
      if only.any (· ≠ p.doc) then tallies
      else match ix.entry? p.doc with
        | none => tallies
        | some e =>
          tallies.alter p.doc fun tally =>
            some (Tally.count q t (postingScore ix s weight rarity e p.field) tally))
      tallies) {}

/-- The documents of two tallies: those in both, or those in either. -/
def combineTallies (mode : Combine) (a b : Tallies S) : Tallies S :=
  match mode with
  | .and => a.filterMap fun doc tally => b[doc]?.map tally.merge
  | .or =>
    b.foldl (fun a doc tally => a.alter doc fun old => some ((old.getD .zero).merge tally)) a

/-- The documents that the query terms reach together. -/
def combinedTallies (ix : Index) (o : SearchOptions) (s : SearchSettings) (only : Option Nat)
    (terms : List String) : Tallies S :=
  match terms with
  | [] => {}
  | q :: qs =>
    qs.foldl (fun acc q => combineTallies o.combineWith acc (termTallies ix o s only q))
      (termTallies ix o s only q)

end Scores

/-! ### Hits -/

/-- A file that matches a query: the query terms that reach it, ascending, and
the indexed terms of it that they reach, distinct and ascending. -/
structure Hit (S : Type) where
  path : String
  queryTerms : List String
  matchedTerms : List String
  score : S
  deriving Repr

/-- The hit that a tally of the document at `path` amounts to. -/
def Tally.toHit {S : Type} (path : String) (tally : Tally S) : Hit S :=
  { path, queryTerms := tally.queryTerms
    matchedTerms := Text.distinctSorted tally.matchedTerms, score := tally.score }

/-- Whether hit `a` is listed before hit `b` or beside it: a better score comes
first, and of equal scores the smaller path. -/
def Hit.rankedBefore {S : Type} [Score S] (a b : Hit S) : Bool :=
  if Score.lt b.score a.score then true
  else if Score.lt a.score b.score then false
  else !decide (b.path < a.path)

/-- The hits of analysed query terms, one for each document, in no order of merit. -/
def hits {S : Type} [Score S] (ix : Index) (o : SearchOptions) (s : SearchSettings)
    (only : Option Nat) (terms : List String) : List (Hit S) :=
  (combinedTallies ix o s only terms).toList.filterMap fun (doc, tally) =>
    (ix.entry? doc).map fun e => tally.toHit e.path

/-- The hits of analysed query terms, best first, at most `maxResults` of them. -/
def searchTerms {S : Type} [Score S] (ix : Index) (o : SearchOptions) (s : SearchSettings)
    (only : Option Nat) (terms : List String) : List (Hit S) :=
  ((hits ix o s only terms).mergeSort Hit.rankedBefore).take s.maxResults

end VaultSearch
