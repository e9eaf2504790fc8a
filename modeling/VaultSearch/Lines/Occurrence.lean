import VaultSearch.Text.LetterCase
import VaultSearch.Text.Property
import VaultSearch.Text.Utf8
import VaultSearch.Tokenizer

/-!
# Occurrences of terms in a line

An occurrence of a term is a block of the line that spells the term,
under simple case folding unless case counts. Outside prefix mode a term
that does not end in a CJK character may not be followed by a letter of
another script, so that it does not end in the middle of a word.
Occurrences are found from left to right and do not overlap; one that is
refused does not stand in the way of the next.

The search for a term counts bytes, as the text is stored, and an
`Occurrence` counts characters.
-/

namespace VaultSearch

/-- An accepted occurrence of the term with number `term`. -/
structure Occurrence where
  term : Nat
  start : Nat
  length : Nat
  deriving Repr, DecidableEq

/-- Whether an offset lies in the occurrence. -/
def Occurrence.covers (o : Occurrence) (p : Nat) : Bool := o.start ≤ p && p < o.start + o.length

/-- A term to look for. It is never empty, so that a search always advances. A bound on the size
of a pattern, beyond which a term would be passed over, is left out. -/
structure TermPattern where
  chars : List Char
  nonempty : chars ≠ []

namespace TermPattern

/-- The pattern of a term, unless it is empty. -/
def ofTerm? (term : String) : Option TermPattern :=
  if h : term.toList = [] then none else some ⟨term.toList, h⟩

def compile (terms : List String) : List TermPattern := terms.filterMap ofTerm?

theorem length_pos (p : TermPattern) : 0 < p.chars.length :=
  List.length_pos_iff.mpr p.nonempty

end TermPattern

/-- A block of a text, from one byte offset up to another. -/
structure ByteSpan where
  start : Nat
  stop : Nat
  deriving Repr, DecidableEq

/-- How the characters of a term and of a line are compared. -/
structure Matching where
  caseSensitive : Bool
  inPrefixMode : Bool

namespace Matching

/-- Whether two characters spell the same letter. -/
def same (m : Matching) (a b : Char) : Bool :=
  if m.caseSensitive then a = b else Text.foldCase a = Text.foldCase b

/-- Whether the text begins with a block that spells the term. -/
def begins (m : Matching) : (term text : List Char) → Bool
  | [], _ => true
  | _ :: _, [] => false
  | a :: term, b :: text => m.same a b && m.begins term text

/-- Whether the text goes on with a letter of a script that writes spaces. -/
def continuesWord (rest : List Char) : Bool :=
  rest.head?.any fun c => Text.isAlphabetic c && !isCjk c

/-- Whether an occurrence of the term may not be followed by a letter. -/
def guards (m : Matching) (p : TermPattern) : Bool :=
  !m.inPrefixMode && !p.chars.getLast?.any isCjk

/-- The leftmost block that spells the term, in a text whose first byte has
offset `pos`. -/
def findFrom? (m : Matching) (p : TermPattern) : (pos : Nat) → List Char → Option ByteSpan
  | _, [] => none
  | pos, c :: text =>
    if m.begins p.chars (c :: text) then
      some ⟨pos, pos + Text.byteLength ((c :: text).take p.chars.length)⟩
    else m.findFrom? p (pos + c.utf8Size) text

/-- The leftmost block at or after the byte offset `pos` that spells the term. -/
def findAt? (m : Matching) (p : TermPattern) (text : List Char) (pos : Nat) : Option ByteSpan :=
  m.findFrom? p pos (Text.fromByte pos text)

theorem findFrom?_bounds {m : Matching} {p : TermPattern} : ∀ {text : List Char} {pos : Nat}
    {found : ByteSpan}, m.findFrom? p pos text = some found →
      pos ≤ found.start ∧ found.start < found.stop ∧ found.stop ≤ pos + Text.byteLength text
  | [], _, _, h => by cases h
  | c :: text, pos, found, h => by
      rw [findFrom?] at h
      have hc := Char.utf8Size_pos c
      split at h
      · cases h
        have htake := Text.byteLength_take_le (c :: text) p.chars.length
        have hpos : 0 < Text.byteLength ((c :: text).take p.chars.length) := by
          obtain ⟨n, hn⟩ := Nat.exists_eq_succ_of_ne_zero (Nat.ne_of_gt p.length_pos)
          rw [hn, List.take_succ_cons, Text.byteLength_cons]
          omega
        dsimp only
        omega
      · have hrest := findFrom?_bounds h
        rw [Text.byteLength_cons]
        omega

/-- What is found lies in the part of the text that was searched, and it has a
character. -/
theorem findAt?_bounds {m : Matching} {p : TermPattern} {text : List Char} {pos : Nat}
    {found : ByteSpan} (h : m.findAt? p text pos = some found) :
    pos ≤ found.start ∧ found.start < found.stop ∧ found.stop ≤ Text.byteLength text := by
  have hbounds := findFrom?_bounds h
  rcases Text.fromByte_bounds text pos with hnil | hle
  · rw [hnil] at hbounds
    rw [Text.byteLength_nil] at hbounds
    omega
  · omega

/-- The accepted blocks from the byte offset `pos` on. The search goes on after
an accepted block, and one character after the start of a refused one. -/
def scan (m : Matching) (p : TermPattern) (text : List Char) (pos : Nat) : List ByteSpan :=
  match _h : m.findAt? p text pos with
  | none => []
  | some found =>
    if m.guards p && continuesWord (Text.fromByte found.stop text) then
      m.scan p text (found.start + Text.firstSize (Text.fromByte found.start text))
    else found :: m.scan p text found.stop
termination_by Text.byteLength text - pos
decreasing_by
  all_goals
    have hbounds := findAt?_bounds ‹_›
    have hsize := Text.firstSize_pos (Text.fromByte found.start text)
    omega

/-- The occurrences of each term in a line, term by term. -/
def occurrences (m : Matching) (patterns : List TermPattern) (text : List Char) :
    List Occurrence :=
  let offsets := Text.charOffsets text
  patterns.zipIdx.flatMap fun (p, i) =>
    (m.scan p text 0).map fun found =>
      let start := offsets.getD found.start 0
      ⟨i, start, offsets.getD found.stop 0 - start⟩

end Matching

end VaultSearch
