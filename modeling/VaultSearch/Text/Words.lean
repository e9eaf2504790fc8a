import Std.Data.TreeMap
import Std.Data.TreeSet

/-!
# Pieces of text

Operations on lists of characters and on words that several parts of the
library share: cuts, sets of words, lines, and numbers written in digits.
-/

/-! ## Cuts and sets of words

Small operations on lists of characters that several parts of the
library share: the cut at the last occurrence of a character, the
removal of a leading text, and `distinctSorted`, which lists the members
of a set of words in ascending order of code points. `mem_distinctSorted`
says that the set of words is kept and `pairwise_distinctSorted` that each
word comes once, in order.
-/

namespace VaultSearch.Text

/-- The text before and after the last `sep`, if there is one. -/
def splitAtLast? (sep : Char) (cs : List Char) : Option (List Char × List Char) :=
  match cs.reverse.span (· ≠ sep) with
  | (_, []) => none
  | (after, _ :: before) => some (before.reverse, after.reverse)

/-- The text before and after the first `sep`, if there is one. -/
def splitAtFirst? (sep : Char) (cs : List Char) : Option (List Char × List Char) :=
  match cs.span (· ≠ sep) with
  | (_, []) => none
  | (before, _ :: after) => some (before, after)

/-- What follows `lead` in `cs`, if `cs` begins with it. -/
def dropLead? (lead cs : List Char) : Option (List Char) := lead.isPrefixOf? cs

/-- Whether `part` occurs as a block of consecutive characters. -/
def contains (part : List Char) : List Char → Bool
  | [] => part.isEmpty
  | c :: cs => part.isPrefixOf (c :: cs) || contains part cs

/-- The distinct words of a list in ascending order of code points. -/
def distinctSorted (words : List String) : List String :=
  (Std.TreeSet.ofList words).toList

theorem mem_distinctSorted {words : List String} {w : String} :
    w ∈ distinctSorted words ↔ w ∈ words := by
  simp [distinctSorted, Std.TreeSet.mem_toList]

theorem lt_of_compare_eq_lt {v w : String} (h : compare v w = .lt) : v < w :=
  compareOfLessAndEq_eq_lt.mp h

theorem pairwise_distinctSorted (words : List String) :
    (distinctSorted words).Pairwise (· < ·) :=
  Std.TreeSet.ordered_toList.imp lt_of_compare_eq_lt

/-- The keys of a map are listed in ascending order. -/
theorem pairwise_keys {β : Type} (m : Std.TreeMap String β) : m.keys.Pairwise (· < ·) :=
  Std.TreeMap.ordered_keys.imp lt_of_compare_eq_lt

theorem nodup_keys {β : Type} (m : Std.TreeMap String β) : m.keys.Nodup :=
  (pairwise_keys m).imp String.ne_of_lt

/-- The words of a list joined by a separator. -/
def joinWith (sep : String) (words : List String) : String := sep.intercalate words

end VaultSearch.Text

/-! ## Lines

A line ends at a line feed; a carriage return just before the line feed
belongs to the line end. What follows the last line feed is a line of
its own unless it is empty, and a carriage return stays in it.
-/

namespace VaultSearch

/-- A line of a file and its row, counted from zero. -/
structure Line where
  text : String
  row : Nat
  deriving Repr, DecidableEq

/-- A line that ended in a line feed, without the carriage return before it. -/
def Line.withoutReturn (cs : List Char) : List Char :=
  if cs.getLast? = some '\r' then cs.dropLast else cs

/-- The texts of the lines of `content`. -/
def Line.texts (content : String) : List (List Char) :=
  let pieces := content.toList.splitOnP (· = '\n')
  let ended := pieces.dropLast.map Line.withoutReturn
  match pieces.getLast? with
  | none | some [] => ended
  | some rest => ended ++ [rest]

/-- The numbered lines of `content`. -/
def Line.split (content : String) : List Line :=
  (Line.texts content).zipIdx.map fun (text, row) => ⟨String.ofList text, row⟩

end VaultSearch

/-! ## Digits

Numbers and characters written by digits to a base. Digits go on from
`9` with `a`, in either case of letters.
-/

namespace VaultSearch.Text

/-- The digit that a character writes. -/
def digit? (c : Char) : Option Nat :=
  if c.isDigit then some (c.toNat - '0'.toNat)
  else if c.isAlpha then some (c.toLower.toNat - 'a'.toNat + 10)
  else none

def isDigitOf (base : Nat) (c : Char) : Bool := (digit? c).any (· < base)

/-- Whether the text consists of digits to a base, of which there is one. -/
def areDigits (base : Nat) (cs : List Char) : Bool := !cs.isEmpty && cs.all (isDigitOf base)

/-- The number that digits write; any other character counts for zero. -/
def natOf (base : Nat) (cs : List Char) : Nat :=
  cs.foldl (fun n c => n * base + (digit? c).getD 0) 0

/-- The number that a text of digits writes. -/
def natOf? (base : Nat) (cs : List Char) : Option Nat :=
  if areDigits base cs then some (natOf base cs) else none

/-- The character with a number, if there is one. -/
def charOf? (n : Nat) : Option Char :=
  if h : n.isValidChar then some (Char.ofNatAux n h) else none

/-- The character that `n` hexadecimal digits at the front of a text name. -/
def numbered? (n : Nat) (cs : List Char) : Option Char :=
  if (cs.take n).length = n then (natOf? 16 (cs.take n)).bind charOf? else none

end VaultSearch.Text
