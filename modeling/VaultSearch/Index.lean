import Std.Data.ExtTreeMap
import VaultSearch.Config
import VaultSearch.Snapshot.Codec
import VaultSearch.Text.Words

/-!
# The inverted index

An index keeps a slot for each document that it has taken in and, for
each term, the postings: in which slots and fields the term occurs,
ascending. Removing a document leaves its slot empty. The index knows
the terms of each document, so that a removal visits only their
postings, and the token counts that the ranking needs.
-/

namespace VaultSearch

/-! ## Documents

A document of the vault as the index takes it in. Its path identifies
it; file name and folder are read off the path.
-/

structure Document where
  path : String
  basename : String
  folder : String
  aliases : Option String := none
  content : Option String := none
  deriving Repr, DecidableEq

namespace Document

/-- The folder of a path, empty at the root of the vault, and the file name. -/
def splitPath (path : String) : List Char × List Char :=
  (Text.splitAtLast? '/' path.toList).getD ([], path.toList)

/-- A file name without its extension; a leading full stop begins none. -/
def stem (name : List Char) : List Char :=
  match Text.splitAtLast? '.' name with
  | some (c :: cs, _) => c :: cs
  | _ => name

/-- The document at `path`. -/
def ofPath (path : String) (content aliases : Option String) : Document :=
  let (folder, name) := splitPath path
  { path, basename := String.ofList (stem name), folder := String.ofList folder,
    aliases, content }

/-- The text of a field, if the document has one. -/
def text? (d : Document) : Field → Option String
  | .basename => some d.basename
  | .aliases => d.aliases
  | .folder => some d.folder
  | .content => d.content

end Document

/-! ## Postings, slots and terms -/

/-- A term occurs in field `field` of the document in slot `doc`. -/
structure Posting where
  doc : Nat
  field : Field
  deriving Repr, DecidableEq

/-- What the index remembers about a document: its path, every term that it
contributed, and the number of tokens of each field. -/
structure Entry where
  path : String
  terms : List String
  lengths : PerField Nat
  deriving Repr, DecidableEq

/-- A document whose fields are analysed into terms, distinct and ascending. -/
structure Analysed where
  path : String
  fields : PerField (List String)
  deriving Repr, DecidableEq

abbrev Postings := Std.ExtTreeMap String (Array Posting)

structure Index where
  docs : Array (Option Entry) := #[]
  postings : Postings := {}
  /-- The sum of the field lengths over all live documents. -/
  totals : PerField Nat := ⟨0, 0, 0, 0⟩
  /-- The number of live documents. -/
  live : Nat := 0

/-! ### Postings -/

namespace Postings

/-- Add a posting of a term, after those that it has. -/
def add (m : Postings) (term : String) (p : Posting) : Postings :=
  m.alter term fun ps => some ((ps.getD #[]).push p)

/-- Remove the postings of a term in one slot, and the term with its last one. -/
def dropDoc (slot : Nat) (m : Postings) (term : String) : Postings :=
  m.alter term fun ps =>
    (ps.map fun ps => ps.filter (·.doc ≠ slot)).filter fun ps => !ps.isEmpty

end Postings

namespace Index

/-- The document in a slot, unless it was removed. -/
def entry? (ix : Index) (slot : Nat) : Option Entry := ix.docs[slot]?.join

/-- The postings of a term. -/
def postingsOf (ix : Index) (term : String) : List Posting :=
  (ix.postings.getD term #[]).toList

/-- The number of documents that a term occurs in; their postings stand side
by side. -/
def docFreq (ix : Index) (term : String) : Nat :=
  ((ix.postingsOf term).map (·.doc)).eraseReps.length

/-- The (field, term) pairs of a document, field by field. -/
def occurrences (d : Analysed) : List (Field × String) :=
  Field.all.flatMap fun f => (d.fields.get f).map fun t => (f, t)

/-- What is kept of a document that is taken in. -/
def entryOf (d : Analysed) : Entry :=
  { path := d.path
    terms := Text.distinctSorted ((occurrences d).map (·.2))
    lengths := PerField.of fun f => (d.fields.get f).length }

/-- Take in a document; it gets the next slot. -/
def insert (ix : Index) (d : Analysed) : Index :=
  let slot := ix.docs.size
  { docs := ix.docs.push (some (entryOf d))
    postings := (occurrences d).foldl (fun m (f, t) => m.add t ⟨slot, f⟩) ix.postings
    totals := PerField.of fun f => ix.totals.get f + (d.fields.get f).length
    live := ix.live + 1 }

/-- Remove the document in a slot. -/
def remove (ix : Index) (slot : Nat) : Index :=
  match ix.entry? slot with
  | none => ix
  | some e =>
    { docs := ix.docs.setIfInBounds slot none
      postings := e.terms.foldl (Postings.dropDoc slot) ix.postings
      totals := PerField.of fun f => ix.totals.get f - e.lengths.get f
      live := ix.live - 1 }

/-- Refuse an index whose parts do not fit together. -/
def check (ix : Index) : Except Rejection Unit :=
  if (ix.docs.filter Option.isSome).size ≠ ix.live then .error .liveCount
  else if ix.postings.toList.any fun (_, ps) => ps.any fun p => (ix.entry? p.doc).isNone then
    .error .danglingPosting
  else .ok ()

end Index

/-! ## The binary form of an index

The slots in order, the postings of each term in ascending order of the
terms, the field totals, and the number of live documents.
-/

/-- The number of a field, which stands for it in a binary form. -/
def Field.number : Field → Nat
  | basename => 0
  | aliases => 1
  | folder => 2
  | content => 3

def Field.ofNumber? : Nat → Option Field
  | 0 => some basename
  | 1 => some aliases
  | 2 => some folder
  | 3 => some content
  | _ => none

/-- One number for each field, in the order of the fields. -/
def PerField.codec (c : Codec Nat) : Codec (PerField Nat) :=
  (c.pair (c.pair (c.pair c))).imap (fun (a, b, c, d) => some ⟨a, b, c, d⟩)
    fun v => (v.basename, v.aliases, v.folder, v.content)

def Posting.codec : Codec Posting :=
  (Codec.u32.pair Codec.u32).imap (fun (doc, f) => (Field.ofNumber? f).map (⟨doc, ·⟩))
    fun p => (p.doc, p.field.number)

def Entry.codec : Codec Entry :=
  (Codec.text.pair (Codec.text.list.pair (PerField.codec Codec.u32))).imap
    (fun (path, terms, lengths) => some ⟨path, terms, lengths⟩)
    fun e => (e.path, e.terms, e.lengths)

/-- Of two lists of postings for one term the later one counts. -/
def Postings.codec : Codec Postings :=
  (Codec.text.pair Posting.codec.list).list.imap
    (fun l => some (l.foldl (fun m (t, ps) => m.insert t ps.toArray) {}))
    fun m => m.toList.map fun (t, ps) => (t, ps.toList)

def Index.codec : Codec Index :=
  (Entry.codec.option.list.pair
    (Postings.codec.pair ((PerField.codec Codec.u64).pair Codec.u64))).imap
    (fun (docs, postings, totals, live) => some ⟨docs.toArray, postings, totals, live⟩)
    fun ix => (ix.docs.toList, ix.postings, ix.totals, ix.live)

end VaultSearch
