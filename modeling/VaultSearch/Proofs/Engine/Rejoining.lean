import VaultSearch.Proofs.Engine.OwnWords
import VaultSearch.Proofs.Tokenizer.Parts

/-!
# A search depends on the pieces of its text

Separators cut a text into pieces, and no token looks across a cut: the tokens
of a text are those of its pieces (`mem_tokenize_append`). Terms are a set, so
that it matters to a search neither in which order the pieces stand, nor how
often, nor what separates them (`search_rejoined`).
-/

namespace VaultSearch

namespace Tokenizer

variable {k : Tokenizer} {c : Char} {pieces : List (List Char)} {text : List Char}

/-- The text is made of the pieces, one after the other with a separator between them. -/
inductive Joined : List (List Char) → List Char → Prop where
  | last (piece : List Char) : Joined [piece] piece
  | cons {c : Char} (hc : isSeparator c = true) (piece : List Char) {pieces : List (List Char)}
      {rest : List Char} (h : Joined pieces rest) : Joined (piece :: pieces) (piece ++ c :: rest)

/-- The segments of a text that is joined are those of its pieces. -/
theorem Joined.segments_eq (h : Joined pieces text) : segments text = pieces.flatMap segments := by
  induction h with
  | last piece => rw [List.flatMap_singleton]
  | cons hc piece h ih => rw [segments_append_cons hc, ih, List.flatMap_cons]

/-- Pieces without a character do not matter. -/
theorem Joined.mem_segments_iff {text' : List Char} (h : Joined pieces text)
    (hpieces : ∀ piece, piece ≠ [] →
      (piece ∈ pieces ↔ piece ∈ text'.splitOnP isSeparator)) {segment : List Char} :
    segment ∈ segments text ↔ segment ∈ segments text' := by
  have hne : ∀ {piece}, segment ∈ segments piece → piece ≠ [] := by
    rintro piece hsegment rfl
    exact List.not_mem_nil hsegment
  rw [h.segments_eq, segments_eq_flatMap_splitOnP (fun _ => id) text', List.mem_flatMap,
    List.mem_flatMap]
  exact exists_congr fun piece => and_congr_left fun hsegment => hpieces piece (hne hsegment)

theorem mem_tokenize_append (hc : isSeparator c = true) {a b token : String} :
    token ∈ k.tokenize (a ++ String.singleton c ++ b) ↔
      token ∈ k.tokenize a ∨ token ∈ k.tokenize b := by
  have hlist : (a ++ String.singleton c ++ b).toList = a.toList ++ c :: b.toList := by
    rw [String.toList_append, String.toList_append, String.toList_singleton, List.append_assoc,
      List.singleton_append]
  rw [mem_tokenize, mem_tokenize, mem_tokenize, hlist, segments_append_cons hc]
  simp only [List.mem_append, or_and_right, exists_or]

end Tokenizer

namespace Engine

open Tokenizer (Joined isSeparator)

variable {e : Engine} {pieces : List (List Char)} {text rejoined : String}

/-- Two texts with the same tokens have the same terms. -/
theorem terms_eq_of_tokens
    (h : ∀ token, token ∈ e.tokenizer.tokenize rejoined ↔ token ∈ e.tokenizer.tokenize text) :
    e.terms rejoined = e.terms text := by
  refine List.Pairwise.eq_of_mem_iff (r := (· < ·)) (e.pairwise_terms rejoined)
    (e.pairwise_terms text) fun term => ?_
  rw [mem_terms, mem_terms]
  exact exists_congr fun token => and_congr_left' (h token)

theorem terms_rejoined (h : Joined pieces rejoined.toList) (hpieces : ∀ piece, piece ≠ [] →
    (piece ∈ pieces ↔ piece ∈ text.toList.splitOnP isSeparator)) :
    e.terms rejoined = e.terms text := by
  refine terms_eq_of_tokens fun token => ?_
  rw [Tokenizer.mem_tokenize, Tokenizer.mem_tokenize]
  exact exists_congr fun segment => and_congr_left' (h.mem_segments_iff hpieces)

/-- The terms of a text are those of its lines. -/
theorem mem_terms_iff_line {term : String} :
    term ∈ e.terms text ↔ ∃ line ∈ Line.split text, term ∈ e.terms line.text := by
  have hlines : ∀ {segment}, segment ∈ Tokenizer.segments text.toList ↔
      ∃ line ∈ Line.split text, segment ∈ Tokenizer.segments line.text.toList := fun {segment} => by
    rw [← Tokenizer.flatMap_segments_texts, List.mem_flatMap]
    exact exists_mem_split_iff.symm
  simp only [mem_terms, Tokenizer.mem_tokenize, hlines]
  constructor
  · rintro ⟨token, ⟨segment, ⟨line, hline, hsegment⟩, hword⟩, rfl⟩
    exact ⟨line, hline, token, ⟨segment, hsegment, hword⟩, rfl⟩
  · rintro ⟨line, hline, token, ⟨segment, hsegment, hword⟩, rfl⟩
    exact ⟨token, ⟨segment, ⟨line, hline, hsegment⟩, hword⟩, rfl⟩

/-- At a separator the tokens of a text fall apart into those before and those behind it. So an
engine in any state gives the same answer to a text and to its pieces in any order, repeated and
joined by any separators, and the terms of a text are those of its lines. -/
theorem search_rejoined (S : Type) [Score S] (k : Tokenizer) (e : Engine) :
    (∀ (a b : String) (c : Char), isSeparator c = true → ∀ token,
      token ∈ k.tokenize (a ++ String.singleton c ++ b) ↔
        token ∈ k.tokenize a ∨ token ∈ k.tokenize b) ∧
    (∀ (text rejoined : String) (pieces : List (List Char)), Joined pieces rejoined.toList →
      (∀ piece, piece ≠ [] → (piece ∈ pieces ↔ piece ∈ text.toList.splitOnP isSeparator)) →
      ∀ o, (e.search rejoined o : Except Fault (List (Hit S))) = e.search text o) ∧
    ∀ text term, term ∈ e.terms text ↔ ∃ line ∈ Line.split text, term ∈ e.terms line.text := by
  refine ⟨fun a b c hc token => Tokenizer.mem_tokenize_append hc,
    fun text rejoined pieces hjoined hpieces o => ?_, fun text term => mem_terms_iff_line⟩
  rw [search, search, terms_rejoined hjoined hpieces]

/-- The words of a search in another order, in other separators and one of them twice. -/
theorem search_rejoined_in_brackets :
    let e := ((Engine.new {} none).add [Document.ofPath "a.md" (some "an apple pie") none]).1
    let o : SearchOptions := ⟨true, false, .and⟩
    let pieces := ["apple".toList, "pie".toList, "apple".toList]
    Joined pieces "apple(pie)apple".toList ∧
      (∀ piece, piece ≠ [] → (piece ∈ pieces ↔ piece ∈ "pie apple".toList.splitOnP isSeparator)) ∧
      (e.search "apple(pie)apple" o : Except Fault (List (Hit Float))) =
        e.search "pie apple" o := by
  intro e o pieces
  have hjoined : Joined pieces "apple(pie)apple".toList :=
    .cons (c := '(') (by decide +kernel) _ (.cons (c := ')') (by decide +kernel) _ (.last _))
  have hpieces : ∀ piece, piece ≠ [] →
      (piece ∈ pieces ↔ piece ∈ "pie apple".toList.splitOnP isSeparator) := by
    have hsplit : "pie apple".toList.splitOnP isSeparator = ["pie".toList, "apple".toList] := by
      decide +kernel
    intro piece _
    rw [hsplit]
    simp only [pieces, List.mem_cons, List.not_mem_nil, or_false]
    tauto
  exact ⟨hjoined, hpieces,
    (search_rejoined Float e.tokenizer e).2.1 "pie apple" _ pieces hjoined hpieces o⟩

end Engine

end VaultSearch
