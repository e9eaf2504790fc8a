import VaultSearch.Proofs.Engine.OwnTokens
import VaultSearch.Proofs.Text.FinalSigma
import VaultSearch.Proofs.Tokenizer.Beginnings

/-!
# Searching while typing

Who types a token of a document searches for its beginnings on the way. Each of
them is cut into tokens of its own, and under `and` each of these has to begin
a term of the document. So it does unless the break shows
(`Stocks.found_while_typing`): in the script, in a capital that begins a part
only because of the small letter behind it, in the form of a sigma, or in a lone
character, which prefix matching passes over. Then the document may be lost
until more is typed (`typing_loses_a_document`).
-/

namespace VaultSearch.Engine

open Tokenizer (EndsClearly)

variable {c : Config} {segmenter : Option Segmenter} {e : Engine} {docs : List Document}
  {o : SearchOptions}

/-! ## Terms -/

/-- What becomes of a token before it is indexed or looked up. -/
def termOf (e : Engine) (token : String) : String :=
  if e.config.search.caseSensitive then token else Text.lowercase token

theorem mem_terms_iff_termOf {text term : String} :
    term ∈ e.terms text ↔ ∃ token ∈ e.tokenizer.tokenize text, e.termOf token = term :=
  mem_terms

theorem length_le_termOf (e : Engine) (token : String) :
    token.toList.length ≤ (e.termOf token).toList.length := by
  rw [termOf]
  split
  · exact Nat.le_refl _
  · exact Text.length_le_lowercase token

/-- The term of a token that is typed begins that of the longer token which stands in its place, if
this is so of all that is typed and nothing but punctuation is typed behind it. -/
theorem termOf_prefix {typed rest u : String} {front tail extra more : List Char}
    (hfolds : (e.termOf typed).toList <+: (e.termOf (typed ++ rest)).toList)
    (htyped : typed.toList = front ++ u.toList ++ tail)
    (hextra : tail ++ rest.toList = extra ++ more)
    (htail : ∀ c ∈ tail, Text.isAlphanumeric c = false) :
    (e.termOf u).toList <+: (e.termOf (u ++ String.ofList extra)).toList := by
  unfold termOf at hfolds ⊢
  split
  · rw [String.toList_append]
    exact List.prefix_append _ _
  · rename_i hcase
    rw [if_neg hcase, if_neg hcase, Text.lowercase_prefix_iff, htyped] at hfolds
    rw [Text.lowercase_prefix_iff, String.toList_ofList]
    exact hfolds.of_block hextra htail

/-- A term reaches every term that it begins under prefix matching, if it is long enough. -/
theorem reaches_of_prefix (hextend : o.prefixMatch = true) {s : SearchSettings} {q t : String}
    (hlong : max s.minPrefixLength 1 ≤ q.toList.length) (hbegins : q.toList <+: t.toList) :
    ∃ way, ReachesBy o s q t way := by
  by_cases ht : t = q
  · exact ⟨.exact, .exact ht⟩
  · exact ⟨.extension, .extension hextend hlong ht hbegins⟩

/-! ## Documents -/

/-- Who types a token of a field finds the document under `and` and prefix matching by what is
typed so far, as long as all hits are listed. A lone character among the tokens typed has to be
long enough for prefix matching or a token of the field, and either each term typed begins the term
of the token, or the break does not show: the script is the same with what is not yet typed, the
end is clear without it, and the lower case of the token goes on as that of what is typed. -/
theorem Stocks.found_while_typing (S : Type) [Score S] (h : Stocks segmenter c e docs)
    (hk : e.tokenizer.Unsegmented) (hmax : e.index.live ≤ c.search.maxResults)
    (hmin : c.search.minPrefixLength ≤ 2) (hand : o.combineWith = .and)
    (hextend : o.prefixMatch = true) {d : Document} (hd : d ∈ docs) {f : Field} {text : String}
    (htext : d.text? f = some text) {typed rest : String}
    (htoken : typed ++ rest ∈ e.tokenizer.tokenize text)
    (htyped : e.tokenizer.tokenize typed ≠ [])
    (hlone : ∀ u ∈ e.tokenizer.tokenize typed, u.toList.length = 1 →
      c.search.minPrefixLength ≤ 1 ∨ u ∈ e.tokenizer.tokenize text)
    (hwords : (∀ u ∈ e.tokenizer.tokenize typed,
        (e.termOf u).toList <+: (e.termOf (typed ++ rest)).toList) ∨
      e.consultsFor typed = e.consultsFor (typed ++ rest) ∧
        EndsClearly typed.toList rest.toList ∧
        (e.termOf typed).toList <+: (e.termOf (typed ++ rest)).toList) :
    ∃ hits : List (Hit S), e.search typed o = .ok hits ∧ d.path ∈ hits.map Hit.path := by
  refine h.found_of_reached S hmax hand hd htext htyped fun q hq => ?_
  obtain ⟨u, hu, rfl⟩ := mem_terms_iff_termOf.mp hq
  obtain ⟨-, -, hsubset⟩ := hk.tokens_of_token htoken
  -- a token of the field that the typed one begins, up to case
  obtain ⟨v, hv, hbegins⟩ : ∃ v ∈ e.tokenizer.tokenize text,
      (e.termOf u).toList <+: (e.termOf v).toList := by
    rcases hwords with hbegin | ⟨hscript, hclear, hfolds⟩
    · exact ⟨_, htoken, hbegin u hu⟩
    · rcases hk.token_of_beginning htoken hscript hclear hu with
        hmem | ⟨front, tail, extra, more, hplace, hextra, htail, hmem⟩
      · exact ⟨u, hsubset u hmem, List.prefix_refl _⟩
      · exact ⟨_, hsubset _ hmem, termOf_prefix hfolds hplace hextra htail⟩
  by_cases hself : u ∈ e.tokenizer.tokenize text
  · exact ⟨_, mem_terms_iff_termOf.mpr ⟨u, hself, rfl⟩, .exact, .exact rfl⟩
  · refine ⟨_, mem_terms_iff_termOf.mpr ⟨v, hv, rfl⟩, reaches_of_prefix hextend ?_ hbegins⟩
    have hlength := length_le_termOf e u
    have hpos : 0 < u.toList.length := by
      refine List.length_pos_iff.mpr fun hnil => ?_
      have hsegment := (hk.tokens_of_token hu).1
      rw [hnil] at hsegment
      cases hsegment
    have hmin' : u.toList.length = 1 → c.search.minPrefixLength ≤ 1 :=
      fun hone => (hlone u hu hone).resolve_right hself
    omega

/-! ## One document -/

/-- An engine under the default settings that holds one document with this content. -/
def holding (content : String) : Engine :=
  ((Engine.new {} none).add [Document.ofPath "a.md" (some content) none]).1

theorem stocks_holding (content : String) :
    Stocks none {} (holding content) [Document.ofPath "a.md" (some content) none] := by
  have hdocs : [Document.ofPath "a.md" (some content) none] = [] ++ freshDocuments
      (fun p => decide (p ∈ [])) [Document.ofPath "a.md" (some content) none] := by
    simp [freshDocuments]
  exact hdocs ▸ Stocks.add (.new {}) _

/-- The break comes within the last part of a word, behind the capital that begins it. -/
theorem found_while_typing_camel_case :
    let text := "see fooHTMLBar"
    let e := holding text
    let o : SearchOptions := ⟨true, false, .and⟩
    e.tokenizer.Unsegmented ∧ e.index.live ≤ ({} : Config).search.maxResults ∧
      ({} : Config).search.minPrefixLength ≤ 2 ∧ o.combineWith = .and ∧ o.prefixMatch = true ∧
      "fooHTMLBa" ++ "r" ∈ e.tokenizer.tokenize text ∧ e.tokenizer.tokenize "fooHTMLBa" ≠ [] ∧
      (∀ u ∈ e.tokenizer.tokenize "fooHTMLBa", u.toList.length = 1 →
        ({} : Config).search.minPrefixLength ≤ 1 ∨ u ∈ e.tokenizer.tokenize text) ∧
      (e.consultsFor "fooHTMLBa" = e.consultsFor ("fooHTMLBa" ++ "r") ∧
        EndsClearly "fooHTMLBa".toList "r".toList ∧
        (e.termOf "fooHTMLBa").toList <+: (e.termOf ("fooHTMLBa" ++ "r")).toList) ∧
      ∃ hits : List (Hit Float),
        e.search "fooHTMLBa" o = .ok hits ∧ "a.md" ∈ hits.map Hit.path := by
  intro text e o
  have hk : e.tokenizer.Unsegmented := by
    obtain ⟨-, ds, hds, -⟩ := (stocks_holding text).records
    rw [hds.tokenizer]
    exact Or.inr fun s hs => nomatch hs
  have hmax : e.index.live ≤ ({} : Config).search.maxResults := by decide +kernel
  have hmin : ({} : Config).search.minPrefixLength ≤ 2 := by decide
  have htoken : "fooHTMLBa" ++ "r" ∈ e.tokenizer.tokenize text := by decide +kernel
  have htyped : e.tokenizer.tokenize "fooHTMLBa" ≠ [] := by decide +kernel
  have hlone : ∀ u ∈ e.tokenizer.tokenize "fooHTMLBa", u.toList.length = 1 →
      ({} : Config).search.minPrefixLength ≤ 1 ∨ u ∈ e.tokenizer.tokenize text := by
    decide +kernel
  have hclear : EndsClearly "fooHTMLBa".toList "r".toList := by
    intro front prev c hw
    obtain rfl : c = 'a' := by simpa using (congrArg List.getLast? hw).symm
    have hsmall : Text.isUppercase 'a' = false := by decide +kernel
    rw [Tokenizer.startsPart, Tokenizer.startsPart, hsmall, Bool.false_and, Bool.false_and]
  have hbreak : e.consultsFor "fooHTMLBa" = e.consultsFor ("fooHTMLBa" ++ "r") ∧
      EndsClearly "fooHTMLBa".toList "r".toList ∧
      (e.termOf "fooHTMLBa").toList <+: (e.termOf ("fooHTMLBa" ++ "r")).toList :=
    ⟨by decide +kernel, hclear, by decide +kernel⟩
  exact ⟨hk, hmax, hmin, rfl, rfl, htoken, htyped, hlone, hbreak,
    (stocks_holding text).found_while_typing Float hk hmax hmin rfl rfl
      (List.mem_singleton_self _) (f := .content) rfl htoken htyped hlone (Or.inr hbreak)⟩

/-- Under `and` nothing is found if a term of the search reaches no indexed term. -/
theorem Records.search_eq_nil (S : Type) [Score S] {ds : List (Option Analysed)}
    (h : Records c segmenter e ds) (hready : e.isReady) (hand : o.combineWith = .and)
    {text q : String} (hq : q ∈ e.terms text) (hnone : ways e.index o e.config.search q = []) :
    e.search (S := S) text o = .ok [] := by
  have hnil : e.allHits S text o = [] := by
    refine List.eq_nil_iff_forall_not_mem.mpr fun hit hhit => ?_
    obtain ⟨slot, d, -, hsome⟩ := h.mem_allHits.mp hhit
    have hholds := (isSome_hitOf_iff (List.ne_nil_of_mem hq)).mp (by rw [hsome]; rfl)
    rw [hand] at hholds
    obtain ⟨t, ht, -⟩ := hholds q hq
    obtain ⟨way, hway⟩ := exists_mem_expand_iff.mp ht
    rw [hnone] at hway
    cases hway
  rw [search_eq hready, hnil, List.mergeSort_nil, List.take_nil]

/-- A document whose content is a token is not found by what is typed of it under `and` and prefix
matching, though two characters or more are typed and they have tokens. -/
def LosesWhileTyping (typed rest : String) : Prop :=
  let e := holding (typed ++ rest)
  typed ++ rest ∈ e.tokenizer.tokenize (typed ++ rest) ∧ 2 ≤ typed.toList.length ∧
    e.tokenizer.tokenize typed ≠ [] ∧ e.index.live ≤ ({} : Config).search.maxResults ∧
    e.search (S := Float) typed ⟨true, false, .and⟩ = .ok []

theorem search_holding_eq_nil {content typed q : String} (hq : q ∈ (holding content).terms typed)
    (hnone : ways (holding content).index ⟨true, false, .and⟩ (holding content).config.search q =
      []) : (holding content).search (S := Float) typed ⟨true, false, .and⟩ = .ok [] := by
  obtain ⟨hready, ds, hds, -⟩ := (stocks_holding content).mem_live
  exact hds.search_eq_nil Float hready rfl hq hnone

/-- Four breaks that can be seen: behind a capital at which only the next letter begins a part,
before the first CJK letter of a word, behind a capital sigma within a word, and behind a lone
CJK letter. -/
theorem typing_loses_a_document : ({} : Config).search.minPrefixLength ≤ 2 ∧
    LosesWhileTyping "fooHTMLB" "ar" ∧ LosesWhileTyping "foo-bar" "中" ∧
    LosesWhileTyping "ΣΑΣ" "Α" ∧ LosesWhileTyping "中-" "文" := by
  refine ⟨by decide, ?_, ?_, ?_, ?_⟩
  · exact ⟨by decide +kernel, by decide, by decide +kernel, by decide +kernel,
      search_holding_eq_nil (q := "htmlb") (by decide +kernel) (by decide +kernel)⟩
  · exact ⟨by decide +kernel, by decide, by decide +kernel, by decide +kernel,
      search_holding_eq_nil (q := "bar") (by decide +kernel) (by decide +kernel)⟩
  · exact ⟨by decide +kernel, by decide, by decide +kernel, by decide +kernel,
      search_holding_eq_nil (q := "σας") (by decide +kernel) (by decide +kernel)⟩
  · exact ⟨by decide +kernel, by decide, by decide +kernel, by decide +kernel,
      search_holding_eq_nil (q := "中") (by decide +kernel) (by decide +kernel)⟩

end VaultSearch.Engine
