import VaultSearch.Proofs.Curator.Startup
import VaultSearch.Proofs.Engine.OwnWords
import VaultSearch.Proofs.Lines.Highlights
import VaultSearch.Proofs.Text.Folding
import VaultSearch.Proofs.Tokenizer.Parts

/-!
# Lines of a file that is a hit

A file is found by the terms of its fields, and its lines by the terms of the
hit that are shown. In prefix mode a line is selected if a shown term is spelled
anywhere in it (`matchLines_ne_nil_iff`). An indexed term of the content is a
block of a line in lower case, and folds as the block does unless it has the dot
of the capital İ (`exists_spelled_of_mem_terms`). So a file has a line to show if
a shown term stands in an indexed term of its content
(`lines_of_indexed_content`). A term that is not shown because it stands in one
of another field need not lead to a line (`no_line_for_a_covered_term`), nor does
a shown term with the dot of the capital İ (`no_line_for_a_dotted_capital`) or
one that only the segmenter knows (`no_line_for_a_word_of_the_segmenter`).
-/

namespace VaultSearch

open Matching (Spells)

/-! ## Selected lines -/

namespace Matching

variable {m : Matching} {p : TermPattern} {text : List Char}

theorem exists_spelledAt_iff : (∃ s, m.SpelledAt p text s) ↔
    ∃ block, block <:+: text ∧ Spells m.caseSensitive p.chars block := by
  constructor
  · rintro ⟨s, front, block, back, rfl, -, hblock⟩
    exact ⟨block, ⟨front, back, List.append_assoc ..⟩, forall₂_same_iff.mp hblock⟩
  · rintro ⟨block, ⟨front, back, rfl⟩, hblock⟩
    exact ⟨front.length, front, block, back, List.append_assoc .., rfl, forall₂_same_iff.mpr hblock⟩

theorem acceptable_of_prefixMode {s : Nat} (hmode : m.inPrefixMode = true)
    (h : m.SpelledAt p text s) : m.Acceptable p text s :=
  ⟨h, fun hbreaks => Bool.false_ne_true (hbreaks.1.symm.trans hmode)⟩

end Matching

namespace LinesMatcher

variable {S : Type} [Score S] {m : LinesMatcher} {queryTerms matchedTerms : List String}

theorem exists_shownPatterns_iff {P : List Char → Prop} :
    (∃ p ∈ shownPatterns queryTerms matchedTerms, P p.chars) ↔
      ∃ t ∈ shownTerms queryTerms matchedTerms, P t.toList := by
  have hchars := map_chars_shownPatterns queryTerms matchedTerms
  constructor
  · rintro ⟨p, hp, h⟩
    obtain ⟨t, ht, heq⟩ := List.mem_map.mp (hchars ▸ List.mem_map_of_mem hp)
    exact ⟨t, ht, heq ▸ h⟩
  · rintro ⟨t, ht, h⟩
    obtain ⟨p, hp, heq⟩ := List.mem_map.mp (hchars.symm ▸ List.mem_map_of_mem ht)
    exact ⟨p, hp, heq ▸ h⟩

/-- In prefix mode a line is a candidate if a shown term is spelled in it. -/
theorem finds_prefixMode_iff {line : Line} :
    (m.matching true).Finds (shownPatterns queryTerms matchedTerms) line ↔
      ∃ t ∈ shownTerms queryTerms matchedTerms, ∃ block, block <:+: line.text.toList ∧
        Spells m.caseSensitive t.toList block := by
  rw [← exists_shownPatterns_iff (P := fun cs => ∃ block, block <:+: line.text.toList ∧
    Spells m.caseSensitive cs block)]
  refine exists_congr fun p => and_congr_right fun _ => ?_
  have hspelled : (∃ s, (m.matching true).Acceptable p line.text.toList s) ↔
      ∃ s, (m.matching true).SpelledAt p line.text.toList s :=
    exists_congr fun s => ⟨fun h => h.1, Matching.acceptable_of_prefixMode rfl⟩
  exact hspelled.trans Matching.exists_spelledAt_iff

theorem matchLines_ne_nil_iff {lines : List Line} {topK : Nat} {kind : ExcerptKind}
    {inPrefixMode : Bool} (htop : 0 < topK) :
    m.matchLines (S := S) lines queryTerms matchedTerms topK kind inPrefixMode ≠ [] ↔
      ∃ line ∈ lines,
        (m.matching inPrefixMode).Finds (shownPatterns queryTerms matchedTerms) line := by
  constructor
  · intro hne
    obtain ⟨l, hl⟩ := List.exists_mem_of_ne_nil _ hne
    obtain ⟨line, hline, hfinds, -⟩ := exists_of_mem_matchLines hl
    exact ⟨line, hline, hfinds⟩
  · rintro ⟨line, hline, hfinds⟩
    have hpatterns : (shownPatterns queryTerms matchedTerms).isEmpty = false := by
      obtain ⟨p, hp, -⟩ := hfinds
      exact List.isEmpty_eq_false_iff_exists_mem.mpr ⟨p, hp⟩
    rw [matchLines, foldl_offer, hpatterns, Bool.false_or, decide_eq_false htop.ne',
      if_neg Bool.false_ne_true, ne_eq, List.map_eq_nil_iff]
    exact TopK.toSortedList_ne_nil _ htop (List.ne_nil_of_mem (mem_candidates.mpr
      ⟨hline, hfinds, rfl⟩ : candidateOf S (m.matching inPrefixMode) _ line ∈ _))

end LinesMatcher

/-! ## Indexed terms -/

namespace Engine

variable {e : Engine} {content u : String} {part : List Char}

/-- A part of an indexed term of a text is spelled in a line of the text. Where case does not
count, a term with the lower case of the capital İ may fold to something else than the text. -/
theorem exists_spelled_of_mem_terms (hcuts : ∀ s ∈ e.tokenizer.segmenter, s.CutsText)
    (hu : u ∈ e.terms content) (hpart : part <:+: u.toList)
    (hdot : e.config.search.caseSensitive = true ∨ ¬Text.dottedSmall <:+: u.toList) :
    ∃ line ∈ Line.texts content, ∃ block, block <:+: line ∧
      Spells e.config.search.caseSensitive part block := by
  obtain ⟨token, htoken, rfl⟩ := mem_terms.mp hu
  obtain ⟨line, hline, hblock⟩ := Tokenizer.exists_text_of_mem_tokenize hcuts htoken
  refine ⟨line, hline, ?_⟩
  unfold Spells
  cases hcase : e.config.search.caseSensitive with
  | true =>
      rw [hcase, if_pos rfl] at hpart
      exact ⟨part, hpart.trans hblock, rfl⟩
  | false =>
      rw [hcase] at hpart hdot
      have hnot : 'İ' ∉ token.toList := fun hmem =>
        (hdot.resolve_left Bool.false_ne_true) (Text.infix_lowercase_of_mem hmem)
      have hfold : part.map Text.foldCase <:+: line.map Text.foldCase := by
        refine (hpart.map Text.foldCase).trans ?_
        rw [if_neg Bool.false_ne_true, Text.map_foldCase_lowercase hnot]
        exact hblock.map Text.foldCase
      obtain ⟨block, hblock, heq⟩ := List.infix_map_iff.mp hfold
      exact ⟨block, hblock, heq.symm⟩

end Engine

/-! ## Lines of a hit -/

theorem mem_matchedTerms_of_mem_shownTerms {queryTerms matchedTerms : List String} {t : String}
    (h : t ∈ shownTerms queryTerms matchedTerms) : t ∈ matchedTerms := by
  have hsource : t ∈ sourceTerms queryTerms matchedTerms :=
    List.mem_eraseDups.mp (List.mem_filter.mp h).1
  rw [sourceTerms] at hsource
  split at hsource
  · exact hsource
  · simpa using (List.mem_filter.mp hsource).2

/-- The hit of a text in a document that is found there alone. -/
theorem Engine.matchDocument_eq_of_hits {S : Type} [Score S] {e : Engine} {path text : String}
    {o : SearchOptions} {slot : Nat} {hit : Hit S} (hready : e.isReady)
    (hslot : e.slots[path]? = some slot) (hmax : 1 ≤ e.config.search.maxResults)
    (hone : hits e.index o e.config.search (some slot) (e.terms text) = [hit]) :
    e.matchDocument path text o = .ok (some hit) := by
  rw [matchDocument, hready, hslot, Option.bind_some, searchTerms, hone, List.mergeSort_singleton,
    List.take_of_length_le hmax]
  rfl

theorem Engine.exists_hit_of_terms {S : Type} [Score S] {e : Engine} (path : String)
    {text : String} {o : SearchOptions} {slot : Nat} {query matched : List String}
    (hready : e.isReady) (hslot : e.slots[path]? = some slot)
    (hmax : 1 ≤ e.config.search.maxResults)
    (hone : (hits (S := S) e.index o e.config.search (some slot) (e.terms text)).map
      (fun hit => (hit.queryTerms, hit.matchedTerms)) = [(query, matched)]) :
    ∃ hit : Hit S, e.matchDocument path text o = .ok (some hit) ∧ hit.queryTerms = query ∧
      hit.matchedTerms = matched := by
  obtain ⟨hit, hhits, hpair⟩ := List.map_eq_singleton_iff.mp hone
  exact ⟨hit, matchDocument_eq_of_hits hready hslot hmax hhits, Prod.mk.inj hpair⟩

namespace Curator

variable {σ : Type} {S : Type} [Score S] {m : Curator σ} {src : Source}
  {path raw text content : String} {count : Nat} {combine : Option Combine} {o : SearchOptions}
  {hit : Hit S}

theorem lines_of_hit (hask : m.ask? raw combine = some (text, o))
    (hhit : m.engine.matchDocument path text o = .ok (some hit))
    (hcontent : src.content path = .ok content) :
    m.lines (S := S) src path raw count combine =
      .ok ((LinesMatcher.ofConfig m.config).matchLines (Line.split content) hit.queryTerms
        hit.matchedTerms count .line o.prefixMatch) := by
  rw [lines, hask]
  simp only [hhit, hcontent]
  rfl

/-- A hit is known by the terms that it names, and so it is known that no line shows them. -/
theorem exists_hit_without_lines (count : Nat) {slot : Nat} {query matched : List String}
    (hask : m.ask? raw combine = some (text, o)) (hcontent : src.content path = .ok content)
    (hready : m.engine.isReady) (hslot : m.engine.slots[path]? = some slot)
    (hmax : 1 ≤ m.engine.config.search.maxResults)
    (hone : (hits (S := S) m.engine.index o m.engine.config.search (some slot)
      (m.engine.terms text)).map (fun hit => (hit.queryTerms, hit.matchedTerms)) =
        [(query, matched)])
    (hnone : ((LinesMatcher.ofConfig m.config).matchLines (S := S) (Line.split content) query
      matched count .line o.prefixMatch).length = 0) :
    ∃ hit : Hit S, m.engine.matchDocument path text o = .ok (some hit) ∧ hit.queryTerms = query ∧
      hit.matchedTerms = matched ∧ m.lines (S := S) src path raw count combine = .ok [] := by
  obtain ⟨hit, hhit, hquery, hmatched⟩ := Engine.exists_hit_of_terms path hready hslot hmax hone
  refine ⟨hit, hhit, hquery, hmatched, ?_⟩
  rw [lines_of_hit hask hhit hcontent, hquery, hmatched, List.length_eq_zero_iff.mp hnone]

/-- In prefix mode a file that is a hit has lines to show if and only if a shown term of the hit is
spelled in its text. If what is indexed is this text, it has some as soon as a shown term stands in
an indexed term of the content, one without the lower case of the capital İ unless case counts. -/
theorem lines_of_indexed_content (S : Type) [Score S] {hit : Hit S}
    (hcuts : ∀ s ∈ m.engine.tokenizer.segmenter, s.CutsText)
    (hask : m.ask? raw combine = some (text, o)) (hmode : o.prefixMatch = true)
    (hhit : m.engine.matchDocument path text o = .ok (some hit))
    (hcontent : src.content path = .ok content)
    (hindexed : (m.engine.contents path).map PerField.content = some (m.engine.terms content))
    (hcount : 1 ≤ count) :
    (∀ t ∈ shownTerms hit.queryTerms hit.matchedTerms, t ∈ hit.matchedTerms) ∧
    ∃ ls : List (MatchedLine S), m.lines src path raw count combine = .ok ls ∧
      (ls ≠ [] ↔ ∃ line ∈ Line.texts content, ∃ t ∈ shownTerms hit.queryTerms hit.matchedTerms,
        ∃ block, block <:+: line ∧ Spells m.config.search.caseSensitive t.toList block) ∧
      ∀ F, m.engine.contents path = some F →
        ∀ t ∈ shownTerms hit.queryTerms hit.matchedTerms, ∀ u ∈ F.content, t.toList <:+: u.toList →
          (m.config.search.caseSensitive = true ∨ ¬Text.dottedSmall <:+: u.toList) → ls ≠ [] := by
  have hiff : (LinesMatcher.ofConfig m.config).matchLines (S := S) (Line.split content)
      hit.queryTerms hit.matchedTerms count .line o.prefixMatch ≠ [] ↔
      ∃ line ∈ Line.texts content, ∃ t ∈ shownTerms hit.queryTerms hit.matchedTerms,
        ∃ block, block <:+: line ∧ Spells m.config.search.caseSensitive t.toList block := by
    rw [LinesMatcher.matchLines_ne_nil_iff hcount, hmode, ← exists_mem_split_iff]
    exact exists_congr fun line => and_congr_right fun _ => LinesMatcher.finds_prefixMode_iff
  refine ⟨fun t => mem_matchedTerms_of_mem_shownTerms, _, lines_of_hit hask hhit hcontent, hiff,
    fun F hF t ht u hu hpart hdot => hiff.mpr ?_⟩
  rw [hF, Option.map_some, Option.some_inj] at hindexed
  rw [hindexed] at hu
  obtain ⟨line, hline, hspelled⟩ := Engine.exists_spelled_of_mem_terms hcuts hu hpart hdot
  exact ⟨line, hline, t, ht, hspelled⟩

/-- The query is the beginning of a word in capitals; the segmenter is asked about two ideographs
and finds that they are one word. -/
theorem line_of_a_word_in_capitals :
    let content := "Heute 知识\nDie KATZE schläft"
    let files : MemorySource := .ofList [("notes.md", content)]
    let segmenter : Segmenter := ⟨true, fun _ text => .ok [text]⟩
    let m : Curator MemoryStore := ((Curator.new {} (some segmenter) {}).start files.toSource).2
    let o : SearchOptions := ⟨true, false, .and⟩
    (∀ s ∈ m.engine.tokenizer.segmenter, s.CutsText) ∧ m.ask? "kat" none = some ("kat", o) ∧
      o.prefixMatch = true ∧ files.toSource.content "notes.md" = .ok content ∧
      (m.engine.contents "notes.md").map PerField.content = some (m.engine.terms content) ∧
      ∃ hit : Hit Float, m.engine.matchDocument "notes.md" "kat" o = .ok (some hit) ∧
        hit.matchedTerms = ["katze"] ∧
        ∃ ls : List (MatchedLine Float),
          m.lines files.toSource "notes.md" "kat" 5 none = .ok ls ∧ ls ≠ [] := by
  intro content files segmenter m o
  have hcuts : ∀ s ∈ m.engine.tokenizer.segmenter, s.CutsText := by
    have hmade : Reached {} (some segmenter) m := .start (.new _) files.toSource
    rw [hmade.madeWith.tokenizer]
    intro s hs hmm text words hwords w hw
    obtain rfl := Option.some.inj hs
    obtain rfl := Except.ok.inj hwords
    exact List.mem_singleton.mp hw ▸ List.infix_refl _
  have hask : m.ask? "kat" none = some ("kat", o) := by decide +kernel
  have hcontent : files.toSource.content "notes.md" = .ok content := by rfl
  have hindexed : (m.engine.contents "notes.md").map PerField.content =
      some (m.engine.terms content) := by decide +kernel
  have hone : (hits (S := Float) m.engine.index o m.config.search (some 0)
      (m.engine.terms "kat")).map (fun hit => (hit.queryTerms, hit.matchedTerms)) =
        [(["kat"], ["katze"])] := by decide +kernel
  obtain ⟨hit, hhit, hquery, hmatched⟩ := Engine.exists_hit_of_terms "notes.md"
    (by decide +kernel) (by decide +kernel) (by decide +kernel) hone
  obtain ⟨-, ls, hls, -, hne⟩ :=
    lines_of_indexed_content Float hcuts hask rfl hhit hcontent hindexed (show 1 ≤ 5 by decide)
  obtain ⟨F, hF, hfield⟩ := Option.map_eq_some_iff.mp hindexed
  have hshown : "katze" ∈ shownTerms hit.queryTerms hit.matchedTerms := by
    rw [hquery, hmatched]
    decide +kernel
  have hterm : "katze" ∈ F.content := by
    rw [hfield]
    decide +kernel
  exact ⟨hcuts, hask, rfl, hcontent, hindexed, hit, hhit, hmatched, ls, hls,
    hne F hF "katze" hshown "katze" hterm (List.infix_refl _) (Or.inr (by decide +kernel))⟩

/-- The content holds a term of the hit, but the only one that is shown stands in the path. -/
theorem no_line_for_a_covered_term :
    let files : MemorySource := .ofList [("category.md", "cat")]
    let m : Curator MemoryStore := ((Curator.new {} none {}).start files.toSource).2
    let o : SearchOptions := ⟨true, false, .and⟩
    m.ask? "ca" none = some ("ca", o) ∧ files.toSource.content "category.md" = .ok "cat" ∧
      (m.engine.contents "category.md").map PerField.content = some (m.engine.terms "cat") ∧
      ∃ hit : Hit Float, m.engine.matchDocument "category.md" "ca" o = .ok (some hit) ∧
        (∃ t ∈ hit.matchedTerms, t ∈ m.engine.terms "cat") ∧
        m.lines (S := Float) files.toSource "category.md" "ca" 5 none = .ok [] := by
  intro files m o
  have hask : m.ask? "ca" none = some ("ca", o) := by decide +kernel
  have hcontent : files.toSource.content "category.md" = .ok "cat" := by rfl
  have hindexed : (m.engine.contents "category.md").map PerField.content =
      some (m.engine.terms "cat") := by decide +kernel
  have hone : (hits (S := Float) m.engine.index o m.config.search (some 0)
      (m.engine.terms "ca")).map (fun hit => (hit.queryTerms, hit.matchedTerms)) =
        [(["ca"], ["cat", "category"])] := by decide +kernel
  obtain ⟨hit, hhit, -, hmatched, hlines⟩ := exists_hit_without_lines 5 hask hcontent
    (by decide +kernel) (by decide +kernel) (by decide +kernel) hone (by decide +kernel)
  refine ⟨hask, hcontent, hindexed, hit, hhit, ⟨"cat", ?_, by decide +kernel⟩, hlines⟩
  rw [hmatched]
  exact List.mem_cons_self

/-- In lower case the capital İ is two characters, the second of them a dot above. A shown term
with both is not spelled in the text, which has no dot. -/
theorem no_line_for_a_dotted_capital :
    let files : MemorySource := .ofList [("a.md", "İstanbul")]
    let m : Curator MemoryStore := ((Curator.new {} none {}).start files.toSource).2
    let o : SearchOptions := ⟨true, false, .and⟩
    m.ask? "İst" none = some ("İst", o) ∧ files.toSource.content "a.md" = .ok "İstanbul" ∧
      (m.engine.contents "a.md").map PerField.content = some (m.engine.terms "İstanbul") ∧
      ∃ hit : Hit Float, m.engine.matchDocument "a.md" "İst" o = .ok (some hit) ∧
        (∃ t ∈ shownTerms hit.queryTerms hit.matchedTerms,
          t ∈ m.engine.terms "İstanbul" ∧ Text.dottedSmall <:+: t.toList) ∧
        m.lines (S := Float) files.toSource "a.md" "İst" 5 none = .ok [] := by
  intro files m o
  have hask : m.ask? "İst" none = some ("İst", o) := by decide +kernel
  have hcontent : files.toSource.content "a.md" = .ok "İstanbul" := by rfl
  have hindexed : (m.engine.contents "a.md").map PerField.content =
      some (m.engine.terms "İstanbul") := by decide +kernel
  have hone : (hits (S := Float) m.engine.index o m.config.search (some 0)
      (m.engine.terms "İst")).map (fun hit => (hit.queryTerms, hit.matchedTerms)) =
        [(["i̇st"], ["i̇stanbul"])] := by decide +kernel
  obtain ⟨hit, hhit, hquery, hmatched, hlines⟩ := exists_hit_without_lines 5 hask hcontent
    (by decide +kernel) (by decide +kernel) (by decide +kernel) hone (by decide +kernel)
  refine ⟨hask, hcontent, hindexed, hit, hhit, ⟨"i̇stanbul", ?_, by decide +kernel⟩, hlines⟩
  rw [hquery, hmatched]
  decide +kernel

/-- A segmenter that answers with a word the text does not hold: the word is indexed and shown, but
it is spelled nowhere. -/
theorem no_line_for_a_word_of_the_segmenter :
    let files : MemorySource := .ofList [("a.md", "知识")]
    let segmenter : Segmenter := ⟨true, fun _ _ => .ok ["学问"]⟩
    let m : Curator MemoryStore := ((Curator.new {} (some segmenter) {}).start files.toSource).2
    let o : SearchOptions := ⟨true, false, .and⟩
    m.ask? "学问" none = some ("学问", o) ∧ files.toSource.content "a.md" = .ok "知识" ∧
      (m.engine.contents "a.md").map PerField.content = some (m.engine.terms "知识") ∧
      ∃ hit : Hit Float, m.engine.matchDocument "a.md" "学问" o = .ok (some hit) ∧
        (∃ t ∈ shownTerms hit.queryTerms hit.matchedTerms,
          t ∈ m.engine.terms "知识" ∧ ¬Text.dottedSmall <:+: t.toList) ∧
        m.lines (S := Float) files.toSource "a.md" "学问" 5 none = .ok [] := by
  intro files segmenter m o
  have hask : m.ask? "学问" none = some ("学问", o) := by decide +kernel
  have hcontent : files.toSource.content "a.md" = .ok "知识" := by rfl
  have hindexed : (m.engine.contents "a.md").map PerField.content =
      some (m.engine.terms "知识") := by decide +kernel
  have hone : (hits (S := Float) m.engine.index o m.config.search (some 0)
      (m.engine.terms "学问")).map (fun hit => (hit.queryTerms, hit.matchedTerms)) =
        [(["学问"], ["学问"])] := by decide +kernel
  obtain ⟨hit, hhit, hquery, hmatched, hlines⟩ := exists_hit_without_lines 5 hask hcontent
    (by decide +kernel) (by decide +kernel) (by decide +kernel) hone (by decide +kernel)
  refine ⟨hask, hcontent, hindexed, hit, hhit, ⟨"学问", ?_, by decide +kernel⟩, hlines⟩
  rw [hquery, hmatched]
  decide +kernel

end Curator

end VaultSearch
