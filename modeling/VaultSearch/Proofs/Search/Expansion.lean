import VaultSearch.Proofs.Index.Records
import VaultSearch.Proofs.Search.EditDistance
import VaultSearch.Search

/-!
# Which terms a query term reaches

A search looks for the terms that a query term reaches in three ways, and
saves work in two of them. The scan for longer terms stops at the first that
does not begin with the query term: no later one does, because texts that
begin alike stand together in the order of texts (`prefix_of_between`). The
comparison with terms nearby passes over those whose length is too
different: too many edits lead to them (`length_le_editDistance`). So
nothing is missed, and `ways` lists exactly what `ReachesBy` says
(`mem_ways`).
-/

namespace VaultSearch

/-- A query term reaches a term in this way. -/
inductive ReachesBy (o : SearchOptions) (s : SearchSettings) (q t : String) : Reach → Prop
  | exact : t = q → ReachesBy o s q t .exact
  | extension : o.prefixMatch → max s.minPrefixLength 1 ≤ q.toList.length → t ≠ q →
      q.toList <+: t.toList → ReachesBy o s q t .extension
  | near {d : Nat} : o.fuzzyMatch → 0 < fuzzyDistance q.toList.length s.fuzzyProportion → t ≠ q →
      IsLeast {n | TextEdits n q.toList t.toList} d →
      d ≤ fuzzyDistance q.toList.length s.fuzzyProportion →
      ReachesBy o s q t (.near d (fuzzyDistance q.toList.length s.fuzzyProportion))

/-! ## The scan -/

section Scan

variable {α : Type} {p : α → Bool} {a : α}

/-- Where nothing passes after something that fails, a scan that stops there misses nothing. -/
theorem mem_takeWhile_iff : ∀ {l : List α}, l.Pairwise (fun x y => p y → p x) →
    (a ∈ l.takeWhile p ↔ a ∈ l ∧ p a)
  | [], _ => by simp
  | x :: l, h => by
      obtain ⟨hx, hl⟩ := List.pairwise_cons.mp h
      by_cases hpx : p x
      · rw [List.takeWhile_cons_of_pos hpx, List.mem_cons, List.mem_cons, mem_takeWhile_iff hl]
        constructor
        · rintro (rfl | ⟨ha, hpa⟩)
          · exact ⟨.inl rfl, hpx⟩
          · exact ⟨.inr ha, hpa⟩
        · rintro ⟨rfl | ha, hpa⟩
          · exact .inl rfl
          · exact .inr ⟨ha, hpa⟩
      · rw [List.takeWhile_cons_of_neg hpx]
        refine ⟨nofun, ?_⟩
        rintro ⟨ha, hpa⟩
        rcases List.mem_cons.mp ha with rfl | ha
        · exact absurd hpa hpx
        · exact absurd (hx a ha hpa) hpx

theorem mem_dropWhile_iff : ∀ {l : List α}, l.Pairwise (fun x y => p y → p x) →
    (a ∈ l.dropWhile p ↔ a ∈ l ∧ ¬p a)
  | [], _ => by simp
  | x :: l, h => by
      obtain ⟨hx, hl⟩ := List.pairwise_cons.mp h
      by_cases hpx : p x
      · rw [List.dropWhile_cons_of_pos hpx, mem_dropWhile_iff hl, List.mem_cons]
        constructor
        · rintro ⟨ha, hpa⟩
          exact ⟨.inr ha, hpa⟩
        · rintro ⟨rfl | ha, hpa⟩
          · exact absurd hpx hpa
          · exact ⟨ha, hpa⟩
      · rw [List.dropWhile_cons_of_neg hpx]
        refine ⟨fun ha => ⟨ha, fun hpa => ?_⟩, And.left⟩
        rcases List.mem_cons.mp ha with rfl | ha
        · exact hpx hpa
        · exact hpx (hx a ha hpa)

end Scan

/-- Between a text and one that begins with it there are only texts that begin with it. -/
theorem prefix_of_between : ∀ {q x y : List Char}, q < x → x < y → q <+: y → q <+: x
  | [], _, _, _, _, _ => List.nil_prefix
  | c :: q, [], _, hqx, _, _ => absurd hqx (List.not_lt_nil _)
  | c :: q, d :: x, [], _, hxy, _ => absurd hxy (List.not_lt_nil _)
  | c :: q, d :: x, e :: y, hqx, hxy, hbegins => by
      obtain ⟨rfl, htail⟩ := List.cons_prefix_cons.mp hbegins
      rw [List.cons_lt_cons_iff] at hqx hxy
      rcases hqx with hcd | ⟨rfl, hqx⟩
      · rcases hxy with hdc | ⟨rfl, -⟩
        · exact absurd hcd (lt_asymm hdc)
        · exact absurd hcd (lt_irrefl _)
      · rcases hxy with hcc | ⟨-, hxy⟩
        · exact absurd hcc (lt_irrefl _)
        · exact List.cons_prefix_cons.mpr ⟨rfl, prefix_of_between hqx hxy htail⟩

theorem lt_of_prefix_of_ne {q t : String} (hbegins : q.toList <+: t.toList) (hne : t ≠ q) :
    q < t :=
  (lt_or_gt_of_ne hne).resolve_left fun hlt => hbegins.le (String.lt_iff_toList_lt.mp hlt)

variable {ix : Index} {o : SearchOptions} {s : SearchSettings} {q t : String}

/-- The scan finds every longer term that begins with the query term. -/
theorem mem_extensions :
    t ∈ extensions ix q ↔ t ∈ ix.postings.keys ∧ t ≠ q ∧ q.toList <+: t.toList := by
  have hafter : ∀ u, u ∈ ix.postings.keys.dropWhile (fun t => !decide (q < t)) ↔
      u ∈ ix.postings.keys ∧ q < u := by
    intro u
    rw [mem_dropWhile_iff]
    · simp
    · refine ix.pairwise_keys.imp fun {x y} hxy hy => ?_
      simp only [Bool.not_eq_true', decide_eq_false_iff_not] at hy ⊢
      exact fun hx => hy (hx.trans hxy)
  have hsorted := ix.pairwise_keys.sublist (List.dropWhile_sublist fun t => !decide (q < t))
  rw [extensions, mem_takeWhile_iff, hafter, List.isPrefixOf_iff_prefix]
  · constructor
    · rintro ⟨⟨ht, hlt⟩, hbegins⟩
      exact ⟨ht, hlt.ne', hbegins⟩
    · rintro ⟨ht, hne, hbegins⟩
      exact ⟨⟨ht, lt_of_prefix_of_ne hbegins hne⟩, hbegins⟩
  · refine hsorted.imp_of_mem fun {x y} hx _ hxy hy => ?_
    rw [List.isPrefixOf_iff_prefix] at hy ⊢
    exact prefix_of_between (String.lt_iff_toList_lt.mp ((hafter x).mp hx).2)
      (String.lt_iff_toList_lt.mp hxy) hy

/-- Nothing nearby is passed over. -/
theorem mem_neighbours {limit d : Nat} : (t, d) ∈ neighbours ix q limit ↔
    t ∈ ix.postings.keys ∧ t ≠ q ∧ d = editDistance q.toList t.toList ∧ d ≤ limit := by
  have hlen := length_le_editDistance q.toList t.toList
  simp only [neighbours, List.mem_filterMap]
  constructor
  · rintro ⟨u, hu, hnear⟩
    split at hnear
    · cases hnear
    · rename_i hnot
      split at hnear
      · rename_i hle
        obtain ⟨rfl, rfl⟩ := Prod.mk.inj (Option.some.inj hnear)
        exact ⟨hu, fun heq => hnot (by simp [heq]), rfl, hle⟩
      · cases hnear
  · rintro ⟨ht, hne, rfl, hle⟩
    refine ⟨t, ht, ?_⟩
    rw [if_neg, if_pos hle]
    simp only [Bool.or_eq_true, decide_eq_true_eq, not_or]
    exact ⟨⟨hne, by omega⟩, by omega⟩

theorem mem_ways {way : Reach} :
    (t, way) ∈ ways ix o s q ↔ t ∈ ix.postings.keys ∧ ReachesBy o s q t way := by
  simp only [ways, List.mem_append, List.mem_ite_nil_right, List.mem_singleton, List.mem_map,
    Prod.exists, mem_extensions, mem_neighbours, Prod.mk.injEq, Bool.and_eq_true,
    decide_eq_true_eq]
  constructor
  · rintro ((⟨hq, rfl, rfl⟩ | ⟨⟨hon, hlong⟩, u, ⟨ht, hne, hbegins⟩, rfl, rfl⟩) |
      ⟨⟨hon, hlimit⟩, u, d, ⟨ht, hne, rfl, hle⟩, rfl, rfl⟩)
    · exact ⟨Std.ExtTreeMap.mem_keys.mpr hq, .exact rfl⟩
    · exact ⟨ht, .extension hon hlong hne hbegins⟩
    · exact ⟨ht, .near hon hlimit hne (isLeast_editDistance _ _) hle⟩
  · rintro ⟨ht, h⟩
    cases h with
    | exact heq => exact .inl (.inl ⟨heq ▸ Std.ExtTreeMap.mem_keys.mp ht, heq, rfl⟩)
    | extension hon hlong hne hbegins =>
        exact .inl (.inr ⟨⟨hon, hlong⟩, t, ⟨ht, hne, hbegins⟩, rfl, rfl⟩)
    | near hon hlimit hne hleast hle =>
        have hd := hleast.unique (isLeast_editDistance _ _)
        exact .inr ⟨⟨hon, hlimit⟩, t, _, ⟨ht, hne, hd, hle⟩, rfl, rfl⟩

/-- The ways depend on the terms of the index alone. -/
theorem ways_congr {ix' : Index} (h : ix.postings.keys = ix'.postings.keys) :
    ways ix o s q = ways ix' o s q := by
  have hcontains : ix.postings.contains q = ix'.postings.contains q := by
    rw [Bool.eq_iff_iff, ← Std.ExtTreeMap.mem_iff_contains, ← Std.ExtTreeMap.mem_iff_contains,
      ← Std.ExtTreeMap.mem_keys, ← Std.ExtTreeMap.mem_keys, h]
  rw [ways, ways, extensions, extensions, neighbours, neighbours, h, hcontains]

/-! ## The terms reached -/

section Offers

variable {S : Type} [Score S]

theorem getElem?_offer (best : Std.TreeMap String S) (way : String × Reach) (t : String) :
    (offer best way)[t]? = if way.1 = t
      then some (Score.max (best[t]?.getD 0.0) way.2.weight) else best[t]? := by
  rw [offer, Std.TreeMap.getElem?_alter]
  by_cases h : way.1 = t
  · subst h
    simp
  · simp [h]

/-- What is offered is kept. -/
theorem isSome_foldl_offer : ∀ (found : List (String × Reach)) (best : Std.TreeMap String S),
    ((found.foldl offer best)[t]?).isSome ↔ best[t]?.isSome ∨ ∃ way, (t, way) ∈ found
  | [], best => by simp
  | (u, way) :: found, best => by
      rw [List.foldl_cons, isSome_foldl_offer found, getElem?_offer]
      by_cases h : u = t
      · subst h
        simp only [if_true, Option.isSome_some, true_or, true_iff]
        exact .inr ⟨way, List.mem_cons_self⟩
      · have h' : t ≠ u := fun heq => h heq.symm
        simp [h, h']

/-- The terms that come out of an expansion are those for which there is a way. -/
theorem exists_mem_expand_iff :
    (∃ w : S, (t, w) ∈ expand ix o s q) ↔ ∃ way, (t, way) ∈ ways ix o s q := by
  simp only [expand, Std.TreeMap.mem_toList_iff_getElem?_eq_some, ← Option.isSome_iff_exists]
  rw [isSome_foldl_offer]
  simp

theorem pairwise_expand (ix : Index) (o : SearchOptions) (s : SearchSettings) (q : String) :
    (expand (S := S) ix o s q).Pairwise fun a b => a.1 < b.1 :=
  Std.TreeMap.ordered_keys_toList.imp Text.lt_of_compare_eq_lt

end Offers

end VaultSearch
