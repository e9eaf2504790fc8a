import VaultSearch.Proofs.Search.Tally

/-!
# What the hits of a search are

A query term finds in a document the terms that it reaches and that occur
there (`found`). Under `and` a document is a hit if every query term finds
something, under `or` if any one does (`isSome_hitOf_iff`). A hit lists
the query terms that find something and all that they find
(`hitOf_eq_some`).
-/

namespace VaultSearch

variable {S : Type} [Score S]

/-- The terms of a document among those that a query term reaches, once for each
field that has them. -/
def found (reached : List (String × S)) (d : Analysed) : List String :=
  reached.flatMap fun (t, _) => (d.fieldsWith t).map fun _ => t

omit [Score S] in
theorem mem_found {reached : List (String × S)} {d : Analysed} {t : String} :
    t ∈ found reached d ↔ (∃ w, (t, w) ∈ reached) ∧ d.Has t := by
  simp only [found, List.mem_flatMap, List.mem_map, Prod.exists]
  constructor
  · rintro ⟨u, w, hu, f, hf, rfl⟩
    exact ⟨⟨w, hu⟩, f, Analysed.mem_fieldsWith.mp hf⟩
  · rintro ⟨⟨w, hw⟩, f, hf⟩
    exact ⟨t, w, hw, f, Analysed.mem_fieldsWith.mpr hf, rfl⟩

/-- The tally lists the query terms `qs` and what they found, `ts`; without any
query term there is no tally. -/
def Lists (qs ts : List String) (tally : Option (Tally S)) : Prop :=
  (qs = [] ∧ ts = [] ∧ tally = none) ∨
    (qs ≠ [] ∧ ∃ x, tally = some x ∧ x.queryTerms = qs ∧ x.matchedTerms = ts)

/-- The query terms that a tally of `q` alone lists after it has found `ts`. -/
def soleTerm (q : String) (ts : List String) : List String := if ts = [] then [] else [q]

theorem lists_count {q t : String} {ts : List String} {tally : Option (Tally S)} {score : S}
    (h : Lists (soleTerm q ts) ts tally) :
    Lists (soleTerm q (ts ++ [t])) (ts ++ [t]) (some (Tally.count q t score tally)) := by
  have hsole : soleTerm q (ts ++ [t]) = [q] := by simp [soleTerm]
  rw [hsole]
  rcases h with ⟨-, rfl, rfl⟩ | ⟨-, x, rfl, -, rfl⟩
  · exact Or.inr ⟨by simp, _, rfl, rfl, rfl⟩
  · exact Or.inr ⟨by simp, _, rfl, rfl, rfl⟩

theorem lists_countTerm (ix : Index) (s : SearchSettings) (q : String) (d : Analysed)
    (reached : String × S) {ts : List String} {tally : Option (Tally S)}
    (h : Lists (soleTerm q ts) ts tally) :
    Lists (soleTerm q (ts ++ (d.fieldsWith reached.1).map fun _ => reached.1))
      (ts ++ (d.fieldsWith reached.1).map fun _ => reached.1)
      (countTerm ix s q d tally reached) := by
  rw [countTerm]
  induction d.fieldsWith reached.1 generalizing ts tally with
  | nil => simpa using h
  | cons f fs ih =>
      rw [List.foldl_cons, List.map_cons, List.append_cons]
      exact ih (lists_count h)

/-- The tally of one query term lists it if it finds something. -/
theorem lists_tallyOf (ix : Index) (s : SearchSettings) (q : String)
    (reached : List (String × S)) (d : Analysed) :
    Lists (soleTerm q (found reached d)) (found reached d) (tallyOf ix s q reached d) := by
  have hgen : ∀ (reached : List (String × S)) (ts : List String) (tally : Option (Tally S)),
      Lists (soleTerm q ts) ts tally →
      Lists (soleTerm q (ts ++ found reached d)) (ts ++ found reached d)
        (reached.foldl (countTerm ix s q d) tally) := by
    intro reached
    induction reached with
    | nil => intro ts tally h; simpa [found] using h
    | cons r rs ih =>
        intro ts tally h
        have hstep := ih _ _ (lists_countTerm ix s q d r h)
        rw [List.append_assoc] at hstep
        exact hstep
  exact hgen reached [] none (Or.inl ⟨rfl, rfl, rfl⟩)

/-! ## Several query terms -/

theorem lists_join_or {qs ts qs' ts' : List String} {a b : Option (Tally S)}
    (ha : Lists qs ts a) (hb : Lists qs' ts' b) :
    Lists (qs ++ qs') (ts ++ ts') (joinTallies .or a b) := by
  rcases hb with ⟨rfl, rfl, rfl⟩ | ⟨hqs', y, rfl, rfl, rfl⟩
  · simpa [joinTallies] using ha
  · refine Or.inr ⟨by simp [hqs'], (a.getD .zero).merge y, rfl, ?_⟩
    rcases ha with ⟨rfl, rfl, rfl⟩ | ⟨-, x, rfl, rfl, rfl⟩
    · exact ⟨rfl, rfl⟩
    · exact ⟨rfl, rfl⟩

theorem lists_join_and {qs ts qs' ts' : List String} {a b : Option (Tally S)}
    (ha : Lists qs ts a) (hqs : qs ≠ []) (hb : Lists qs' ts' b) (hqs' : qs' ≠ []) :
    Lists (qs ++ qs') (ts ++ ts') (joinTallies .and a b) := by
  rcases ha with ⟨rfl, -⟩ | ⟨-, x, rfl, rfl, rfl⟩
  · exact absurd rfl hqs
  rcases hb with ⟨rfl, -⟩ | ⟨-, y, rfl, rfl, rfl⟩
  · exact absurd rfl hqs'
  exact Or.inr ⟨by simp [hqs], x.merge y, rfl, rfl, rfl⟩

/-- Under `or` the joint tally lists the query terms that find something. -/
theorem lists_jointTally_or (tally : String → Option (Tally S)) (ts : String → List String)
    (h : ∀ q, Lists (soleTerm q (ts q)) (ts q) (tally q)) (terms : List String) :
    Lists (terms.flatMap fun q => soleTerm q (ts q)) (terms.flatMap ts)
      (jointTally .or tally terms) := by
  cases terms with
  | nil => exact Or.inl ⟨rfl, rfl, rfl⟩
  | cons q qs =>
      have hgen : ∀ (qs l m : List String) (acc : Option (Tally S)), Lists l m acc →
          Lists (l ++ qs.flatMap fun q => soleTerm q (ts q)) (m ++ qs.flatMap ts)
            (qs.foldl (fun acc q => joinTallies .or acc (tally q)) acc) := by
        intro qs
        induction qs with
        | nil => intro l m acc hacc; simpa using hacc
        | cons r rs ih =>
            intro l m acc hacc
            have hstep := ih _ _ _ (lists_join_or hacc (h r))
            rw [List.append_assoc, List.append_assoc] at hstep
            exact hstep
      exact hgen qs _ _ _ (h q)

/-- Under `and` the joint tally lists all query terms if each finds something. -/
theorem lists_jointTally_and (tally : String → Option (Tally S)) (ts : String → List String)
    (h : ∀ q, Lists (soleTerm q (ts q)) (ts q) (tally q)) {terms : List String}
    (hne : terms ≠ []) (hall : ∀ q ∈ terms, ts q ≠ []) :
    Lists terms (terms.flatMap ts) (jointTally .and tally terms) := by
  have hone : ∀ q, ts q ≠ [] → Lists [q] (ts q) (tally q) := by
    intro q hq
    have hq' := h q
    rwa [soleTerm, if_neg hq] at hq'
  cases terms with
  | nil => exact absurd rfl hne
  | cons q qs =>
      have hgen : ∀ (qs l m : List String) (acc : Option (Tally S)), (∀ q ∈ qs, ts q ≠ []) →
          l ≠ [] → Lists l m acc →
          Lists (l ++ qs) (m ++ qs.flatMap ts)
            (qs.foldl (fun acc q => joinTallies .and acc (tally q)) acc) := by
        intro qs
        induction qs with
        | nil => intro l m acc _ _ hacc; simpa using hacc
        | cons r rs ih =>
            intro l m acc hrs hl hacc
            have hr := hone r (hrs r List.mem_cons_self)
            have hstep := ih _ _ _ (fun x hx => hrs x (List.mem_cons_of_mem _ hx))
              (by simp) (lists_join_and hacc hl hr (by simp))
            rw [List.append_assoc, List.append_assoc] at hstep
            exact hstep
      exact hgen qs [q] _ _ (fun x hx => hall x (List.mem_cons_of_mem _ hx)) (by simp)
        (hone q (hall q List.mem_cons_self))

/-- Under `and` a query term that finds nothing rules the document out. -/
theorem jointTally_and_eq_none (tally : String → Option (Tally S)) {terms : List String}
    {q : String} (hq : q ∈ terms) (hnone : tally q = none) :
    jointTally .and tally terms = none := by
  have hfold : ∀ (qs : List String), qs.foldl (fun acc q => joinTallies .and acc (tally q))
      none = none := by
    intro qs
    induction qs with
    | nil => rfl
    | cons r rs ih => exact ih
  have hgen : ∀ (qs : List String) (acc : Option (Tally S)), q ∈ qs →
      qs.foldl (fun acc q => joinTallies .and acc (tally q)) acc = none := by
    intro qs
    induction qs with
    | nil => intro acc hmem; cases hmem
    | cons r rs ih =>
        intro acc hmem
        rw [List.foldl_cons]
        rcases List.mem_cons.mp hmem with rfl | hmem
        · rw [hnone]
          cases acc <;> exact hfold rs
        · exact ih _ hmem
  cases terms with
  | nil => cases hq
  | cons r rs =>
      rw [jointTally]
      rcases List.mem_cons.mp hq with rfl | hq
      · rw [hnone]
        exact hfold rs
      · exact hgen rs _ hq

/-! ## Hits -/

/-- The query term `q` reaches the indexed term `t`. -/
def Reaches (S : Type) [Score S] (ix : Index) (o : SearchOptions) (s : SearchSettings)
    (q t : String) : Prop :=
  ∃ w : S, (t, w) ∈ expand ix o s q

/-- What a combine mode asks of the query terms: that all of them satisfy `P`, or
that one does. -/
def Combine.Holds (mode : Combine) (terms : List String) (P : String → Prop) : Prop :=
  match mode with
  | .and => ∀ q ∈ terms, P q
  | .or => ∃ q ∈ terms, P q

/-- A document has a term that the query term `q` reaches. -/
def Analysed.Meets (S : Type) [Score S] (ix : Index) (o : SearchOptions) (s : SearchSettings)
    (d : Analysed) (q : String) : Prop :=
  ∃ t, Reaches S ix o s q t ∧ d.Has t

variable {ix : Index} {o : SearchOptions} {s : SearchSettings} {d : Analysed}

theorem found_ne_nil_iff {q : String} :
    found (expand (S := S) ix o s q) d ≠ [] ↔ d.Meets S ix o s q := by
  rw [← List.length_pos_iff, List.length_pos_iff_exists_mem]
  simp only [mem_found, Analysed.Meets, Reaches]

theorem mem_flatMap_soleTerm {terms : List String} {ts : String → List String} {q : String} :
    q ∈ terms.flatMap (fun q => soleTerm q (ts q)) ↔ q ∈ terms ∧ ts q ≠ [] := by
  rw [List.mem_flatMap]
  constructor
  · rintro ⟨r, hr, hq⟩
    rw [soleTerm] at hq
    split at hq
    · cases hq
    · rename_i hne
      obtain rfl := List.mem_singleton.mp hq
      exact ⟨hr, hne⟩
  · rintro ⟨hq, hne⟩
    exact ⟨q, hq, by simp [soleTerm, hne]⟩

theorem flatMap_soleTerm_sublist (ts : String → List String) : ∀ terms : List String,
    (terms.flatMap fun q => soleTerm q (ts q)).Sublist terms
  | [] => List.Sublist.refl _
  | q :: qs => by
      rw [List.flatMap_cons, soleTerm]
      split
      · exact (flatMap_soleTerm_sublist ts qs).cons q
      · exact (flatMap_soleTerm_sublist ts qs).cons_cons q

/-- If the combine mode is satisfied, the joint tally of a document lists the query
terms that it meets and all that they find. -/
theorem lists_jointTally {terms : List String} (hne : terms ≠ [])
    (hm : o.combineWith.Holds terms (d.Meets S ix o s)) :
    ∃ qs : List String, qs.Sublist terms ∧ (∀ q, q ∈ qs ↔ q ∈ terms ∧ d.Meets S ix o s q) ∧
      qs ≠ [] ∧ Lists qs (terms.flatMap fun q => found (expand (S := S) ix o s q) d)
        (jointTally o.combineWith (fun q => tallyOf ix s q (expand (S := S) ix o s q) d)
          terms) := by
  have hone := fun q => lists_tallyOf ix s q (expand (S := S) ix o s q) d
  cases hmode : o.combineWith with
  | and =>
      rw [hmode] at hm
      refine ⟨terms, List.Sublist.refl _, fun q => ⟨fun hq => ⟨hq, hm q hq⟩, And.left⟩, hne, ?_⟩
      exact lists_jointTally_and _ _ hone hne fun q hq => found_ne_nil_iff.mpr (hm q hq)
  | or =>
      rw [hmode] at hm
      obtain ⟨q, hq, hmeets⟩ := hm
      have hmem : ∀ q, q ∈ terms.flatMap (fun q =>
          soleTerm q (found (expand (S := S) ix o s q) d)) ↔ q ∈ terms ∧ d.Meets S ix o s q := by
        intro q
        rw [mem_flatMap_soleTerm, found_ne_nil_iff]
      exact ⟨_, flatMap_soleTerm_sublist _ terms, hmem,
        List.ne_nil_of_mem ((hmem q).mpr ⟨hq, hmeets⟩), lists_jointTally_or _ _ hone terms⟩

theorem jointTally_eq_none {terms : List String}
    (hm : ¬o.combineWith.Holds terms (d.Meets S ix o s)) :
    jointTally o.combineWith (fun q => tallyOf ix s q (expand (S := S) ix o s q) d)
      terms = none := by
  have hone := fun q => lists_tallyOf ix s q (expand (S := S) ix o s q) d
  cases hmode : o.combineWith with
  | and =>
      simp only [hmode, Combine.Holds, not_forall] at hm
      obtain ⟨q, hq, hmeets⟩ := hm
      refine jointTally_and_eq_none _ hq ?_
      have hnil : found (expand (S := S) ix o s q) d = [] := by
        by_contra hfound
        exact hmeets (found_ne_nil_iff.mp hfound)
      have hq' := hone q
      rw [hnil] at hq'
      rcases hq' with ⟨-, -, hnone⟩ | ⟨hsole, -⟩
      · exact hnone
      · exact absurd rfl hsole
  | or =>
      rw [hmode] at hm
      rcases lists_jointTally_or _ _ hone terms with ⟨-, -, hnone⟩ | ⟨hqs, -⟩
      · exact hnone
      · obtain ⟨q, hq⟩ := List.exists_mem_of_ne_nil _ hqs
        rw [mem_flatMap_soleTerm, found_ne_nil_iff] at hq
        exact absurd ⟨q, hq⟩ hm

theorem isSome_hitOf_iff {terms : List String} (hne : terms ≠ []) :
    (hitOf (S := S) ix o s terms d).isSome ↔ o.combineWith.Holds terms (d.Meets S ix o s) := by
  rw [hitOf, Option.isSome_map]
  constructor
  · intro h
    by_contra hm
    rw [jointTally_eq_none hm] at h
    cases h
  · intro hm
    obtain ⟨qs, -, -, hqs, hlists⟩ := lists_jointTally hne hm
    rcases hlists with ⟨hnil, -⟩ | ⟨-, x, hx, -⟩
    · exact absurd hnil hqs
    · rw [hx]
      rfl

/-- What a hit says: the query terms that its document meets, and the terms of the
document that they reach, both ascending. -/
theorem hitOf_eq_some {terms : List String} (hne : terms ≠ []) (hsorted : terms.Pairwise (· < ·))
    {hit : Hit S} (hhit : hitOf ix o s terms d = some hit) :
    hit.queryTerms.Pairwise (· < ·) ∧
      (∀ q, q ∈ hit.queryTerms ↔ q ∈ terms ∧ d.Meets S ix o s q) ∧
      hit.matchedTerms.Pairwise (· < ·) ∧
      (∀ t, t ∈ hit.matchedTerms ↔ ∃ q ∈ terms, Reaches S ix o s q t ∧ d.Has t) := by
  have hm : o.combineWith.Holds terms (d.Meets S ix o s) :=
    (isSome_hitOf_iff hne).mp (by rw [hhit]; rfl)
  obtain ⟨qs, hsub, hmem, hqs, hlists⟩ := lists_jointTally hne hm
  obtain ⟨tally, htally, rfl⟩ := Option.map_eq_some_iff.mp hhit
  rcases hlists with ⟨hnil, -⟩ | ⟨-, x, hx, rfl, hts⟩
  · exact absurd hnil hqs
  obtain rfl : x = tally := Option.some.inj (hx.symm.trans htally)
  refine ⟨hsorted.sublist hsub, hmem, Text.pairwise_distinctSorted _, fun t => ?_⟩
  rw [Tally.toHit, Text.mem_distinctSorted, hts, List.mem_flatMap]
  simp only [mem_found, Reaches]

end VaultSearch
