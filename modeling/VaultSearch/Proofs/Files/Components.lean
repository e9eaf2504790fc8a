import Mathlib.Data.List.Basic
import VaultSearch.FileTree

/-!
# The components of paths

The pieces of a path that count are its steps, and a mark may come before
them: the root, or a full stop. What is joined to a path adds its steps,
and components written as a text are read back. So a path seen from a root
and joined with it again has the components that it had
(`Path.parts_join_relative?`), though its text may differ.
-/

namespace VaultSearch

namespace Path

/-! ## Pieces -/

theorem pieces_eq_splitOn (path : String) : pieces path = path.toList.splitOn '/' := by
  rw [pieces, List.splitOn]
  congr 1

theorem pieces_ne_nil (path : String) : pieces path ≠ [] := List.splitOnP_ne_nil _ _

theorem pieces_append (a b : String) : pieces (a ++ "/" ++ b) = pieces a ++ pieces b := by
  have htext : (a ++ "/" ++ b).toList = a.toList ++ '/' :: b.toList := by simp
  rw [pieces, htext]
  exact List.splitOnP_append_cons a.toList b.toList (decide_eq_true rfl)

theorem sep_notMem_of_mem_splitOnP : ∀ {cs piece : List Char},
    piece ∈ cs.splitOnP (· = '/') → '/' ∉ piece
  | [], piece, h => by simp_all
  | c :: cs, piece, h => by
      rw [List.splitOnP_cons_eq_if_modifyHead] at h
      split at h
      · rcases List.mem_cons.mp h with rfl | hrest
        · exact List.not_mem_nil
        · exact sep_notMem_of_mem_splitOnP hrest
      · rename_i hc
        obtain ⟨first, rest, hcs⟩ := List.exists_cons_of_ne_nil (List.splitOnP_ne_nil (· = '/') cs)
        rw [hcs, List.modifyHead_cons] at h
        rcases List.mem_cons.mp h with rfl | hrest
        · have hfirst := sep_notMem_of_mem_splitOnP (hcs ▸ List.mem_cons_self)
          rw [decide_eq_true_eq] at hc
          simp [hfirst, Ne.symm hc]
        · exact sep_notMem_of_mem_splitOnP (hcs ▸ List.mem_cons_of_mem _ hrest)

theorem isAbsolute_append {a : String} (h : a ≠ "") (b : String) :
    isAbsolute (a ++ b) = isAbsolute a := by
  obtain ⟨c, cs, hcs⟩ := List.exists_cons_of_ne_nil (mt String.toList_eq_nil_iff.mp h)
  rw [isAbsolute, isAbsolute, String.toList_append, hcs]
  rfl

theorem head?_pieces_of_isAbsolute {path : String} (h : isAbsolute path) :
    (pieces path).head? = some [] := by
  obtain ⟨cs, hcs⟩ : ∃ cs, path.toList = '/' :: cs := by
    rw [isAbsolute, decide_eq_true_eq] at h
    obtain ⟨cs, hcs⟩ := List.head?_eq_some_iff.mp h
    exact ⟨cs, hcs⟩
  rw [pieces, hcs, List.splitOnP_cons_eq_if_modifyHead]
  rfl

/-! ## Components -/

/-- A component that leads on from where it stands: it is read back from its text. -/
structure Part.IsStep (p : Part) : Prop where
  read : Part.ofPiece? p.text = some p
  plain : '/' ∉ p.text

instance (p : Part) : Decidable p.IsStep :=
  decidable_of_iff (Part.ofPiece? p.text = some p ∧ '/' ∉ p.text)
    ⟨fun ⟨hread, hplain⟩ => ⟨hread, hplain⟩, fun h => ⟨h.read, h.plain⟩⟩

theorem Part.text_of_ofPiece? {piece : List Char} {p : Part}
    (h : Part.ofPiece? piece = some p) : p.text = piece := by
  rw [Part.ofPiece?] at h
  split at h
  · cases h
  · obtain rfl := Option.some.inj h
    split
    · rename_i hup
      exact hup.symm
    · rfl

/-- What marks the beginning of a path: the root, or a full stop. -/
def lead (path : String) : List Part :=
  if isAbsolute path then [.root]
  else if (pieces path).head? = some ['.'] then [.here] else []

/-- The components of a path after its lead. -/
def steps (path : String) : List Part := (pieces path).filterMap Part.ofPiece?

theorem parts_eq (path : String) : parts path = lead path ++ steps path := rfl

theorem isStep_of_mem_steps {path : String} {p : Part} (h : p ∈ steps path) : p.IsStep := by
  obtain ⟨piece, hpiece, hp⟩ := List.mem_filterMap.mp h
  have htext := Part.text_of_ofPiece? hp
  exact ⟨htext.symm ▸ hp, htext.symm ▸ sep_notMem_of_mem_splitOnP hpiece⟩

theorem steps_append (a b : String) : steps (a ++ "/" ++ b) = steps a ++ steps b := by
  rw [steps, pieces_append, List.filterMap_append]
  rfl

theorem pieces_append_slash (a : String) : pieces (a ++ "/") = pieces a ++ [[]] := by
  have h := pieces_append a ""
  rwa [String.append_empty] at h

theorem steps_append_slash (a : String) : steps (a ++ "/") = steps a := by
  rw [steps, pieces_append_slash, List.filterMap_append]
  exact List.append_nil _

/-- What follows a separator adds its steps. -/
theorem parts_append (a b : String) : parts (a ++ "/" ++ b) = parts (a ++ "/") ++ steps b := by
  have habsolute : isAbsolute (a ++ "/" ++ b) = isAbsolute (a ++ "/") :=
    isAbsolute_append (by simp) b
  have hlead : lead (a ++ "/" ++ b) = lead (a ++ "/") := by
    rw [lead, lead, habsolute, pieces_append, pieces_append_slash,
      List.head?_append_of_ne_nil _ (pieces_ne_nil a),
      List.head?_append_of_ne_nil _ (pieces_ne_nil a)]
  rw [parts_eq, parts_eq, hlead, steps_append, steps_append_slash, List.append_assoc]

theorem parts_append_slash {a : String} (h : a ≠ "") : parts (a ++ "/") = parts a := by
  have hlead : lead (a ++ "/") = lead a := by
    rw [lead, lead, isAbsolute_append h, pieces_append_slash,
      List.head?_append_of_ne_nil _ (pieces_ne_nil a)]
  rw [parts_eq, parts_eq, hlead, steps_append_slash]

/-- A path begins with no mark, or with one that is a path of its own. -/
theorem lead_cases (path : String) :
    lead path = [] ∨
      ∃ mark, lead path = [mark] ∧ mark.text ≠ [] ∧ parts (String.ofList mark.text) = [mark] := by
  rw [lead]
  split
  · exact Or.inr ⟨.root, rfl, by decide, by decide⟩
  · split
    · exact Or.inr ⟨.here, rfl, by decide, by decide⟩
    · exact Or.inl rfl

theorem parts_ne_nil {path : String} (h : path ≠ "") : parts path ≠ [] := by
  intro hparts
  rw [parts_eq, List.append_eq_nil_iff] at hparts
  obtain ⟨hlead, hsteps⟩ := hparts
  obtain ⟨c, cs, hcs⟩ := List.exists_cons_of_ne_nil (mt String.toList_eq_nil_iff.mp h)
  have hc : c ≠ '/' := by
    rintro rfl
    simp [lead, isAbsolute, hcs] at hlead
  obtain ⟨first, rest, hpieces⟩ := List.exists_cons_of_ne_nil
    (List.splitOnP_ne_nil (· = '/') cs)
  -- the first piece is not empty, and it is no full stop, so it counts
  have hfirst : pieces path = (c :: first) :: rest := by
    rw [pieces, hcs, List.splitOnP_cons_eq_if_modifyHead, if_neg (by simpa using hc), hpieces]
    rfl
  have hdot : c :: first ≠ ['.'] := by
    intro hdot
    rw [lead, hfirst, hdot] at hlead
    split at hlead <;> simp at hlead
  rw [steps, hfirst, List.filterMap_eq_nil_iff] at hsteps
  have hnone := hsteps (c :: first) List.mem_cons_self
  rw [Part.ofPiece?, if_neg (by simpa using hdot)] at hnone
  cases hnone

theorem text_ne_nil_of_mem_parts {path : String} {p : Part} (h : p ∈ parts path) :
    p.text ≠ [] := by
  rcases List.mem_append.mp (parts_eq path ▸ h) with hmark | hstep
  · rcases lead_cases path with hlead | ⟨mark, hlead, htext, -⟩
    · rw [hlead] at hmark
      cases hmark
    · rw [hlead] at hmark
      rwa [List.mem_singleton.mp hmark]
  · intro hnil
    have hread := (isStep_of_mem_steps hstep).read
    rw [hnil] at hread
    cases hread

/-! ## Components as a text -/

theorem render_cons {p : Part} {ps : List Part} (h : ps ≠ []) :
    render (p :: ps) = String.ofList p.text ++ "/" ++ render ps := by
  rw [render, List.map_cons, Text.joinWith,
    String.intercalate_cons_of_ne_nil (by simpa using h)]
  rfl

section Render

variable {ps : List Part}

theorem pieces_render (hne : ps ≠ []) (h : ∀ p ∈ ps, p.IsStep) :
    pieces (render ps) = ps.map Part.text := by
  have htext : (ps.map fun p => String.ofList p.text).map String.toList = ps.map Part.text := by
    simp [Function.comp_def]
  rw [pieces_eq_splitOn, render, Text.joinWith, String.toList_intercalate, htext]
  refine List.splitOn_intercalate '/' ?_ (by simpa using hne)
  intro text hmem
  obtain ⟨p, hp, rfl⟩ := List.mem_map.mp hmem
  exact (h p hp).plain

theorem steps_render (hne : ps ≠ []) (h : ∀ p ∈ ps, p.IsStep) : steps (render ps) = ps := by
  rw [steps, pieces_render hne h, List.filterMap_map]
  exact (List.filterMap_congr fun p hp => (h p hp).read).trans List.filterMap_some

theorem isAbsolute_render (hne : ps ≠ []) (h : ∀ p ∈ ps, p.IsStep) :
    isAbsolute (render ps) = false := by
  obtain ⟨p, rest, rfl⟩ := List.exists_cons_of_ne_nil hne
  have hread := (h p List.mem_cons_self).read
  rw [← Bool.not_eq_true]
  intro habsolute
  have hhead := head?_pieces_of_isAbsolute habsolute
  rw [pieces_render hne h] at hhead
  rw [Option.some.inj hhead] at hread
  cases hread

theorem lead_render (hne : ps ≠ []) (h : ∀ p ∈ ps, p.IsStep) : lead (render ps) = [] := by
  rw [lead, isAbsolute_render hne h, pieces_render hne h, if_neg (by simp), if_neg]
  obtain ⟨p, rest, rfl⟩ := List.exists_cons_of_ne_nil hne
  have hread := (h p List.mem_cons_self).read
  intro hdot
  rw [Option.some.inj hdot] at hread
  cases hread

theorem parts_render (hne : ps ≠ []) (h : ∀ p ∈ ps, p.IsStep) : parts (render ps) = ps := by
  rw [parts_eq, lead_render hne h, steps_render hne h]
  rfl

end Render

theorem render_name (name : String) : render [.name name.toList] = name := by
  simp [render, Text.joinWith, Part.text]

theorem pieces_name {name : String} (h : (Part.name name.toList).IsStep) :
    pieces name = [name.toList] := by
  have hpieces := pieces_render (List.cons_ne_nil (Part.name name.toList) []) (by simpa using h)
  rwa [render_name] at hpieces

theorem isAbsolute_name {name : String} (h : (Part.name name.toList).IsStep) :
    isAbsolute name = false := by
  have habsolute := isAbsolute_render (List.cons_ne_nil (Part.name name.toList) [])
    (by simpa using h)
  rwa [render_name] at habsolute

/-- The components of a path written as a text are read back. -/
theorem parts_render_parts {path : String} (h : path ≠ "") :
    parts (render (parts path)) = parts path := by
  have hsteps : ∀ p ∈ steps path, p.IsStep := fun p hp => isStep_of_mem_steps hp
  have hparts := parts_ne_nil h
  rw [parts_eq path] at hparts ⊢
  rcases lead_cases path with hlead | ⟨mark, hlead, htext, hmark⟩
  · rw [hlead] at hparts ⊢
    exact parts_render hparts hsteps
  · rw [hlead, List.singleton_append]
    by_cases hnil : steps path = []
    · rw [hnil]
      exact hmark
    · rw [render_cons hnil, parts_append, parts_append_slash (by simpa using htext), hmark,
        steps_render hnil hsteps]
      rfl

/-! ## Paths seen from a root -/

/-- A joined path is the second one, or it adds this to the first. -/
theorem join_cases (root rel : String) :
    (isAbsolute rel ∨ root = "") ∧ join root rel = rel ∨
      ∃ r, (root = r ++ "/" ∨ root = r ∧ root ≠ "") ∧ join root rel = r ++ "/" ++ rel := by
  rw [join]
  split
  · rename_i habsolute
    exact Or.inl ⟨Or.inl habsolute, rfl⟩
  · split
    · rename_i hroot
      rw [Bool.or_eq_true, String.isEmpty_iff, decide_eq_true_eq] at hroot
      by_cases hempty : root = ""
      · exact Or.inl ⟨Or.inr hempty, by rw [hempty, String.empty_append]⟩
      · obtain ⟨cs, hcs⟩ := List.getLast?_eq_some_iff.mp (hroot.resolve_left hempty)
        have hslash : root = String.ofList cs ++ "/" := by
          rw [← String.toList_inj, hcs]
          simp
        exact Or.inr ⟨String.ofList cs, Or.inl hslash, by rw [← hslash]⟩
    · rename_i hroot
      have hne : root ≠ "" := by
        rintro rfl
        exact hroot rfl
      exact Or.inr ⟨root, Or.inr ⟨rfl, hne⟩, rfl⟩

theorem isAbsolute_join {root rel : String} (hrel : isAbsolute rel = false) :
    isAbsolute (join root rel) = isAbsolute root := by
  rcases join_cases root rel with
    ⟨habsolute | rfl, hjoin⟩ | ⟨r, rfl | ⟨rfl, hne⟩, hjoin⟩
  · rw [hrel] at habsolute
    cases habsolute
  · rw [hjoin, hrel]
    rfl
  · rw [hjoin, isAbsolute_append (by simp)]
  · rw [hjoin, String.append_assoc, isAbsolute_append hne]

/-- A joined path has the pieces of both, but for a separator at the end of the first. -/
theorem pieces_join {root rel : String} (hrel : isAbsolute rel = false) :
    ∃ stem, pieces (join root rel) = stem ++ pieces rel ∧
      (pieces root = stem ∨ pieces root = stem ++ [[]]) := by
  rcases join_cases root rel with
    ⟨habsolute | rfl, hjoin⟩ | ⟨r, rfl | ⟨rfl, -⟩, hjoin⟩
  · rw [hrel] at habsolute
    cases habsolute
  · exact ⟨[], by rw [hjoin, List.nil_append], Or.inr rfl⟩
  · exact ⟨pieces r, by rw [hjoin, pieces_append], Or.inr (pieces_append_slash r)⟩
  · exact ⟨pieces root, by rw [hjoin, pieces_append], Or.inl rfl⟩

theorem join_ne_empty (root : String) {rel : String} (h : rel ≠ "") : join root rel ≠ "" := by
  rcases join_cases root rel with ⟨-, hjoin⟩ | ⟨r, -, hjoin⟩
  · rwa [hjoin]
  · rw [hjoin]
    simp

/-- A path joined to a root goes on like the path itself. -/
theorem join_append (root : String) {rel : String} (h : rel ≠ "") (rest : String) :
    join root (rel ++ rest) = join root rel ++ rest := by
  rw [join, join, isAbsolute_append h]
  split
  · rfl
  · split <;> simp only [String.append_assoc]

theorem parts_join {root rel : String} (hroot : root ≠ "") (hrel : isAbsolute rel = false) :
    parts (join root rel) = parts root ++ steps rel := by
  rcases join_cases root rel with ⟨habsolute | hempty, -⟩ | ⟨r, rfl | ⟨rfl, hne⟩, hjoin⟩
  · rw [hrel] at habsolute
    cases habsolute
  · exact absurd hempty hroot
  · rw [hjoin, parts_append]
  · rw [hjoin, parts_append, parts_append_slash hne]

theorem relative?_eq_some {root path rel : String} (h : relative? root path = some rel) :
    ∃ ps, ps ≠ [] ∧ parts root ++ ps = parts path ∧ rel = render ps := by
  rw [relative?] at h
  cases hbelow : below? root path with
  | none => simp [hbelow] at h
  | some ps =>
      cases ps with
      | nil => simp [hbelow] at h
      | cons p ps =>
          simp only [hbelow] at h
          exact ⟨p :: ps, List.cons_ne_nil _ _, List.isPrefixOf?_eq_some_iff_append_eq.mp hbelow,
            (Option.some.inj h).symm⟩

theorem relative?_of_parts {root path : String} {ps : List Part} (hne : ps ≠ [])
    (h : parts root ++ ps = parts path) : relative? root path = some (render ps) := by
  rw [relative?, below?, List.isPrefixOf?_eq_some_iff_append_eq.mpr h]
  cases ps with
  | nil => exact absurd rfl hne
  | cons p ps => rfl

/-- What lies below a path inside a root lies inside the root. -/
theorem isSome_relative?_of_below {root path file rel : String} {ps : List Part}
    (hpath : relative? root path = some rel) (h : below? path file = some ps) :
    (relative? root file).isSome := by
  obtain ⟨rest, hne, hparts, -⟩ := relative?_eq_some hpath
  have hfile : parts root ++ (rest ++ ps) = parts file := by
    rw [← List.append_assoc, hparts]
    exact List.isPrefixOf?_eq_some_iff_append_eq.mp h
  rw [relative?_of_parts (by simp [hne]) hfile]
  rfl

theorem relative?_ne_empty {root path rel : String} (h : relative? root path = some rel) :
    rel ≠ "" := by
  obtain ⟨ps, hne, hparts, rfl⟩ := relative?_eq_some h
  obtain ⟨p, rest, rfl⟩ := List.exists_cons_of_ne_nil hne
  have hp : p ∈ parts path := hparts ▸ by simp
  by_cases hrest : rest = []
  · have htext : p.text ≠ [] := text_ne_nil_of_mem_parts hp
    subst hrest
    simpa [render, Text.joinWith] using htext
  · rw [render_cons hrest]
    simp

/-- Below a root that is not empty there are steps only. -/
theorem isStep_of_below {root path : String} {ps : List Part} (hroot : root ≠ "")
    (h : parts root ++ ps = parts path) : ∀ p ∈ ps, p.IsStep := by
  intro p hp
  obtain ⟨first, rest, hparts⟩ := List.exists_cons_of_ne_nil (parts_ne_nil hroot)
  rw [hparts, List.cons_append, parts_eq path] at h
  have hmem : p ∈ rest ++ ps := List.mem_append_right _ hp
  have hsteps : p ∈ steps path := by
    rcases lead_cases path with hlead | ⟨mark, hlead, -⟩
    · rw [hlead, List.nil_append] at h
      exact h ▸ List.mem_cons_of_mem _ hmem
    · rw [hlead, List.singleton_append] at h
      exact (List.cons.inj h).2 ▸ hmem
  exact isStep_of_mem_steps hsteps

/-- A path seen from a root and joined with it again has its components back. -/
theorem parts_join_relative? {root path rel : String} (h : relative? root path = some rel) :
    parts (join root rel) = parts path := by
  obtain ⟨ps, hne, hparts, rfl⟩ := relative?_eq_some h
  by_cases hroot : root = ""
  · -- from the empty root a path is seen with the mark that it begins with
    subst hroot
    have hps : ps = parts path := hparts
    have hpath : path ≠ "" := by
      rintro rfl
      exact hne hps
    have hjoin : join "" (render ps) = render ps := by
      rcases join_cases "" (render ps) with ⟨-, hjoin⟩ | ⟨r, hr | ⟨-, hr⟩, -⟩
      · exact hjoin
      · simp at hr
      · exact absurd rfl hr
    rw [hjoin, hps, parts_render_parts hpath]
  · have hsteps := isStep_of_below hroot hparts
    rw [parts_join hroot (isAbsolute_render hne hsteps), steps_render hne hsteps, hparts]

/-- The last piece of a path counts. -/
def EndsInStep (path : String) : Prop :=
  ∃ front last p, pieces path = front ++ [last] ∧ Part.ofPiece? last = some p

theorem EndsInStep.append (a : String) {b : String} (h : EndsInStep b) :
    EndsInStep (a ++ "/" ++ b) := by
  obtain ⟨front, last, p, hpieces, hp⟩ := h
  exact ⟨pieces a ++ front, last, p, by rw [pieces_append, hpieces, List.append_assoc], hp⟩

theorem endsInStep_render {ps : List Part} (hne : ps ≠ []) (h : ∀ p ∈ ps, p.IsStep) :
    EndsInStep (render ps) := by
  obtain ⟨front, last, rfl⟩ := List.eq_nil_or_concat' ps |>.resolve_left hne
  refine ⟨front.map Part.text, last.text, last, ?_, (h last (by simp)).read⟩
  rw [pieces_render hne h, List.map_append]
  rfl

/-- A path with steps, seen from a root and joined with it again, ends in one. -/
theorem endsInStep_join_relative? {root path rel : String} (h : relative? root path = some rel)
    (hsteps : steps path ≠ []) : EndsInStep (join root rel) := by
  have hrel : EndsInStep rel := by
    obtain ⟨ps, hne, hparts, rfl⟩ := relative?_eq_some h
    by_cases hroot : root = ""
    · subst hroot
      have hps : ps = parts path := hparts
      have hlast := endsInStep_render hsteps fun p hp => isStep_of_mem_steps hp
      rw [hps, parts_eq]
      rcases lead_cases path with hlead | ⟨mark, hlead, -⟩
      · rw [hlead]
        exact hlast
      · rw [hlead, List.singleton_append, render_cons hsteps]
        exact hlast.append _
    · exact endsInStep_render hne (isStep_of_below hroot hparts)
  rcases join_cases root rel with ⟨-, hjoin⟩ | ⟨r, -, hjoin⟩
  · rwa [hjoin]
  · rw [hjoin]
    exact hrel.append r

end Path

end VaultSearch
