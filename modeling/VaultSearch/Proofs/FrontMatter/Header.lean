import Mathlib.Data.List.Basic
import VaultSearch.Source

/-!
# The header of a note

A header is a line of dashes, some lines, and the next line of dashes
(`Header`). If there are lines between the two, they are the block that is read,
and nothing behind the header has a say in the titles of the note. The closing
line is looked for behind a line break inside the block, so that right behind the
opening line it is overlooked: then the block goes on to a line of dashes in the
body, if it has one. `titles_of_header_iff` says that this is the only case in
which the body matters.
-/

namespace VaultSearch.FrontMatter

variable {line opening closing rest front body : List Char} {lines : List (List Char)}

/-! ## Lines -/

/-- Three dashes, where a carriage return belongs to the end of the line. -/
def IsMarker (line : List Char) : Prop := line = ['-', '-', '-'] ∨ line = ['-', '-', '-', '\r']

instance (line : List Char) : Decidable (IsMarker line) :=
  inferInstanceAs (Decidable (line = ['-', '-', '-'] ∨ line = ['-', '-', '-', '\r']))

/-- Whether the text begins with a marker line, where a block before it ends. -/
def closesAt (text : List Char) : Bool := (Text.dropLead? ['-', '-', '-'] text).any lineEnds

theorem eq_of_lineEnds {more : List Char} (hmore : '\n' ∉ more)
    (h : lineEnds (more ++ '\n' :: rest) = true) : more = [] ∨ more = ['\r'] := by
  match more with
  | [] => exact .inl rfl
  | [c] =>
      rw [List.cons_append, List.nil_append, lineEnds.eq_def] at h
      split at h <;> simp_all
  | c :: d :: more =>
      rw [List.cons_append, List.cons_append, lineEnds.eq_def] at h
      split at h <;> simp_all

theorem closesAt_line_iff (hline : '\n' ∉ line) (rest : List Char) :
    closesAt (line ++ '\n' :: rest) = true ↔ IsMarker line := by
  constructor
  · intro h
    obtain ⟨tail, htail, hends⟩ := (Option.any_eq_true _ _).mp h
    rw [Text.dropLead?, List.isPrefixOf?_eq_some_iff_append_eq] at htail
    rcases List.append_eq_append_iff.mp htail with ⟨more, rfl, rfl⟩ | ⟨dashes, hdashes, hrest⟩
    · -- the line goes on behind the dashes, and only a carriage return may stand there
      have hmore : '\n' ∉ more := fun hmem => hline (List.mem_append_right _ hmem)
      rcases eq_of_lineEnds hmore hends with rfl | rfl
      · exact .inl rfl
      · exact .inr rfl
    · cases dashes with
      | nil => exact .inl (hdashes.trans (List.append_nil line)).symm
      | cons c dashes =>
          -- the line ends before the dashes do, but they hold no line break
          obtain rfl := (List.cons.inj hrest).1
          have hmem : '\n' ∈ ['-', '-', '-'] :=
            hdashes.symm ▸ List.mem_append_right line List.mem_cons_self
          exact absurd hmem (by decide)
  · rintro (rfl | rfl) <;> rfl

theorem beforeClosing?_break (rest : List Char) : beforeClosing? ('\n' :: rest) =
    if closesAt rest then some [] else (beforeClosing? rest).map ('\n' :: ·) := rfl

theorem beforeClosing?_cons {c : Char} (hc : c ≠ '\n') (rest : List Char) :
    beforeClosing? (c :: rest) = (beforeClosing? rest).map (c :: ·) := by
  simp [beforeClosing?, hc]

/-- Up to the end of a line the block goes on, and it ends there if a closing line follows. -/
theorem beforeClosing?_line (hline : '\n' ∉ line) (rest : List Char) :
    beforeClosing? (line ++ '\n' :: rest) =
      if closesAt rest then some line else (beforeClosing? rest).map (line ++ '\n' :: ·) := by
  induction line with
  | nil => exact beforeClosing?_break rest
  | cons c line ih =>
      rw [List.mem_cons, not_or] at hline
      rw [List.cons_append, beforeClosing?_cons (Ne.symm hline.1), ih hline.2]
      split
      · rfl
      · rw [Option.map_map]
        rfl

/-- The first closing line ends the block, if it is not its first line. The induction is on the
lines before it. -/
theorem beforeClosing?_lines (hclosing : IsMarker closing) (body : List Char) :
    ∀ {lines : List (List Char)} {line : List Char}, '\n' ∉ line → (∀ l ∈ lines, '\n' ∉ l) →
      (∀ l ∈ lines, ¬IsMarker l) →
      beforeClosing? (line ++ '\n' :: (lines.flatMap (· ++ ['\n']) ++ (closing ++ '\n' :: body))) =
        some (['\n'].intercalate (line :: lines))
  | [], line, hline, _, _ => by
      have hunbroken : '\n' ∉ closing := by rcases hclosing with rfl | rfl <;> decide
      rw [List.flatMap_nil, List.nil_append, beforeClosing?_line hline,
        if_pos ((closesAt_line_iff hunbroken body).mpr hclosing), List.intercalate_singleton]
  | l :: lines, line, hline, hlines, hmarkers => by
      have hl := hlines l List.mem_cons_self
      have hnext := beforeClosing?_lines hclosing body hl
        (fun m hm => hlines m (List.mem_cons_of_mem l hm))
        fun m hm => hmarkers m (List.mem_cons_of_mem l hm)
      rw [List.flatMap_cons, List.append_assoc, List.append_assoc, List.singleton_append,
        beforeClosing?_line hline,
        if_neg fun h => hmarkers l List.mem_cons_self ((closesAt_line_iff hl _).mp h), hnext]
      simp [List.intercalate_cons_cons]

/-! ## Headers -/

/-- An opening line, some lines and the first closing line after it, each with its line end. -/
structure Header (lines : List (List Char)) (front : List Char) : Prop where
  unbroken : ∀ line ∈ lines, '\n' ∉ line
  unmarked : ∀ line ∈ lines, ¬IsMarker line
  written : ∃ opening closing, IsMarker opening ∧ IsMarker closing ∧
    front = opening ++ '\n' :: (lines.flatMap (· ++ ['\n']) ++ (closing ++ ['\n']))

theorem block?_of_opening (h : IsMarker opening) (rest : List Char) :
    block? (opening ++ '\n' :: rest) = beforeClosing? rest := by
  rcases h with rfl | rfl <;> rfl

theorem Header.block?_eq (h : Header lines front) (hlines : lines ≠ []) (body : List Char) :
    block? (front ++ body) = some (['\n'].intercalate lines) := by
  obtain ⟨opening, closing, hopening, hclosing, rfl⟩ := h.written
  obtain ⟨line, lines, rfl⟩ := List.exists_cons_of_ne_nil hlines
  have hread := beforeClosing?_lines hclosing body (h.unbroken line List.mem_cons_self)
    (fun l hl => h.unbroken l (List.mem_cons_of_mem line hl))
    fun l hl => h.unmarked l (List.mem_cons_of_mem line hl)
  rw [List.append_assoc, List.cons_append, block?_of_opening hopening, ← hread]
  simp

/-! ## Titles -/

theorem aliases?_congr {content content' : String}
    (h : block? content.toList = block? content'.toList) :
    aliases? content = aliases? content' := by
  rw [aliases?, aliases?, h]

/-- A header without lines leaves it to the body where the block ends. -/
theorem Header.body_matters {front : String} (h : Header [] front.toList) :
    aliases? (front ++ "alias: x\n---\n") ≠ aliases? (front ++ "") := by
  obtain ⟨opening, closing, hopening, hclosing, hfront⟩ := h.written
  obtain rfl : front = _ := String.ofList_toList.symm.trans (congrArg String.ofList hfront)
  rcases hopening with rfl | rfl <;> rcases hclosing with rfl | rfl <;> decide +kernel

/-- Nothing behind a header has a say in the titles of a note exactly if the header has lines
between its markers. These lines are then the block that is read. -/
theorem titles_of_header_iff {lines : List (List Char)} {front : String}
    (h : Header lines front.toList) :
    ((∀ body body' : String, aliases? (front ++ body) = aliases? (front ++ body')) ↔ lines ≠ []) ∧
    (lines ≠ [] → ∀ body : String,
      block? (front ++ body).toList = some (['\n'].intercalate lines)) := by
  have hread : lines ≠ [] → ∀ body : String,
      block? (front ++ body).toList = some (['\n'].intercalate lines) := fun hlines body => by
    rw [String.toList_append]
    exact h.block?_eq hlines body.toList
  refine ⟨⟨?_, fun hlines body body' => ?_⟩, hread⟩
  · rintro hsame rfl
    exact h.body_matters (hsame _ _)
  · exact aliases?_congr ((hread hlines body).trans (hread hlines body').symm)

/-- A header with a title and a line that is no marker, before two bodies with markers. -/
theorem titles_of_commented_header :
    let front := "---\r\nalias: x\r\n# ---\n---\r\n"
    let lines := ["alias: x\r".toList, "# ---".toList]
    Header lines front.toList ∧ lines ≠ [] ∧ aliases? (front ++ "") = some "x" ∧
      aliases? (front ++ "alias: y\n---\n") = aliases? (front ++ "") := by
  intro front lines
  have hheader : Header lines front.toList := {
    unbroken := by decide
    unmarked := by decide
    written :=
      ⟨['-', '-', '-', '\r'], ['-', '-', '-', '\r'], .inr rfl, .inr rfl, by decide +kernel⟩ }
  have hlines : lines ≠ [] := List.cons_ne_nil _ _
  exact ⟨hheader, hlines, by decide +kernel, (titles_of_header_iff hheader).1.mpr hlines _ _⟩

/-- Right behind the opening line the closing one is overlooked, and a title is read in the body. -/
theorem title_read_in_body :
    Header [] "---\n---\n".toList ∧ aliases? ("---\n---\n" ++ "alias: x\n---\n") = some "x" ∧
      aliases? ("---\n---\n" ++ "") = none := by
  refine ⟨⟨fun _ h => absurd h List.not_mem_nil, fun _ h => absurd h List.not_mem_nil,
    ['-', '-', '-'], ['-', '-', '-'], .inl rfl, .inl rfl, by decide +kernel⟩, ?_, ?_⟩
  · decide +kernel
  · decide +kernel

end VaultSearch.FrontMatter
