import Mathlib.Data.List.Induction
import Mathlib.Data.List.TakeDrop
import Mathlib.Data.List.TakeWhile
import VaultSearch.Query

/-!
# The command block of a query

The grammar of a query is told here from the outside: where its block ends
(`HasBlock`), which names stand in it (`blockNames`), and that of the names that
speak of a switch the last one counts (`lastSetting`). `parse_command_block` says
that this is what is read, and that what is written as commands and a text is
read back.
-/

namespace VaultSearch

namespace Text

variable {sep : Char} {before after cs : List Char}

theorem splitAtFirst?_eq_none (h : sep ∉ cs) : splitAtFirst? sep cs = none := by
  have hall : ∀ c ∈ cs, decide (c ≠ sep) = true := fun c hc =>
    decide_eq_true fun heq => h (heq ▸ hc)
  rw [splitAtFirst?, List.span_eq_takeWhile_dropWhile, List.dropWhile_eq_nil_iff.mpr hall]

theorem splitAtFirst?_append (h : sep ∉ before) :
    splitAtFirst? sep (before ++ sep :: after) = some (before, after) := by
  have hall : ∀ c ∈ before, decide (c ≠ sep) = true := fun c hc =>
    decide_eq_true fun heq => h (heq ▸ hc)
  rw [splitAtFirst?, List.span_eq_takeWhile_dropWhile, List.takeWhile_append_of_pos hall,
    List.dropWhile_append_of_pos hall]
  simp

end Text

/-! ## Names -/

namespace Command

/-- How a command is written in a block. -/
def name : Command → List Char
  | prefixOn => ['a', 'p']
  | prefixOff => ['n', 'p']
  | fuzzyOn => ['a', 'f']
  | fuzzyOff => ['n', 'f']

/-- The names that a block may hold. -/
def names : List (List Char) := [['a', 'p'], ['n', 'p'], ['a', 'f'], ['n', 'f']]

theorem ofName?_name (c : Command) : ofName? c.name = some c := by
  cases c <;> rfl

theorem mem_names_iff {n : List Char} : n ∈ names ↔ ∃ c : Command, n = c.name := by
  constructor
  · simp only [names, List.mem_cons, List.not_mem_nil, or_false]
    rintro (rfl | rfl | rfl | rfl)
    exacts [⟨prefixOn, rfl⟩, ⟨prefixOff, rfl⟩, ⟨fuzzyOn, rfl⟩, ⟨fuzzyOff, rfl⟩]
  · rintro ⟨c, rfl⟩
    cases c <;> decide

theorem eq_name_of_ofName? {n : List Char} {c : Command} (h : ofName? n = some c) :
    n = c.name := by
  rw [ofName?.eq_def] at h
  split at h <;> cases h <;> rfl

theorem ofName?_eq_none {n : List Char} (h : n ∉ names) : ofName? n = none := by
  cases hc : ofName? n with
  | none => rfl
  | some c => exact absurd (mem_names_iff.mpr ⟨c, eq_name_of_ofName? hc⟩) h

theorem exists_map_name {ns : List (List Char)} (h : ∀ n ∈ ns, n ∈ names) :
    ∃ cs : List Command, ns = cs.map name := by
  induction ns with
  | nil => exact ⟨[], rfl⟩
  | cons n ns ih =>
      obtain ⟨c, rfl⟩ := mem_names_iff.mp (h n List.mem_cons_self)
      obtain ⟨cs, rfl⟩ := ih fun m hm => h m (List.mem_cons_of_mem _ hm)
      exact ⟨c :: cs, rfl⟩

/-! ## Switches -/

/-- What a list of names makes of a switch that `on` and `off` speak of: the last of them counts,
and without any the switch stays as it is by default. -/
def lastSetting (on off : List Char) (ns : List (List Char)) (default : Bool) : Bool :=
  ((ns.filter fun n => n = on || n = off).getLast?.map fun n => decide (n = on)).getD default

theorem lastSetting_concat (on off n : List Char) (ns : List (List Char)) (default : Bool) :
    lastSetting on off (ns ++ [n]) default =
      if n = on then true else if n = off then false else lastSetting on off ns default := by
  by_cases hon : n = on
  · simp [lastSetting, hon]
  · by_cases hoff : n = off
    · simp [lastSetting, hoff, show off ≠ on from hoff ▸ hon]
    · simp [lastSetting, hon, hoff]

/-- The commands of a block leave each switch as the last of its names says. -/
theorem foldl_apply (defaults : Toggles) (cs : List Command) : cs.foldl apply defaults =
    ⟨lastSetting prefixOn.name prefixOff.name (cs.map name) defaults.prefixMatch,
      lastSetting fuzzyOn.name fuzzyOff.name (cs.map name) defaults.fuzzyMatch⟩ := by
  induction cs using List.reverseRecOn with
  | nil => rfl
  | append_singleton cs c ih =>
      rw [List.foldl_append, List.foldl_cons, List.foldl_nil, ih, List.map_append,
        List.map_singleton, lastSetting_concat, lastSetting_concat]
      cases c <;> rfl

end Command

namespace Query

open Command (lastSetting)

/-! ## Blocks -/

/-- The block of a query goes from its slash to the first space, which the text follows, or to the
end of the query. -/
inductive HasBlock : List Char → List Char → List Char → Prop where
  | alone {block : List Char} (h : ' ' ∉ block) : HasBlock ('/' :: block) block []
  | followed {block : List Char} (h : ' ' ∉ block) (text : List Char) :
      HasBlock ('/' :: (block ++ ' ' :: text)) block text

theorem exists_hasBlock (rest : List Char) : ∃ block text, HasBlock ('/' :: rest) block text := by
  by_cases hspace : ' ' ∈ rest
  · obtain ⟨block, text, rfl, h⟩ := List.eq_append_cons_of_mem hspace
    exact ⟨block, text, .followed h text⟩
  · exact ⟨rest, [], .alone hspace⟩

theorem HasBlock.exists_rest {raw block text : List Char} (h : HasBlock raw block text) :
    ∃ rest, raw = '/' :: rest ∧
      (Text.splitAtFirst? ' ' rest).getD (rest, []) = (block, text) := by
  cases h with
  | alone h => exact ⟨block, rfl, by rw [Text.splitAtFirst?_eq_none h, Option.getD_none]⟩
  | followed h text =>
      exact ⟨block ++ ' ' :: text, rfl, by rw [Text.splitAtFirst?_append h, Option.getD_some]⟩

theorem HasBlock.unique {raw block text block' text' : List Char} (h : HasBlock raw block text)
    (h' : HasBlock raw block' text') : block' = block ∧ text' = text := by
  obtain ⟨rest, rfl, hsplit⟩ := h.exists_rest
  obtain ⟨rest', hrest, hsplit'⟩ := h'.exists_rest
  obtain rfl := (List.cons.inj hrest).2
  exact Prod.mk.inj (hsplit'.symm.trans hsplit)

/-- The names between the slashes of a block. -/
def blockNames (block : List Char) : List (List Char) :=
  (block.splitOnP (· = '/')).filter (· ≠ [])

theorem commands_map_name : ∀ cs : List Command, commands (cs.map Command.name) = .ok cs
  | [] => rfl
  | c :: cs => by
      have htail := commands_map_name cs
      rw [commands] at htail ⊢
      rw [List.map_cons, List.mapM_cons, Command.ofName?_name, htail]
      rfl

theorem commands_of_unknown {n : List Char} (h : n ∉ Command.names) (back : List (List Char)) :
    ∀ cs : List Command, commands (cs.map Command.name ++ n :: back) = .error n
  | [] => by
      rw [List.map_nil, List.nil_append, commands, List.mapM_cons, Command.ofName?_eq_none h]
      rfl
  | c :: cs => by
      have htail := commands_of_unknown h back cs
      rw [commands] at htail ⊢
      rw [List.map_cons, List.cons_append, List.mapM_cons, Command.ofName?_name, htail]
      rfl

variable {defaults : Toggles} {raw : String} {block text : List Char}

theorem parse_of_hasBlock (h : HasBlock raw.toList block text) : parse defaults raw =
    match commands (blockNames block) with
    | .ok cs => { text := String.ofList text, toggles := cs.foldl Command.apply defaults }
    | .error name =>
      { text := "", toggles := defaults, invalid := some (String.ofList name) } := by
  obtain ⟨rest, hraw, hsplit⟩ := h.exists_rest
  rw [parse, hraw]
  split
  · rename_i rest' hrest
    obtain ⟨-, rfl⟩ := List.cons.inj hrest
    rw [hsplit]
    rfl
  · rename_i hnone
    exact (hnone rest rfl).elim

/-! ## Written queries -/

/-- A query that gives the commands before the text. -/
def written (cs : List Command) (text : String) : String :=
  String.ofList ('/' :: (['/'].intercalate (cs.map Command.name) ++ ' ' :: text.toList))

theorem mem_of_mem_intercalate {c : Char} {sep : List Char} : ∀ {ls : List (List Char)},
    c ∈ sep.intercalate ls → c ∈ sep ∨ ∃ l ∈ ls, c ∈ l
  | [], h => by cases h
  | [l], h => by
      rw [List.intercalate_singleton] at h
      exact .inr ⟨l, List.mem_singleton_self l, h⟩
  | l :: m :: ls, h => by
      rw [List.intercalate_cons_cons, List.mem_append, List.mem_append] at h
      rcases h with (h | h) | h
      · exact .inr ⟨l, List.mem_cons_self, h⟩
      · exact .inl h
      · exact (mem_of_mem_intercalate h).imp_right fun ⟨x, hx, hc⟩ =>
          ⟨x, List.mem_cons_of_mem l hx, hc⟩

theorem not_mem_name {c : Char} (h : c ∉ ['a', 'p', 'n', 'f']) (d : Command) : c ∉ d.name := by
  intro hc
  cases d <;> simp_all [Command.name]

theorem hasBlock_written (cs : List Command) (text : String) :
    HasBlock (written cs text).toList (['/'].intercalate (cs.map Command.name)) text.toList := by
  rw [written, String.toList_ofList]
  refine .followed (fun hspace => ?_) text.toList
  rcases mem_of_mem_intercalate hspace with hslash | ⟨n, hn, hspace⟩
  · exact absurd (List.mem_singleton.mp hslash) (by decide)
  · obtain ⟨d, -, rfl⟩ := List.mem_map.mp hn
    exact not_mem_name (by decide) d hspace

theorem blockNames_intercalate (cs : List Command) :
    blockNames (['/'].intercalate (cs.map Command.name)) = cs.map Command.name := by
  cases cs with
  | nil => rfl
  | cons c cs =>
      have hslash : ∀ n ∈ (c :: cs).map Command.name, '/' ∉ n := by
        intro n hn
        obtain ⟨d, -, rfl⟩ := List.mem_map.mp hn
        exact not_mem_name (by decide) d
      have hsplit : (['/'].intercalate ((c :: cs).map Command.name)).splitOnP (· = '/') =
          (c :: cs).map Command.name :=
        List.splitOn_intercalate '/' hslash (List.cons_ne_nil _ _)
      rw [blockNames, hsplit, List.filter_eq_self]
      intro n hn
      obtain ⟨d, -, rfl⟩ := List.mem_map.mp hn
      cases d <;> rfl

/-! ## Parsing -/

theorem parse_of_no_slash (h : raw.toList.head? ≠ some '/') :
    parse defaults raw = { text := raw, toggles := defaults } := by
  rw [parse]
  split
  · rename_i rest hrest
    rw [hrest] at h
    exact absurd rfl h
  · rfl

theorem parse_of_names {cs : List Command} (h : HasBlock raw.toList block text)
    (hnames : blockNames block = cs.map Command.name) : parse defaults raw =
      { text := String.ofList text, toggles := cs.foldl Command.apply defaults } := by
  rw [parse_of_hasBlock h, hnames, commands_map_name]

theorem parse_of_unknown {n : List Char} (h : HasBlock raw.toList block text)
    (hn : (blockNames block).find? (· ∉ Command.names) = some n) : parse defaults raw =
      { text := "", toggles := defaults, invalid := some (String.ofList n) } := by
  obtain ⟨hunknown, front, back, hnames, hfront⟩ := List.find?_eq_some_iff_append.mp hn
  obtain ⟨cs, rfl⟩ := Command.exists_map_name fun m hm => by simpa using hfront m hm
  rw [parse_of_hasBlock h, hnames, commands_of_unknown (of_decide_eq_true hunknown)]

/-- The grammar of queries. Without a slash in front all is text. Otherwise a query has one block
and one text: if all names of the block are commands, the text is what is searched for and each
switch is set by the last name that speaks of it; if not, nothing is searched for, the switches
stay as they are by default and the first unknown name is reported. So commands and a text that
are written down are read back. -/
theorem parse_command_block (defaults : Toggles) (raw : String) :
    (raw.toList.head? ≠ some '/' → parse defaults raw = { text := raw, toggles := defaults }) ∧
    (raw.toList.head? = some '/' → ∃ block text, HasBlock raw.toList block text ∧
      ∀ block' text', HasBlock raw.toList block' text' → block' = block ∧ text' = text) ∧
    (∀ block text, HasBlock raw.toList block text →
      ((∀ n ∈ blockNames block, n ∈ Command.names) → parse defaults raw =
        { text := String.ofList text
          toggles :=
            ⟨lastSetting ['a', 'p'] ['n', 'p'] (blockNames block) defaults.prefixMatch,
              lastSetting ['a', 'f'] ['n', 'f'] (blockNames block) defaults.fuzzyMatch⟩ }) ∧
      ∀ n, (blockNames block).find? (· ∉ Command.names) = some n → parse defaults raw =
        { text := "", toggles := defaults, invalid := some (String.ofList n) }) ∧
    ∀ (cs : List Command) (text : String), parse defaults (written cs text) =
      { text, toggles := cs.foldl Command.apply defaults } := by
  refine ⟨parse_of_no_slash, fun hslash => ?_, fun block text h => ⟨fun hnames => ?_, fun n =>
    parse_of_unknown h⟩, fun cs text => ?_⟩
  · obtain ⟨rest, hraw⟩ := List.head?_eq_some_iff.mp hslash
    obtain ⟨block, text, h⟩ := exists_hasBlock rest
    rw [hraw]
    exact ⟨block, text, h, fun _ _ => h.unique⟩
  · obtain ⟨cs, hcs⟩ := Command.exists_map_name hnames
    rw [parse_of_names h hcs, Command.foldl_apply, hcs]
    rfl
  · rw [parse_of_names (hasBlock_written cs text) (blockNames_intercalate cs),
      String.ofList_toList]

/-- Commands between needless slashes, one of them taken back, before a text with slashes and
spaces; and a block with an unknown name between two known ones. -/
theorem parse_needless_slashes :
    HasBlock "/np//ap/af/ a/b c".toList "np//ap/af/".toList "a/b c".toList ∧
    parse ⟨true, false⟩ "/np//ap/af/ a/b c" = { text := "a/b c", toggles := ⟨true, true⟩ } ∧
    HasBlock "/np/zz/af x".toList "np/zz/af".toList "x".toList ∧
    parse ⟨true, false⟩ "/np/zz/af x" =
      { text := "", toggles := ⟨true, false⟩, invalid := some "zz" } := by
  have hknown : HasBlock "/np//ap/af/ a/b c".toList "np//ap/af/".toList "a/b c".toList :=
    @HasBlock.followed "np//ap/af/".toList (by decide) "a/b c".toList
  have hunknown : HasBlock "/np/zz/af x".toList "np/zz/af".toList "x".toList :=
    @HasBlock.followed "np/zz/af".toList (by decide) "x".toList
  have hread := ((parse_command_block ⟨true, false⟩ _).2.2.1 _ _ hknown).1 (by decide +kernel)
  have hreported :=
    ((parse_command_block ⟨true, false⟩ _).2.2.1 _ _ hunknown).2 "zz".toList (by decide +kernel)
  exact ⟨hknown, hread, hunknown, hreported⟩

end Query

end VaultSearch
