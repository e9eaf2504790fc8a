import Mathlib.Data.List.Forall2
import Mathlib.Data.Nat.Digits.Defs
import VaultSearch.Index
import VaultSearch.Proofs.Snapshot.Corruption

/-!
# Binary formats

A `Spelling` tells which bytes stand for a value, without saying how they are
read: the digits of a number, the size and the bytes of a text, the count
and the spellings of the members of a list. A value may have more than one
spelling. That of an index has: its terms may come in any order, and of two
lists of postings for one term the later one counts.

`Codec.Parses` says that the reader of a codec reads a format and nothing
else: it takes a spelling off the front of the bytes and leaves the rest,
and it refuses bytes that begin with no spelling. The shapes of codecs are
taken one by one, up to the whole index (`Index.codec_parses`).
-/

namespace VaultSearch

/-- Which bytes stand for a value. -/
abbrev Spelling (α : Type) := List UInt8 → α → Prop

namespace Spelling

variable {α β : Type}

/-- A number of `width` bytes, its digits in base 256, lowest first. -/
def number (width : Nat) : Spelling Nat := fun bs n =>
  bs.length = width ∧ Nat.ofDigits 256 (bs.map UInt8.toNat) = n

theorem number.lt {width n : Nat} {bs : List UInt8} (h : number width bs n) :
    n < 256 ^ width := by
  obtain ⟨rfl, rfl⟩ := h
  rw [← List.length_map (f := UInt8.toNat)]
  refine Nat.ofDigits_lt_base_pow_length (by decide) fun n hn => ?_
  obtain ⟨b, -, rfl⟩ := List.mem_map.mp hn
  exact b.toNat_lt

/-- The number of bytes as a number of eight bytes, then the UTF-8 bytes. -/
def text : Spelling String := fun bs s =>
  ∃ size, number 8 size (Utf8.encode s).length ∧ bs = size ++ Utf8.encode s

/-- The number of members as a number of eight bytes, then the members. -/
def list (F : Spelling α) : Spelling (List α) := fun bs as =>
  ∃ size parts, number 8 size as.length ∧ List.Forall₂ F parts as ∧ bs = size ++ parts.flatten

def pair (F : Spelling α) (G : Spelling β) : Spelling (α × β) := fun bs p =>
  ∃ front back, F front p.1 ∧ G back p.2 ∧ bs = front ++ back

/-- A byte 0 for no value, or a byte 1 and the value. -/
def option (F : Spelling α) : Spelling (Option α)
  | bs, none => bs = [0]
  | bs, some a => ∃ body, F body a ∧ bs = 1 :: body

/-- The spellings of what `f` makes of a value. -/
def comap (f : β → α) (F : Spelling α) : Spelling β := fun bs b => F bs (f b)

def perField (F : Spelling Nat) : Spelling (PerField Nat) :=
  (F.pair (F.pair (F.pair F))).comap fun v => (v.basename, v.aliases, v.folder, v.content)

def posting : Spelling Posting :=
  ((number 4).pair (number 4)).comap fun p => (p.doc, p.field.number)

def entry : Spelling Entry :=
  (text.pair (text.list.pair (perField (number 4)))).comap fun e => (e.path, e.terms, e.lengths)

/-- The postings of each term, in any order of the terms. What was said of a term before does
not count. -/
def postings : Spelling Postings := fun bs m =>
  ∃ lists, (text.pair posting.list).list bs lists ∧
    ∀ t : String, m[t]? = (lists.reverse.lookup t).map List.toArray

/-- The slots, the postings, the field totals and the number of live documents. -/
def index : Spelling Index :=
  (entry.option.list.pair (postings.pair ((perField (number 8)).pair (number 8)))).comap
    fun ix => (ix.docs.toList, ix.postings, ix.totals, ix.live)

end Spelling

theorem Utf8.decode?_eq_some_iff {bs : List UInt8} {s : String} :
    Utf8.decode? bs = some s ↔ Utf8.encode s = bs := by
  refine ⟨Utf8.encode_of_decode?, ?_⟩
  rintro rfl
  exact Utf8.decode?_encode s

namespace Codec

variable {α β : Type} {c : Codec α} {d : Codec β} {F : Spelling α} {G : Spelling β}

/-- The reader takes exactly the spellings of `F` off the front of the bytes. -/
def Parses (c : Codec α) (F : Spelling α) : Prop :=
  ∀ bs a rest, c.decode bs = some (a, rest) ↔ ∃ front, F front a ∧ bs = front ++ rest

/-- Bytes are refused if they begin with no spelling. -/
theorem Parses.decode_eq_none_iff (h : c.Parses F) {bs : List UInt8} :
    c.decode bs = none ↔ ∀ front rest a, bs = front ++ rest → ¬F front a := by
  rw [Option.eq_none_iff_forall_ne_some]
  constructor
  · rintro hnone front rest a hbs hF
    exact hnone (a, rest) ((h bs a rest).mpr ⟨front, hF, hbs⟩)
  · rintro hnone ⟨a, rest⟩ hread
    obtain ⟨front, hF, hbs⟩ := (h bs a rest).mp hread
    exact hnone front rest a hbs hF

/-! ## Numbers and texts -/

theorem readNumber_eq_some_iff (width : Nat) (bs : List UInt8) (n : Nat) (rest : List UInt8) :
    readNumber width bs = some (n, rest) ↔
      ∃ front, Spelling.number width front n ∧ bs = front ++ rest := by
  induction width generalizing bs n with
  | zero =>
      rw [readNumber, Option.some.injEq, Prod.mk.injEq]
      constructor
      · rintro ⟨rfl, rfl⟩
        exact ⟨[], ⟨rfl, rfl⟩, rfl⟩
      · rintro ⟨front, ⟨hlen, hn⟩, rfl⟩
        obtain rfl := List.length_eq_zero_iff.mp hlen
        exact ⟨hn, rfl⟩
  | succ width ih =>
      cases bs with
      | nil =>
          constructor
          · intro h
            cases h
          · rintro ⟨front, ⟨hlen, -⟩, hbs⟩
            obtain ⟨rfl, -⟩ := List.append_eq_nil_iff.mp hbs.symm
            cases hlen
      | cons b bs =>
          rw [readNumber, Option.map_eq_some_iff]
          constructor
          · rintro ⟨⟨m, rest'⟩, hm, heq⟩
            obtain ⟨rfl, rfl⟩ := Prod.mk.inj heq
            obtain ⟨front, ⟨hlen, hn⟩, rfl⟩ := (ih bs m).mp hm
            refine ⟨b :: front, ⟨congrArg Nat.succ hlen, ?_⟩, rfl⟩
            rw [List.map_cons, Nat.ofDigits_cons, hn]
          · rintro ⟨front, ⟨hlen, hn⟩, hbs⟩
            cases front with
            | nil => cases hlen
            | cons b' front =>
                obtain ⟨rfl, rfl⟩ := List.cons.inj hbs
                rw [List.map_cons, Nat.ofDigits_cons] at hn
                exact ⟨_, (ih _ _).mpr ⟨front, ⟨Nat.succ.inj hlen, rfl⟩, rfl⟩, by rw [← hn]⟩

theorem number_parses (width : Nat) : (number width).Parses (Spelling.number width) :=
  readNumber_eq_some_iff width

/-- A number has one spelling, if it is not too large for one. -/
theorem number_iff {width n : Nat} {bs : List UInt8} :
    Spelling.number width bs n ↔ n < 256 ^ width ∧ bs = numberBytes width n := by
  constructor
  · intro h
    have hread := (number_parses width bs n []).mpr ⟨bs, h, (List.append_nil _).symm⟩
    exact ⟨h.lt, (eq_of_readNumber hread).trans (List.append_nil _)⟩
  · rintro ⟨hn, rfl⟩
    obtain ⟨front, hfront, heq⟩ :=
      (number_parses width _ n []).mp (number_inverts width n [] hn)
    rw [List.append_nil, List.append_nil] at heq
    subst heq
    exact hfront

theorem splitExact?_eq_some_iff {n : Nat} {bs front rest : List UInt8} :
    splitExact? n bs = some (front, rest) ↔ bs = front ++ rest ∧ front.length = n := by
  refine ⟨splitExact?_eq_some, ?_⟩
  rintro ⟨rfl, rfl⟩
  exact splitExact?_append front rest

theorem text_parses : text.Parses Spelling.text := by
  intro bs s rest
  have hread : text.decode bs = some (s, rest) ↔ ∃ n tail front,
      u64.decode bs = some (n, tail) ∧ splitExact? n tail = some (front, rest) ∧
        Utf8.decode? front = some s := by
    simp [text, Option.bind_eq_some_iff]
  simp only [hread, number_parses 8 _ _ _, u64, splitExact?_eq_some_iff, Utf8.decode?_eq_some_iff]
  constructor
  · rintro ⟨n, tail, front, ⟨size, hsize, rfl⟩, ⟨rfl, rfl⟩, rfl⟩
    exact ⟨size ++ Utf8.encode s, ⟨size, hsize, rfl⟩, (List.append_assoc ..).symm⟩
  · rintro ⟨front, ⟨size, hsize, rfl⟩, rfl⟩
    exact ⟨_, _, _, ⟨size, hsize, List.append_assoc ..⟩, ⟨rfl, rfl⟩, rfl⟩

/-! ## Lists -/

theorem readMany_eq_some_iff (h : c.Parses F) (n : Nat) (done : List α) (bs : List UInt8)
    (as : List α) (rest : List UInt8) : readMany c n done bs = some (as, rest) ↔
      ∃ parts more, List.Forall₂ F parts more ∧ more.length = n ∧ as = done.reverse ++ more ∧
        bs = parts.flatten ++ rest := by
  induction n generalizing done bs with
  | zero =>
      rw [readMany, Option.some.injEq, Prod.mk.injEq]
      constructor
      · rintro ⟨rfl, rfl⟩
        exact ⟨[], [], .nil, rfl, (List.append_nil _).symm, rfl⟩
      · rintro ⟨parts, more, hparts, hlen, rfl, rfl⟩
        obtain rfl := List.length_eq_zero_iff.mp hlen
        cases hparts
        exact ⟨(List.append_nil _).symm, rfl⟩
  | succ n ih =>
      rw [readMany]
      cases hread : c.decode bs with
      | none =>
          constructor
          · intro hnone
            cases hnone
          · rintro ⟨parts, more, hparts, hlen, -, rfl⟩
            cases hparts with
            | nil => cases hlen
            | @cons part a parts more hpart hparts =>
                rw [h.decode_eq_none_iff] at hread
                exact absurd hpart (hread part (parts.flatten ++ rest) a (by simp))
      | some read =>
          obtain ⟨a, tail⟩ := read
          obtain ⟨part, hpart, rfl⟩ := (h bs a tail).mp hread
          simp only [ih]
          constructor
          · rintro ⟨parts, more, hparts, hlen, rfl, rfl⟩
            exact ⟨part :: parts, a :: more, .cons hpart hparts, congrArg Nat.succ hlen,
              by simp, by simp⟩
          · rintro ⟨parts, more, hparts, hlen, rfl, hbs⟩
            cases hparts with
            | nil => cases hlen
            | @cons part' a' parts more hpart' hparts =>
                -- the first member is the one that was read
                have hread' := (h _ a' (parts.flatten ++ rest)).mpr
                  ⟨part', hpart', hbs.trans (by simp)⟩
                rw [hread] at hread'
                obtain ⟨rfl, rfl⟩ := Prod.mk.inj (Option.some.inj hread')
                exact ⟨parts, more, hparts, Nat.succ.inj hlen, by simp, rfl⟩

theorem list_parses (h : c.Parses F) : c.list.Parses F.list := by
  intro bs as rest
  have hread : c.list.decode bs = some (as, rest) ↔ ∃ n tail,
      u64.decode bs = some (n, tail) ∧ readMany c n [] tail = some (as, rest) := by
    simp [list, Option.bind_eq_some_iff]
  simp only [hread, number_parses 8 _ _ _, u64, readMany_eq_some_iff h]
  constructor
  · rintro ⟨n, tail, ⟨size, hsize, rfl⟩, parts, more, hparts, rfl, rfl, rfl⟩
    exact ⟨_, ⟨size, parts, hsize, hparts, rfl⟩, (List.append_assoc ..).symm⟩
  · rintro ⟨front, ⟨size, parts, hsize, hparts, rfl⟩, rfl⟩
    exact ⟨_, _, ⟨size, hsize, List.append_assoc ..⟩, parts, as, hparts, rfl, rfl, rfl⟩

/-! ## Other shapes -/

theorem pair_parses (hc : c.Parses F) (hd : d.Parses G) : (c.pair d).Parses (F.pair G) := by
  rintro bs ⟨a, b⟩ rest
  have hread : (c.pair d).decode bs = some ((a, b), rest) ↔ ∃ tail,
      c.decode bs = some (a, tail) ∧ d.decode tail = some (b, rest) := by
    simp [pair, Option.bind_eq_some_iff]
  simp only [hread, hc _ _ _, hd _ _ _]
  constructor
  · rintro ⟨tail, ⟨front, hF, rfl⟩, back, hG, rfl⟩
    exact ⟨_, ⟨front, back, hF, hG, rfl⟩, (List.append_assoc ..).symm⟩
  · rintro ⟨both, ⟨front, back, hF, hG, rfl⟩, rfl⟩
    exact ⟨_, ⟨front, hF, List.append_assoc ..⟩, back, hG, rfl⟩

theorem option_decode_eq_some_iff {bs rest : List UInt8} {o : Option α} :
    c.option.decode bs = some (o, rest) ↔ (o = none ∧ bs = 0 :: rest) ∨
      ∃ a tail, o = some a ∧ bs = 1 :: tail ∧ c.decode tail = some (a, rest) := by
  cases bs with
  | nil => simp [option]
  | cons b bs =>
      by_cases h0 : b = 0
      · subst h0
        simp [option, eq_comm]
      · by_cases h1 : b = 1
        · subst h1
          have hone : c.option.decode (1 :: bs) = (c.decode bs).map fun r => (some r.1, r.2) := rfl
          rw [hone, Option.map_eq_some_iff]
          constructor
          · rintro ⟨⟨a, tail⟩, hread, heq⟩
            obtain ⟨rfl, rfl⟩ := Prod.mk.inj heq
            exact .inr ⟨a, bs, rfl, rfl, hread⟩
          · rintro (⟨-, hbs⟩ | ⟨a, tail, rfl, hbs, hread⟩)
            · exact absurd (List.cons.inj hbs).1 h0
            · obtain ⟨-, rfl⟩ := List.cons.inj hbs
              exact ⟨(a, rest), hread, rfl⟩
        · simp [option, h0, h1]

theorem option_parses (h : c.Parses F) : c.option.Parses F.option := by
  intro bs o rest
  rw [option_decode_eq_some_iff]
  constructor
  · rintro (⟨rfl, rfl⟩ | ⟨a, tail, rfl, rfl, hread⟩)
    · exact ⟨[0], rfl, rfl⟩
    · obtain ⟨body, hF, rfl⟩ := (h tail a rest).mp hread
      exact ⟨1 :: body, ⟨body, hF, rfl⟩, rfl⟩
  · rintro ⟨front, hF, rfl⟩
    cases o with
    | none =>
        obtain rfl : front = [0] := hF
        exact .inl ⟨rfl, rfl⟩
    | some a =>
        obtain ⟨body, hF, rfl⟩ := hF
        exact .inr ⟨a, body ++ rest, rfl, rfl, (h _ a rest).mpr ⟨body, hF, rfl⟩⟩

/-- What is read as a value of another type is spelled as the value that it comes from. -/
theorem imap_parses (h : c.Parses F) {there : α → Option β} {back : β → α} :
    (c.imap there back).Parses fun bs b => ∃ a, F bs a ∧ there a = some b := by
  intro bs b rest
  have hread : (c.imap there back).decode bs = some (b, rest) ↔ ∃ a,
      c.decode bs = some (a, rest) ∧ there a = some b := by
    simp [imap, Option.bind_eq_some_iff]
  simp only [hread, h _ _ _]
  constructor
  · rintro ⟨a, ⟨front, hF, rfl⟩, hb⟩
    exact ⟨front, ⟨a, hF, hb⟩, rfl⟩
  · rintro ⟨front, ⟨a, hF, hb⟩, rfl⟩
    exact ⟨a, ⟨front, hF, rfl⟩, hb⟩

theorem Parses.congr (h : c.Parses F) {F' : Spelling α} (heq : ∀ bs a, F bs a ↔ F' bs a) :
    c.Parses F' := by
  intro bs a rest
  rw [h bs a rest]
  simp only [heq]

/-- Where reading undoes `back` and nothing else, a value is spelled as what `back` makes of
it. -/
theorem imap_parses_comap (h : c.Parses F) {there : α → Option β} {back : β → α}
    (hthere : ∀ a b, there a = some b ↔ a = back b) : (c.imap there back).Parses (F.comap back) :=
  (imap_parses h).congr fun bs b => by
    simp only [hthere, exists_eq_right]
    rfl

end Codec

/-! ## The index -/

theorem Field.ofNumber?_eq_some_iff {n : Nat} {f : Field} :
    ofNumber? n = some f ↔ n = f.number := by
  match n with
  | 0 | 1 | 2 | 3 => cases f <;> simp [ofNumber?, number]
  | n + 4 => cases f <;> simp [ofNumber?, number]

theorem PerField.codec_parses {c : Codec Nat} {F : Spelling Nat} (h : c.Parses F) :
    (PerField.codec c).Parses (Spelling.perField F) :=
  Codec.imap_parses_comap (Codec.pair_parses h (Codec.pair_parses h (Codec.pair_parses h h)))
    fun (a, b, c, d) v => by
      rw [Option.some.injEq, PerField.mk.injEq, Prod.mk.injEq, Prod.mk.injEq, Prod.mk.injEq]

theorem Posting.codec_parses : Posting.codec.Parses Spelling.posting :=
  Codec.imap_parses_comap (Codec.pair_parses (Codec.number_parses 4) (Codec.number_parses 4))
    fun (doc, f) p => by
      simp only [Option.map_eq_some_iff, Field.ofNumber?_eq_some_iff, Prod.mk.injEq]
      constructor
      · rintro ⟨field, rfl, rfl⟩
        exact ⟨rfl, rfl⟩
      · rintro ⟨rfl, rfl⟩
        exact ⟨p.field, rfl, rfl⟩

theorem Entry.codec_parses : Entry.codec.Parses Spelling.entry :=
  Codec.imap_parses_comap (Codec.pair_parses Codec.text_parses
      (Codec.pair_parses (Codec.list_parses Codec.text_parses)
        (PerField.codec_parses (Codec.number_parses 4))))
    fun (path, terms, lengths) e => by
      rw [Option.some.injEq, Entry.mk.injEq, Prod.mk.injEq, Prod.mk.injEq]

/-- Of the lists put in for a term the last one is found. -/
theorem Postings.getElem?_foldl_insert (t : String) : ∀ (lists : List (String × List Posting))
    (m : Postings), (lists.foldl (fun m (t, ps) => m.insert t ps.toArray) m)[t]? =
      ((lists.reverse.lookup t).map List.toArray).or m[t]?
  | [], m => rfl
  | (u, ps) :: lists, m => by
      rw [List.foldl_cons, getElem?_foldl_insert t lists, List.reverse_cons, List.lookup_append,
        Std.ExtTreeMap.getElem?_insert]
      cases lists.reverse.lookup t with
      | some ps' => rfl
      | none =>
          by_cases hu : u = t
          · subst hu
            simp
          · have hu' : (t == u) = false := beq_false_of_ne fun h => hu h.symm
            simp [List.lookup_cons, hu, hu']

theorem Postings.codec_parses : Postings.codec.Parses Spelling.postings := by
  refine (Codec.imap_parses (Codec.list_parses (Codec.pair_parses Codec.text_parses
    (Codec.list_parses Posting.codec_parses)))).congr fun bs m => ?_
  refine exists_congr fun lists => and_congr_right fun _ => ?_
  rw [Option.some.injEq]
  have hget : ∀ t : String, (lists.foldl (fun m (t, ps) => m.insert t ps.toArray)
      ({} : Postings))[t]? = (lists.reverse.lookup t).map List.toArray := by
    intro t
    rw [getElem?_foldl_insert]
    simp
  constructor
  · rintro rfl
    exact hget
  · intro h
    exact Std.ExtTreeMap.ext_getElem? fun t => (hget t).trans (h t).symm

/-- The reader of an index reads its format, and nothing else. -/
theorem Index.codec_parses : Index.codec.Parses Spelling.index :=
  Codec.imap_parses_comap
    (Codec.pair_parses (Codec.list_parses (Codec.option_parses Entry.codec_parses))
      (Codec.pair_parses Postings.codec_parses
        (Codec.pair_parses (PerField.codec_parses (Codec.number_parses 8))
          (Codec.number_parses 8))))
    fun (docs, postings, totals, live) ix => by
      rw [Option.some.injEq, Index.mk.injEq, Prod.mk.injEq, Prod.mk.injEq, Prod.mk.injEq,
        ← Array.toList_inj]

end VaultSearch
