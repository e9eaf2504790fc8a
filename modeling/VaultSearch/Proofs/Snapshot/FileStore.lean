import VaultSearch.Proofs.Snapshot.Shelf

/-!
# A store on files is a pair of blobs

Whatever is asked of a store and in whatever order, it replies as a `Pair`
does, the current blob and the one before it (`Holds.behavesAs_pair`). It does
so from every state in which each of its files is absent or a regular file. A
save that is cut short leaves such a state behind: the current blob is the old
one, the new one or absent, and where it is absent the old one is the backup.
-/

namespace VaultSearch.FileStore

/-! ## Stores -/

/-- The folder is there or can be made, and `v` is what the files of the store hold; making
the folder uncovers no files. -/
structure Holds (s : FileStore) (v : Blobs) : Prop where
  tree : s.tree.IsTree
  held : ∀ slot : Slot, s.tree.lookup? (slot.path s.dir) = (v slot).map .file
  made : ∃ t, s.tree.makeFolders? s.dir = some t ∧
    ∀ slot : Slot, t.lookup? (slot.path s.dir) = (v slot).map .file

variable {s : FileStore} {v : Blobs}

theorem Shelf.holds {home : Location} {t : FileTree} (h : Shelf s.dir home v t) :
    Holds { s with tree := t } v where
  tree := h.tree
  held := h.lookup?
  made := ⟨t, h.makeFolders?, h.lookup?⟩

/-- In a folder that is there each file only has to be absent or regular. -/
theorem holds_of_isFolder (ht : s.tree.IsTree) (hdir : s.tree.isFolder s.dir)
    (hheld : ∀ slot : Slot, s.tree.lookup? (slot.path s.dir) = (v slot).map .file) :
    s.Holds v := by
  have hfolder : s.tree.lookup? s.dir = some .folder := by
    simpa [FileTree.isFolder] using hdir
  obtain ⟨home, hlocate, hhome⟩ := FileTree.exists_locate_of_lookup? hfolder
  rw [FileTree.locate_eq (FileTree.ne_empty_of_locate hlocate)] at hlocate
  exact (Shelf.of_lookup? ht hlocate hhome hheld).holds

namespace Holds

theorem exists_shelf (h : s.Holds v) :
    ∃ t home, s.tree.makeFolders? s.dir = some t ∧ Shelf s.dir home v t := by
  obtain ⟨t, hmade, hheld⟩ := h.made
  obtain ⟨ht, -, home, hway, hfolder⟩ := FileTree.makeFolders?_eq_some h.tree hmade
  exact ⟨t, home, hmade, .of_lookup? ht hway hfolder hheld⟩

theorem lookup?_of_some (h : s.Holds v) (slot : Slot) {blob : Blob} (hslot : v slot = some blob) :
    s.tree.lookup? (slot.path s.dir) = some (.file blob) := by
  rw [h.held, hslot, Option.map_some]

/-- Where a file is, the folder is. -/
theorem shelf_of_some (h : s.Holds v) {slot : Slot} {blob : Blob} (hslot : v slot = some blob) :
    ∃ home, Shelf s.dir home v s.tree := by
  obtain ⟨l, hlocate, -⟩ := FileTree.exists_locate_of_lookup? (h.lookup?_of_some slot hslot)
  obtain ⟨home, hway, hfolder, -⟩ := (FileTree.locate_join_name slot.isStep).mp hlocate
  exact ⟨home, .of_lookup? h.tree hway hfolder h.held⟩

theorem exists?_eq (h : s.Holds v) (slot : Slot) :
    s.tree.exists? (slot.path s.dir) = (v slot).isSome := by
  rw [FileTree.exists?, h.held, Option.isSome_map]

/-! ## Requests -/

theorem load_eq (h : s.Holds v) : s.load = .ok (v .current) := by
  have hexists : s.hasCurrent = (v .current).isSome := h.exists?_eq .current
  rw [load, hexists]
  cases hcurrent : v .current with
  | none => rfl
  | some blob =>
      have hlookup : s.tree.lookup? s.currentPath = some (.file blob) :=
        h.lookup?_of_some .current hcurrent
      rw [FileTree.read_of_lookup? hlookup]
      rfl

theorem restore_of_none (h : s.Holds v) (hbackup : v .backup = none) :
    s.restore = (.ok none, s) := by
  have hexists : s.tree.exists? s.backupPath = false := by
    rw [← Option.isSome_none, ← hbackup]
    exact h.exists?_eq .backup
  rw [restore, hexists]
  rfl

theorem restore_of_some (h : s.Holds v) {blob : Blob} (hbackup : v .backup = some blob) :
    s.restore.1 = .ok (some blob) ∧
      s.restore.2.Holds (Function.update v .current (some blob)) := by
  obtain ⟨home, hshelf⟩ := h.shelf_of_some hbackup
  have hexists : s.tree.exists? s.backupPath = true := by
    rw [← Option.isSome_some, ← hbackup]
    exact h.exists?_eq .backup
  have hlookup : s.tree.lookup? s.backupPath = some (.file blob) :=
    h.lookup?_of_some .backup hbackup
  have hcopy : s.tree.copy? s.backupPath s.currentPath =
      some (s.tree.put (home ++ [Slot.current.name]) (.file blob)) := by
    rw [FileTree.copy?, FileTree.read?, FileTree.read_of_lookup? hlookup]
    exact hshelf.write? .current blob
  have hafter := (hshelf.put .current blob).holds
  have hread : (s.tree.put (home ++ [Slot.current.name]) (.file blob)).lookup? s.backupPath =
      some (.file blob) :=
    hafter.lookup?_of_some .backup hbackup
  rw [restore, hexists, FileTree.isFile_of_lookup? hlookup, hcopy]
  refine ⟨?_, hafter⟩
  simp [FileTree.read?, FileTree.read_of_lookup? hread, Except.toOption]

/-- A file that is there is removed. -/
theorem removeIfThere (h : s.Holds v) (slot : Slot) :
    ∃ t, FileStore.removeIfThere s.tree (slot.path s.dir) = some t ∧
      Holds { s with tree := t } (Function.update v slot none) := by
  rw [FileStore.removeIfThere, h.exists?_eq]
  cases hslot : v slot with
  | none =>
      rw [Function.update_eq_self_iff.mpr hslot.symm]
      exact ⟨s.tree, rfl, h⟩
  | some blob =>
      obtain ⟨home, hshelf⟩ := h.shelf_of_some hslot
      refine ⟨_, ?_, (hshelf.cut hslot).holds⟩
      rw [Option.isSome_some, if_pos rfl, hshelf.removeFile?, hslot, Option.map_some]

theorem removeEach : ∀ (slots : List Slot) {s : FileStore} {v : Blobs}, s.Holds v →
    ∃ t, FileStore.removeEach (slots.map (Slot.path s.dir)) s.tree = (.ok (), t) ∧
      Holds { s with tree := t } (slots.foldl (fun v slot => Function.update v slot none) v)
  | [], s, _, h => ⟨s.tree, rfl, h⟩
  | slot :: slots, _, _, h => by
      obtain ⟨t, hremove, ht⟩ := h.removeIfThere slot
      obtain ⟨t', hrest, ht'⟩ := removeEach slots ht
      refine ⟨t', ?_, ht'⟩
      rw [List.map_cons, FileStore.removeEach, hremove]
      exact hrest

theorem clear_eq (h : s.Holds v) : s.clear.1 = .ok () ∧ s.clear.2.Holds fun _ => none := by
  obtain ⟨t, hremove, ht⟩ := h.removeEach [.current, .backup, .temp]
  have hclear : s.clear = (.ok (), { s with tree := t }) := by
    rw [clear]
    exact congrArg (fun r => (r.1, { s with tree := r.2 })) hremove
  have hnone : [Slot.current, .backup, .temp].foldl
      (fun v slot => Function.update v slot none) v = fun _ => none := by
    funext slot
    cases slot <;> simp [Function.update]
  rw [hclear]
  exact ⟨rfl, hnone ▸ ht⟩

end Holds

/-! ## Saving -/

/-- The operations that put the new blob in the place of the current one. -/
def slotMoves (replaces : Bool) : List (Bool × SlotStep) :=
  (if replaces then [(true, .remove .backup), (true, .move .current .backup)] else []) ++
    [(false, .move .temp .current)]

/-- The operations of a save on the files of the store. -/
def slotSteps (v : Blobs) (blob : Blob) : List (Bool × SlotStep) :=
  (false, .write .temp blob) :: slotMoves (v .current).isSome

/-- What the files hold after a save. -/
def saved (v : Blobs) (blob : Blob) : Blobs
  | .current => some blob
  | .backup => (v .current).or (v .backup)
  | .temp => none

section

variable {rest : List (Bool × SlotStep)} {optional : Bool} {slot source target : Slot}
  {bytes : Blob}

theorem runOn_write : runOn ((optional, .write slot bytes) :: rest) v =
    runOn rest (Function.update v slot (some bytes)) := rfl

/-- Where nothing is to be removed, the removal fails and changes nothing. -/
theorem runOn_remove :
    runOn ((true, .remove slot) :: rest) v = runOn rest (Function.update v slot none) := by
  rw [runOn, SlotStep.run?]
  cases hslot : v slot with
  | none =>
      rw [Function.update_eq_self_iff.mpr hslot.symm]
      rfl
  | some blob => rfl

theorem runOn_move (h : v source = some bytes) :
    runOn ((optional, .move source target) :: rest) v =
      runOn rest (Function.update (Function.update v source none) target (some bytes)) := by
  rw [runOn, SlotStep.run?, h]
  rfl

end

theorem runOn_slotSteps (v : Blobs) (blob : Blob) :
    runOn (slotSteps v blob) v = (.ok (), saved v blob) := by
  have hsaved : ∀ w : Blobs, w .current = some blob → w .backup = (v .current).or (v .backup) →
      w .temp = none → runOn [] w = (.ok (), saved v blob) := by
    intro w hcurrent hbackup htemp
    have hw : w = saved v blob := by
      funext slot
      cases slot <;> assumption
    rw [hw]
    rfl
  rw [slotSteps, runOn_write, slotMoves]
  cases hcurrent : v .current with
  | none =>
      rw [Option.isSome_none, if_neg (by simp), List.nil_append, runOn_move rfl]
      exact hsaved _ rfl (by simp [hcurrent]) rfl
  | some old =>
      rw [Option.isSome_some, if_pos rfl, List.cons_append, List.cons_append, List.nil_append,
        runOn_remove]
      refine Eq.trans (runOn_move hcurrent) (Eq.trans (runOn_move rfl) ?_)
      exact hsaved _ rfl (by simp [hcurrent]) rfl

/-- The current blob is the old one, the new one or absent, and it is absent only if there
was none or the old one is the backup. -/
structure Safe (old new : Blobs) (blob : Blob) : Prop where
  current : new .current = old .current ∨ new .current = some blob ∨ new .current = none
  kept : new .current = none → old .current = none ∨ new .backup = old .current

/-- What holds before an operation and however many of the rest are made holds however many
of all are made. -/
theorem forall_take_cons {P : Blobs → Prop} {op : Bool × SlotStep}
    {rest : List (Bool × SlotStep)} {w : Blobs} (hnow : P v)
    (hstep : ∀ rest, runOn (op :: rest) v = runOn rest w)
    (hrest : ∀ k, P (runOn (rest.take k) w).2) : ∀ k, P (runOn ((op :: rest).take k) v).2
  | 0 => hnow
  | k + 1 => by
      rw [List.take_succ_cons, hstep]
      exact hrest k

/-- However many of its operations a save has made, no blob is lost. -/
theorem safe_runOn_take (v : Blobs) (blob : Blob) :
    ∀ k, Safe v (runOn ((slotSteps v blob).take k) v).2 blob := by
  have hsame : ∀ {w : Blobs}, w .current = v .current → Safe v w blob := by
    intro w hw
    exact ⟨.inl hw, fun hnone => .inl (hw ▸ hnone)⟩
  have hlast : ∀ {w : Blobs}, w .temp = some blob → Safe v w blob →
      ∀ k, Safe v (runOn ([(false, .move .temp .current)].take k) w).2 blob := by
    intro w htemp hw
    refine forall_take_cons (P := (Safe v · blob)) hw (fun _ => runOn_move htemp) fun k => ?_
    rw [List.take_nil]
    exact ⟨.inr (.inl rfl), fun hnone => by cases hnone⟩
  rw [slotSteps, slotMoves]
  refine forall_take_cons (P := (Safe v · blob)) (hsame rfl) (fun _ => runOn_write) ?_
  cases hcurrent : v .current with
  | none => exact hlast rfl (hsame rfl)
  | some old =>
      refine forall_take_cons (P := (Safe v · blob)) (hsame rfl) (fun _ => runOn_remove) ?_
      refine forall_take_cons (P := (Safe v · blob)) (hsame rfl) (fun _ => runOn_move hcurrent) ?_
      exact hlast rfl ⟨.inr (.inr rfl), fun _ => .inr hcurrent.symm⟩

theorem Shelf.runSteps_writeSteps {home : Location} {t : FileTree} (h : Shelf s.dir home v t)
    (hmade : s.tree.makeFolders? s.dir = some t) (blob : Blob) :
    (FileStore.runSteps (s.writeSteps blob) s.tree).2 =
      t.put (home ++ [Slot.temp.name]) (.file blob) := by
  have htemp : t.write? s.tempPath blob = _ := h.write? .temp blob
  simp [writeSteps, FileStore.runSteps, FileStep.run?, hmade, htemp]

theorem Holds.saveSteps_eq (h : s.Holds v) (blob : Blob) :
    s.saveSteps blob = (false, .makeFolders s.dir) ::
      (slotSteps v blob).map (Prod.map id (SlotStep.on s.dir)) := by
  obtain ⟨t, home, hmade, hshelf⟩ := h.exists_shelf
  have hexists : (t.put (home ++ [Slot.temp.name]) (.file blob)).exists? s.currentPath =
      (v .current).isSome :=
    (hshelf.put .temp blob).holds.exists?_eq .current
  rw [saveSteps, hshelf.runSteps_writeSteps hmade, hexists, slotSteps]
  cases (v .current).isSome <;> rfl

/-- A save that has made the folder and `k` more operations. -/
theorem Holds.runSteps_take (h : s.Holds v) (blob : Blob) (k : Nat) :
    (runSteps ((s.saveSteps blob).take (k + 1)) s.tree).1 =
        (runOn ((slotSteps v blob).take k) v).1 ∧
      Holds { s with tree := (runSteps ((s.saveSteps blob).take (k + 1)) s.tree).2 }
        (runOn ((slotSteps v blob).take k) v).2 := by
  obtain ⟨t, home, hmade, hshelf⟩ := h.exists_shelf
  have hmake : FileStep.run? s.tree (.makeFolders s.dir) = some t := hmade
  obtain ⟨hresult, hafter⟩ := hshelf.runSteps ((slotSteps v blob).take k)
  rw [h.saveSteps_eq, List.take_succ_cons, ← List.map_take, runSteps, hmake]
  exact ⟨hresult, hafter.holds⟩

theorem Holds.save_eq (h : s.Holds v) (blob : Blob) :
    (s.save blob).1 = .ok () ∧ (s.save blob).2.Holds (saved v blob) := by
  have hall := h.runSteps_take blob (slotSteps v blob).length
  have htake : (s.saveSteps blob).take ((slotSteps v blob).length + 1) = s.saveSteps blob := by
    rw [h.saveSteps_eq, List.take_succ_cons, List.take_of_length_le (by simp)]
  rw [htake, List.take_length, runOn_slotSteps] at hall
  exact hall

/-- What a save of `blob` leaves behind that is cut short: between two of its operations, or
with the new blob half written. -/
inductive CutShort (s : FileStore) (blob : Blob) : FileStore → Prop where
  | between (k : Nat) : CutShort s blob
      { s with tree := (runSteps ((s.saveSteps blob).take k) s.tree).2 }
  | writing (n : Nat) : CutShort s blob
      { s with tree := (runSteps (s.writeSteps (blob.take n)) s.tree).2 }

/-- A save that is cut short leaves each file absent or regular, and no blob is lost. -/
theorem Holds.cutShort {s' : FileStore} {blob : Blob} (h : s.Holds v)
    (hcut : s.CutShort blob s') : ∃ v', s'.Holds v' ∧ Safe v v' blob := by
  cases hcut with
  | between k =>
      cases k with
      | zero => exact ⟨v, h, .inl rfl, .inl⟩
      | succ k => exact ⟨_, (h.runSteps_take blob k).2, safe_runOn_take v blob k⟩
  | writing n =>
      obtain ⟨t, home, hmade, hshelf⟩ := h.exists_shelf
      rw [hshelf.runSteps_writeSteps hmade]
      exact ⟨_, (hshelf.put .temp (blob.take n)).holds, .inl rfl, .inl⟩

/-! ## Pairs -/

/-- What may be asked of a store. -/
inductive Request where
  | save (blob : Blob)
  | load
  | restore
  | clear

inductive Reply where
  | done (r : Except Fault Unit)
  | blob (r : Except Fault (Option Blob))
  deriving DecidableEq

def serve (s : FileStore) : Request → FileStore × Reply
  | .save blob => ((s.save blob).2, .done (s.save blob).1)
  | .load => (s, .blob s.load)
  | .restore => (s.restore.2, .blob s.restore.1)
  | .clear => (s.clear.2, .done s.clear.1)

/-- The current blob and the one before it. -/
structure Pair where
  current : Option Blob
  backup : Option Blob
  deriving DecidableEq

/-- What is asked of a pair never fails. -/
def Pair.serve (p : Pair) : Request → Pair × Reply
  | .save blob => (⟨some blob, p.current.or p.backup⟩, .done (.ok ()))
  | .load => (p, .blob (.ok p.current))
  | .restore => (⟨p.backup.or p.current, p.backup⟩, .blob (.ok p.backup))
  | .clear => (⟨none, none⟩, .done (.ok ()))

/-- The state after the requests, and the replies to them. -/
def serveAll {σ : Type} (serve : σ → Request → σ × Reply) (s : σ) :
    List Request → σ × List Reply
  | [] => (s, [])
  | r :: rs =>
    let (s, reply) := serve s r
    let (s, replies) := serveAll serve s rs
    (s, reply :: replies)

/-- The pair that the files hold. -/
def pairOf (v : Blobs) : Pair := ⟨v .current, v .backup⟩

/-- The current blob after a request with this reply. -/
def currentAfter (current : Option Blob) : Request × Reply → Option Blob
  | (.save blob, _) => some blob
  | (.restore, .blob (.ok (some blob))) => some blob
  | (.clear, _) => none
  | _ => current

/-- The blob of the latest save or of the latest restore that has brought one back; none after
a clear, and `start` before any of these. -/
def latest (start : Option Blob) (asked : List (Request × Reply)) : Option Blob :=
  asked.foldl currentAfter start

/-- Whatever is asked of the store, it replies as the pair does, and the pair is what its
files hold. -/
structure BehavesAs (s : FileStore) (p : Pair) : Prop where
  replies : ∀ rs, (serveAll serve s rs).2 = (serveAll Pair.serve p rs).2
  holds : ∀ rs, ∃ v, (serveAll serve s rs).1.Holds v ∧
    pairOf v = (serveAll Pair.serve p rs).1
  load : ∀ rs, (serveAll serve s rs).1.load =
    .ok (latest p.current (rs.zip (serveAll serve s rs).2))
  restore : ∀ rs, (serveAll Pair.serve p rs).1.backup = none →
    (serveAll serve s rs).1.restore = (.ok none, (serveAll serve s rs).1)
  temp : ∀ rs r, (r = .clear ∨ ∃ blob, r = .save blob) →
    (serveAll serve s (rs ++ [r])).1.tree.exists? (serveAll serve s (rs ++ [r])).1.tempPath = false

theorem serveAll_concat {σ : Type} (serve : σ → Request → σ × Reply) (r : Request) :
    ∀ (rs : List Request) (s : σ),
      (serveAll serve s (rs ++ [r])).1 = (serve (serveAll serve s rs).1 r).1
  | [], _ => rfl
  | r' :: rs, s => serveAll_concat serve r rs (serve s r').1

/-- One request: the store replies as the pair that its files hold. -/
theorem Holds.serve (h : s.Holds v) (r : Request) :
    ∃ v', (s.serve r).1.Holds v' ∧ (s.serve r).2 = ((pairOf v).serve r).2 ∧
      pairOf v' = ((pairOf v).serve r).1 ∧
      ((r = .clear ∨ ∃ blob, r = .save blob) → v' .temp = none) := by
  cases r with
  | save blob =>
      obtain ⟨hresult, hafter⟩ := h.save_eq blob
      exact ⟨_, hafter, congrArg Reply.done hresult, rfl, fun _ => rfl⟩
  | load => exact ⟨v, h, congrArg Reply.blob h.load_eq, rfl, by simp⟩
  | restore =>
      cases hbackup : v .backup with
      | none =>
          have hrestore := h.restore_of_none hbackup
          refine ⟨v, ?_, ?_, ?_, by simp⟩
          · rwa [FileStore.serve, hrestore]
          · rw [FileStore.serve, hrestore, Pair.serve, pairOf, hbackup]
          · rw [Pair.serve, pairOf, hbackup]
            rfl
      | some blob =>
          obtain ⟨hresult, hafter⟩ := h.restore_of_some hbackup
          refine ⟨_, hafter, ?_, ?_, by simp⟩
          · rw [FileStore.serve, hresult, Pair.serve, pairOf, hbackup]
          · rw [Pair.serve, pairOf, pairOf, hbackup]
            simp [hbackup]
  | clear =>
      obtain ⟨hresult, hafter⟩ := h.clear_eq
      exact ⟨_, hafter, congrArg Reply.done hresult, rfl, fun _ => rfl⟩

/-- Any requests: the store replies as the pair that its files hold. -/
theorem Holds.serveAll : ∀ (rs : List Request) {s : FileStore} {v : Blobs}, s.Holds v →
    ∃ v', (serveAll FileStore.serve s rs).1.Holds v' ∧
      (FileStore.serveAll FileStore.serve s rs).2 =
        (FileStore.serveAll Pair.serve (pairOf v) rs).2 ∧
      pairOf v' = (FileStore.serveAll Pair.serve (pairOf v) rs).1
  | [], s, v, h => ⟨v, h, rfl, rfl⟩
  | r :: rs, s, v, h => by
      obtain ⟨w, hw, hreply, hpair, -⟩ := h.serve r
      obtain ⟨v', hv', hreplies, hpair'⟩ := hw.serveAll rs
      rw [hpair] at hreplies hpair'
      exact ⟨v', hv', congrArg₂ List.cons hreply hreplies, hpair'⟩

theorem Pair.current_serveAll : ∀ (rs : List Request) (p : Pair),
    (FileStore.serveAll Pair.serve p rs).1.current =
      latest p.current (rs.zip (FileStore.serveAll Pair.serve p rs).2)
  | [], _ => rfl
  | r :: rs, p => by
      have hnext : (p.serve r).1.current = currentAfter p.current (r, (p.serve r).2) := by
        cases r with
        | restore =>
            obtain ⟨current, backup⟩ := p
            cases backup <;> rfl
        | _ => rfl
      refine (Pair.current_serveAll rs (p.serve r).1).trans ?_
      rw [hnext]
      rfl

theorem Holds.behavesAs (h : s.Holds v) : s.BehavesAs (pairOf v) where
  replies rs := by
    obtain ⟨-, -, hreplies, -⟩ := h.serveAll rs
    exact hreplies
  holds rs := by
    obtain ⟨v', hv', -, hpair⟩ := h.serveAll rs
    exact ⟨v', hv', hpair⟩
  load rs := by
    obtain ⟨v', hv', hreplies, hpair⟩ := h.serveAll rs
    rw [hv'.load_eq, hreplies, ← Pair.current_serveAll, ← hpair]
    rfl
  restore rs hnone := by
    obtain ⟨v', hv', -, hpair⟩ := h.serveAll rs
    rw [← hpair] at hnone
    exact hv'.restore_of_none hnone
  temp rs r hr := by
    obtain ⟨v', hv', -, -⟩ := h.serveAll rs
    obtain ⟨w, hw, -, -, htemp⟩ := hv'.serve r
    rw [serveAll_concat]
    have hexists := hw.exists?_eq .temp
    rw [htemp hr] at hexists
    exact hexists

/-- A store on files is a pair of blobs, from every state in which each of its files is absent
or regular, and so from every state that a save leaves behind that is cut short. In such a
state the current blob is the old one, the new one or absent, and absent only if there was
none or the old one is the backup. -/
theorem Holds.behavesAs_pair (h : s.Holds v) :
    s.BehavesAs (pairOf v) ∧
    ∀ blob s', s.CutShort blob s' → ∃ v', s'.Holds v' ∧ s'.BehavesAs (pairOf v') ∧
      (v' .current = v .current ∨ v' .current = some blob ∨ v' .current = none) ∧
      (v' .current = none → v .current = none ∨ v' .backup = v .current) := by
  refine ⟨h.behavesAs, fun blob s' hcut => ?_⟩
  obtain ⟨v', hv', hcurrent, hkept⟩ := h.cutShort hcut
  exact ⟨v', hv', hv'.behavesAs, hcurrent, hkept⟩

/-- A store in a folder that held a blob before. -/
def stocked : FileStore := ⟨({} : FileTree).place "data/quarry.snap" [120], "data"⟩

theorem holds_stocked :
    stocked.Holds fun slot => if slot = .current then some [120] else none :=
  holds_of_isFolder (by decide +kernel) (by decide +kernel)
    fun slot => by cases slot <;> decide +kernel

/-- The blob that was there is the backup after a save, and is brought back from there. -/
theorem stocked_behavesAs_pair :
    stocked.BehavesAs ⟨some [120], none⟩ ∧
    (serveAll serve stocked [.save [1], .load, .restore, .load]).2 =
      [.done (.ok ()), .blob (.ok (some [1])), .blob (.ok (some [120])),
        .blob (.ok (some [120]))] := by
  have hpair := (Holds.behavesAs_pair holds_stocked).1
  exact ⟨hpair, (hpair.replies _).trans (by decide)⟩

/-- A load before any save or restore may bring a blob. -/
theorem load_of_stocked : ∃ v, stocked.Holds v ∧ stocked.load ≠ .ok none := by
  refine ⟨_, holds_stocked, ?_⟩
  rw [holds_stocked.load_eq]
  decide

end VaultSearch.FileStore
