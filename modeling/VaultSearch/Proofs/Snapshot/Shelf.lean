import Mathlib.Logic.Function.Basic
import VaultSearch.Proofs.Files.Changes
import VaultSearch.Snapshot.FileStore

/-!
# The files of a store

A store has three files in one folder, and each of them is absent or holds a
blob. So the folder is followed as a function from `Slot`s to blobs
(`Shelf`). An operation on files does to the tree what it does to this
function (`Shelf.run?`), and so does a list of them, up to one that fails
(`Shelf.runSteps`).
-/

namespace VaultSearch.FileStore

open VaultSearch.Path (Part)

/-! ## Slots -/

/-- The files of a store. -/
inductive Slot where
  | current | backup | temp
  deriving DecidableEq

def Slot.name : Slot → String
  | current => "quarry.snap"
  | backup => "quarry.snap.bak"
  | temp => "quarry.snap.tmp"

theorem Slot.isStep (slot : Slot) : (Part.name slot.name.toList).IsStep := by
  cases slot <;> decide

theorem Slot.name_injective : Function.Injective Slot.name := by
  intro slot slot' h
  cases slot <;> cases slot' <;> first | rfl | simp [Slot.name] at h

/-- The path of a file of the store in the folder `dir`. -/
def Slot.path (dir : String) (slot : Slot) : String := Path.join dir slot.name

/-- The blobs in the files that are there. -/
abbrev Blobs := Slot → Option Blob

/-- The path of the folder leads to `home`, and `v` is what the files of the store hold. -/
structure Shelf (dir : String) (home : Location) (v : Blobs) (t : FileTree) : Prop where
  tree : t.IsTree
  way : (Path.pieces dir).foldlM t.follow (t.startOf dir) = .ok home
  folder : t.entryAt? home = some .folder
  held : ∀ slot, t.entryAt? (home ++ [slot.name]) = (v slot).map .file

namespace Shelf

variable {dir : String} {home : Location} {v : Blobs} {t : FileTree}

theorem locate (h : Shelf dir home v t) (slot : Slot) :
    t.locate (slot.path dir) = .ok (home ++ [slot.name]) :=
  (FileTree.locate_join_name slot.isStep).mpr ⟨home, h.way, h.folder, rfl⟩

theorem lookup? (h : Shelf dir home v t) (slot : Slot) :
    t.lookup? (slot.path dir) = (v slot).map .file := by
  rw [FileTree.lookup?_of_locate (h.locate slot), h.held]

/-- What the paths of the store lead to is what its files hold. -/
theorem of_lookup? (ht : t.IsTree)
    (hway : (Path.pieces dir).foldlM t.follow (t.startOf dir) = .ok home)
    (hfolder : t.entryAt? home = some .folder)
    (hheld : ∀ slot : Slot, t.lookup? (slot.path dir) = (v slot).map .file) :
    Shelf dir home v t where
  tree := ht
  way := hway
  folder := hfolder
  held slot := by
    have hlocate : t.locate (slot.path dir) = .ok (home ++ [slot.name]) :=
      (FileTree.locate_join_name slot.isStep).mpr ⟨home, hway, hfolder, rfl⟩
    rw [← hheld, FileTree.lookup?_of_locate hlocate]

theorem makeFolders? (h : Shelf dir home v t) : t.makeFolders? dir = some t :=
  FileTree.makeFolders?_of_follow h.way h.folder

theorem not_folder (h : Shelf dir home v t) (slot : Slot) :
    t.entryAt? (home ++ [slot.name]) ≠ some .folder := by
  rw [h.held]
  cases v slot <;> simp

/-- The shelf after a change that keeps its folders. -/
theorem of_keepsFolders {t' : FileTree} {v' : Blobs} (h : Shelf dir home v t) (ht' : t'.IsTree)
    (hkeeps : t.KeepsFolders t')
    (hheld : ∀ slot : Slot, t'.entryAt? (home ++ [slot.name]) = (v' slot).map .file) :
    Shelf dir home v' t' where
  tree := ht'
  way := by
    rw [hkeeps.startOf]
    exact hkeeps.foldlM_follow _ h.way
  folder := hkeeps.folder home h.folder
  held := hheld

theorem put (h : Shelf dir home v t) (slot : Slot) (bytes : Blob) :
    Shelf dir home (Function.update v slot (some bytes))
      (t.put (home ++ [slot.name]) (.file bytes)) := by
  refine h.of_keepsFolders (h.tree.put h.folder slot.isStep (h.not_folder slot) _)
    (.put (h.not_folder slot) _) fun slot' => ?_
  by_cases hslot : slot' = slot
  · rw [hslot, Function.update_self, FileTree.entryAt?_put, if_neg (by simp), if_pos rfl]
    rfl
  · have hne : home ++ [slot.name] ≠ home ++ [slot'.name] := by
      simpa using Slot.name_injective.ne (Ne.symm hslot)
    rw [Function.update_of_ne hslot, FileTree.entryAt?_put_of_ne hne, h.held]

theorem cut (h : Shelf dir home v t) {slot : Slot} {bytes : Blob} (hslot : v slot = some bytes) :
    Shelf dir home (Function.update v slot none) (t.cut (home ++ [slot.name])) := by
  have hfile : t.entryAt? (home ++ [slot.name]) = some (.file bytes) := by
    rw [h.held, hslot]
    rfl
  refine h.of_keepsFolders (h.tree.cut _) (.cut h.tree hfile) fun slot' => ?_
  by_cases hsame : slot' = slot
  · rw [hsame, Function.update_self, FileTree.entryAt?_cut, if_neg (by simp),
      if_pos (List.prefix_refl _)]
    rfl
  · have hnot : ¬home ++ [slot.name] <+: home ++ [slot'.name] := by
      simpa using Slot.name_injective.ne (Ne.symm hsame)
    rw [Function.update_of_ne hsame, FileTree.entryAt?_cut_of_not_below hnot, h.held]

end Shelf

/-! ## Operations on slots -/

/-- An operation on the files of a store. -/
inductive SlotStep where
  | write (slot : Slot) (bytes : Blob)
  | remove (slot : Slot)
  | move (source target : Slot)

/-- The operation on files in the folder `dir`. -/
def SlotStep.on (dir : String) : SlotStep → FileStep
  | write slot bytes => .write (slot.path dir) bytes
  | remove slot => .removeFile (slot.path dir)
  | move source target => .rename (source.path dir) (target.path dir)

/-- What the files hold after the operation, unless it fails. -/
def SlotStep.run? (v : Blobs) : SlotStep → Option Blobs
  | write slot bytes => some (Function.update v slot (some bytes))
  | remove slot => (v slot).map fun _ => Function.update v slot none
  | move source target => (v source).map fun bytes =>
      Function.update (Function.update v source none) target (some bytes)

/-- Operations in turn, up to one that fails and may not. -/
def runOn : List (Bool × SlotStep) → Blobs → Except Fault Unit × Blobs
  | [], v => (.ok (), v)
  | (optional, step) :: rest, v =>
    match step.run? v with
    | some v => runOn rest v
    | none => if optional then runOn rest v else (.error (.io "saving the snapshot"), v)

namespace Shelf

variable {dir : String} {home : Location} {v : Blobs} {t : FileTree}

theorem write? (h : Shelf dir home v t) (slot : Slot) (bytes : Blob) :
    t.write? (slot.path dir) bytes = some (t.put (home ++ [slot.name]) (.file bytes)) := by
  have hnot : t.isFolderAt (home ++ [slot.name]) = false := by
    rw [FileTree.isFolderAt, decide_eq_false_iff_not]
    exact h.not_folder slot
  simp [FileTree.write?, FileTree.locate?, h.locate slot, Except.toOption, hnot]

theorem removeFile? (h : Shelf dir home v t) (slot : Slot) :
    t.removeFile? (slot.path dir) =
      (v slot).map fun _ => t.cut (home ++ [slot.name]) := by
  cases hslot : v slot <;>
    simp [FileTree.removeFile?, FileTree.locate?, h.locate slot, Except.toOption, h.held, hslot]

theorem rename?_self (h : Shelf dir home v t) (slot : Slot) :
    t.rename? (slot.path dir) (slot.path dir) = (v slot).map fun _ => t := by
  cases hslot : v slot <;>
    simp [FileTree.rename?, FileTree.move?, FileTree.locate?, h.locate slot, Except.toOption,
      h.held, hslot]

theorem rename? (h : Shelf dir home v t) {source target : Slot} (hne : source ≠ target) :
    t.rename? (source.path dir) (target.path dir) =
      (v source).map fun bytes =>
        (t.cut (home ++ [source.name])).put (home ++ [target.name]) (.file bytes) := by
  have hnames : source.name ≠ target.name := Slot.name_injective.ne hne
  cases hsource : v source with
  | none =>
      simp [FileTree.rename?, FileTree.move?, FileTree.locate?, h.locate, Except.toOption, h.held,
        hsource]
  | some bytes =>
      have hfile : t.entryAt? (home ++ [source.name]) = some (.file bytes) := by
        rw [h.held, hsource]
        rfl
      have hbelow := h.tree.entriesBelow_of_file hfile
      cases htarget : v target <;>
        simp [FileTree.rename?, FileTree.move?, FileTree.locate?, h.locate, Except.toOption,
          h.held, hsource, htarget, hnames, hbelow]

/-- An operation on files does to the tree what it does to the blobs. -/
theorem run? (h : Shelf dir home v t) (step : SlotStep) :
    Option.Rel (Shelf dir home) (step.run? v) ((step.on dir).run? t) := by
  cases step with
  | write slot bytes =>
      rw [SlotStep.run?, SlotStep.on, FileStep.run?, h.write?]
      exact .some (h.put slot bytes)
  | remove slot =>
      rw [SlotStep.run?, SlotStep.on, FileStep.run?, h.removeFile?]
      cases hslot : v slot with
      | none => exact .none
      | some bytes => exact .some (h.cut hslot)
  | move source target =>
      rw [SlotStep.run?, SlotStep.on, FileStep.run?]
      cases hsource : v source with
      | none =>
          by_cases hne : source = target
          · rw [← hne, h.rename?_self, hsource]
            exact .none
          · rw [h.rename? hne, hsource]
            exact .none
      | some bytes =>
          by_cases hne : source = target
          · rw [← hne, h.rename?_self, hsource, Option.map_some, Function.update_idem,
              Function.update_eq_self_iff.mpr hsource.symm]
            exact .some h
          · rw [h.rename? hne, hsource]
            exact .some ((h.cut hsource).put target bytes)

/-- A list of them does to the tree what it does to the blobs, and fails where it fails there. -/
theorem runSteps : ∀ (steps : List (Bool × SlotStep)) {v : Blobs} {t : FileTree},
    Shelf dir home v t →
    (FileStore.runSteps (steps.map (Prod.map id (SlotStep.on dir))) t).1 = (runOn steps v).1 ∧
      Shelf dir home (runOn steps v).2
        (FileStore.runSteps (steps.map (Prod.map id (SlotStep.on dir))) t).2
  | [], _, _, h => ⟨rfl, h⟩
  | (optional, step) :: steps, v, t, h => by
      have hrel := h.run? step
      rw [List.map_cons, Prod.map_apply, id, FileStore.runSteps, runOn]
      generalize step.run? v = r at hrel ⊢
      generalize (step.on dir).run? t = r' at hrel ⊢
      cases hrel with
      | some hnext => exact runSteps steps hnext
      | none =>
          cases optional with
          | true => exact runSteps steps h
          | false => exact ⟨rfl, h⟩

end Shelf

end VaultSearch.FileStore
