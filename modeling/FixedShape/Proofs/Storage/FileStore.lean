/-
Module: FixedShape.Proofs.Storage.FileStore
Purpose: What a place of files must keep: reading changes nothing, a refused write changes nothing,
  and what is written is what is read. A map from paths and a tree of files both do.
-/
import Mathlib.Logic.Function.Basic
import FixedShape.Storage.FileTree

namespace FixedShape

open FixedShape.Wire (Bytes)

/-- Files that are kept in a state. -/
class LawfulFileStore (σ : Type) [FileStore (StateM σ)] : Prop where
  /-- Reading changes nothing. -/
  read_unchanged : ∀ {path : String} {files after : σ} {result : Except IoError Bytes},
    StateT.run (m := Id) (FileStore.read path) files = (result, after) → after = files
  /-- A refused write changes nothing. -/
  write_refused : ∀ {path : String} {bytes : Bytes} {files after : σ} {error : IoError},
    StateT.run (m := Id) (FileStore.write path bytes) files = (.error error, after) → after = files
  /-- What is written is what is read. -/
  read_written : ∀ {path : String} {bytes : Bytes} {files after : σ},
    StateT.run (m := Id) (FileStore.write path bytes) files = (.ok (), after) →
      StateT.run (m := Id) (FileStore.read path) after = (.ok bytes, after)

/-! ### Maps -/

/-- The files behind paths, where every path is one of its own. -/
abbrev FileMap := String → Option Bytes

/-- A map from paths as a place to work on. It refuses no write. -/
instance : FileStore (StateM FileMap) where
  read path := return match (← get) path with
    | none => .error .notFound
    | some bytes => .ok bytes
  write path bytes := do
    modify fun files => Function.update files path (some bytes)
    return .ok ()

namespace FileMap

variable {files : FileMap} {path : String} {bytes : Bytes}

theorem run_read :
    StateT.run (m := Id) (FileStore.read path) files =
      (match files path with
        | none => .error .notFound
        | some bytes => .ok bytes, files) :=
  rfl

theorem run_write :
    StateT.run (m := Id) (FileStore.write path bytes) files =
      (.ok (), Function.update files path (some bytes)) :=
  rfl

instance : LawfulFileStore FileMap where
  read_unchanged h := by
    cases h
    rfl
  write_refused h := by
    cases h
  read_written h := by
    obtain ⟨_, rfl⟩ := Prod.mk.inj (run_write.symm.trans h)
    rw [run_read, Function.update_self]

end FileMap

/-! ### Trees -/

namespace FileTree

variable {tree : FileTree} {location : Location} {bytes : Bytes}

theorem lookup_map_put (files : List (Location × Bytes)) (location other : Location)
    (bytes : Bytes) :
    (files.map fun (place, old) => (place, if place = location then bytes else old)).lookup other =
      (files.lookup other).map fun old => if other = location then bytes else old := by
  induction files with
  | nil => rfl
  | cons file rest ih =>
      rcases file with ⟨place, old⟩
      rw [List.map_cons, List.lookup_cons, List.lookup_cons]
      cases hplace : other == place with
      | true =>
          rw [eq_of_beq hplace]
          rfl
      | false => exact ih

/-- Putting a file at a place changes what is at that place alone. -/
theorem lookup_put (other : Location) :
    (tree.put location bytes).files.lookup other =
      if other = location then some bytes else tree.files.lookup other := by
  unfold put
  by_cases heq : other = location
  · subst heq
    rw [if_pos rfl]
    split
    · next hfound =>
        obtain ⟨old, hold⟩ := Option.isSome_iff_exists.mp hfound
        rw [lookup_map_put, hold, Option.map_some, if_pos rfl]
    · next hmissing =>
        rw [Option.not_isSome_iff_eq_none] at hmissing
        rw [List.lookup_append, hmissing, List.lookup_cons_self, Option.none_or]
  · rw [if_neg heq]
    split
    · simp only [lookup_map_put, if_neg heq, Option.map_id']
    · rw [List.lookup_append, List.lookup_cons, beq_false_of_ne heq, List.lookup_nil,
        Option.or_none]

theorem file_put_self :
    FileTree.entry? (tree.put location bytes) location = some (.file bytes) := by
  unfold entry?
  rw [lookup_put, if_pos rfl]

/-- What a file is put into stays a directory. -/
theorem directory_put {other : Location} (hplace : tree.entry? location ≠ some .directory)
    (hother : tree.entry? other = some .directory) :
    FileTree.entry? (tree.put location bytes) other = some .directory := by
  have hne : other ≠ location := by
    rintro rfl
    exact hplace hother
  have hkeep : (tree.files.any fun (place, _) => other.isPrefixOf place) = true →
      ((tree.put location bytes).files.any fun (place, _) => other.isPrefixOf place) = true := by
    unfold put
    split
    · rw [List.any_map]
      exact id
    · rw [List.any_append]
      exact fun h => Bool.or_eq_true_iff.mpr (Or.inl h)
  unfold entry? at hother ⊢
  rw [lookup_put, if_neg hne]
  split at hother
  · cases hother
  · split at hother
    · next hdirectory =>
        refine if_pos ?_
        rw [Bool.or_eq_true_iff] at hdirectory ⊢
        exact hdirectory.imp_right hkeep
    · cases hother

/-- A path leads where it led before a file was put there or elsewhere. -/
theorem walk_put {start last : Location} {segments : List String}
    (hplace : tree.entry? location ≠ some .directory) (h : tree.walk start segments = .ok last) :
    (tree.put location bytes).walk start segments = .ok last := by
  induction segments generalizing start with
  | nil => exact h
  | cons segment rest ih =>
      unfold walk at h ⊢
      split at h
      · cases h
      · cases h
      · next hdirectory =>
          rw [directory_put hplace hdirectory]
          dsimp only
          split at h
          · next hidle =>
              rw [if_pos hidle]
              exact ih h
          · next hidle =>
              rw [if_neg hidle]
              split at h
              · next hparent =>
                  rw [if_pos hparent]
                  exact ih h
              · next hparent =>
                  rw [if_neg hparent]
                  exact ih h

theorem locate_put {path : String} {last : Location}
    (hplace : tree.entry? location ≠ some .directory) (h : tree.locate path = .ok last) :
    (tree.put location bytes).locate path = .ok last := by
  unfold locate at h ⊢
  split at h
  · cases h
  · next hpath =>
      rw [if_neg hpath]
      split at h
      · next habsolute =>
          rw [if_pos habsolute]
          exact walk_put hplace h
      · next habsolute =>
          rw [if_neg habsolute]
          exact walk_put hplace h

/-- A successful write puts the bytes at the place to which the path leads. -/
theorem write_eq_ok {path : String} {written : FileTree}
    (h : tree.write path bytes = .ok written) :
    ∃ location, tree.locate path = .ok location ∧ tree.entry? location ≠ some .directory ∧
      written = tree.put location bytes := by
  unfold write at h
  dsimp only at h
  split at h
  · cases h
  · split at h
    · cases h
    · cases h
    · split at h
      · cases h
      · next location hlocation =>
          split at h
          · cases h
          · next hrefused =>
              cases h
              exact ⟨location, hlocation, fun hdirectory => hrefused (Or.inr hdirectory), rfl⟩

theorem read_of_write {path : String} {written : FileTree}
    (h : tree.write path bytes = .ok written) : written.read path = .ok bytes := by
  obtain ⟨location, hlocation, hplace, rfl⟩ := write_eq_ok h
  rw [read, locate_put hplace hlocation]
  dsimp only
  rw [file_put_self]

theorem run_read {path : String} :
    StateT.run (m := Id) (FileStore.read path) tree = (tree.read path, tree) :=
  rfl

theorem run_write {path : String} :
    StateT.run (m := Id) (FileStore.write path bytes) tree =
      match tree.write path bytes with
      | .error error => (.error error, tree)
      | .ok written => (.ok (), written) := by
  have hrun : StateT.run (m := Id) (FileStore.write path bytes) tree =
      StateT.run (m := Id) (match tree.write path bytes with
        | .error error => pure (.error error)
        | .ok written => do
          set written
          return .ok ()) tree := rfl
  rw [hrun]
  cases tree.write path bytes with
  | error error => rfl
  | ok written => rfl

instance : LawfulFileStore FileTree where
  read_unchanged h := by
    cases h
    rfl
  write_refused h := by
    rw [run_write] at h
    split at h
    · cases h
      rfl
    · cases h
  read_written h := by
    rw [run_write] at h
    split at h
    · cases h
    · next hwrite =>
        cases h
        rw [run_read, read_of_write hwrite]

end FileTree

end FixedShape
