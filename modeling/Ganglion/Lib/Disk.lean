import Mathlib.Data.List.Basic
import Mathlib.Data.Option.Basic
import Mathlib.Logic.Function.Basic

/-!
# A disk that can lose power

Files have numbers, and one of them may be at the path. A write is in its file at once, and on the disk when the file is
synced; a rename changes the entry of the path at once, and on the disk when the directory is synced. A power loss
leaves a front of each file that has what was synced (`Leaves`), and for the path its entry or one it had since the
directory was synced (`Survives`).

* `Survives` after one operation: `survives_write`, `survives_sync`, `survives_rename`, `survives_syncDir`.
* `replaceOps` writes a file beside the path and renames it there. Cut anywhere it leaves what was there or the whole
  new file, and when it is done the new file only (`survives_replaceOps`).
-/

/-- Files with what is synced of them, the entry of the path, and the entries it had since the directory was synced. -/
structure Disk (α : Type) where
  content : Nat → List α
  synced : Nat → Nat
  entry : Option Nat
  shadows : List (Option Nat)

/-- What a program does to a disk. -/
inductive Disk.Op (α : Type) where
  | write (file : Nat) (data : List α)
  | sync (file : Nat)
  /-- The file is renamed to the path. -/
  | rename (file : Nat)
  | syncDir
  deriving DecidableEq

namespace Disk

variable {α : Type}

/-- The disk that a power loss leaves: what was found is at the path, all of it synced. -/
def holding (found : Option (List α)) : Disk α where
  content := Function.update (fun _ => []) 0 (found.getD [])
  synced := Function.update (fun _ => 0) 0 (found.getD []).length
  entry := found.map fun _ => 0
  shadows := []

/-- One operation. -/
def apply (d : Disk α) : Op α → Disk α
  | .write file data => { d with content := Function.update d.content file (d.content file ++ data) }
  | .sync file => { d with synced := Function.update d.synced file (d.content file).length }
  | .rename file => { d with entry := some file, shadows := d.entry :: d.shadows }
  | .syncDir => { d with shadows := [] }

/-- Operations one after another. -/
def applyAll (d : Disk α) (ops : List (Op α)) : Disk α := ops.foldl apply d

@[simp] theorem applyAll_nil (d : Disk α) : d.applyAll [] = d := rfl

@[simp] theorem applyAll_append (d : Disk α) (ops ops' : List (Op α)) :
    d.applyAll (ops ++ ops') = (d.applyAll ops).applyAll ops' := List.foldl_append

/-- The file at the path, as long as the power stays on. -/
def read (d : Disk α) : Option (List α) := d.entry.map d.content

/-- What a power loss can leave of a file. -/
def Leaves (d : Disk α) (file : Nat) (data : List α) : Prop :=
  (d.content file).take (d.synced file) <+: data ∧ data <+: d.content file

/-- What the path can hold after a power loss. -/
def Survives (d : Disk α) (found : Option (List α)) : Prop :=
  ∃ e ∈ d.entry :: d.shadows, Option.Rel d.Leaves e found

variable {d d' : Disk α} {file : Nat} {found : Option (List α)}

/-- All of the file is synced. -/
def Whole (d : Disk α) (file : Nat) : Prop := d.synced file = (d.content file).length

/-- A file that is synced survives as it is. -/
theorem Leaves.eq {data : List α} (h : d.Leaves file data) (hw : d.Whole file) : data = d.content file := by
  obtain ⟨hpre, hsub⟩ := h
  rw [hw, List.take_length] at hpre
  exact hsub.eq_of_length (Nat.le_antisymm hsub.length_le hpre.length_le)

theorem leaves_whole (hw : d.Whole file) : d.Leaves file (d.content file) := by
  have htake : (d.content file).take (d.synced file) = d.content file := by rw [hw, List.take_length]
  exact ⟨htake.symm ▸ List.prefix_rfl, List.prefix_rfl⟩

/-! ## One operation -/

/-- The path may have the file after a power loss. -/
def Linked (d : Disk α) (file : Nat) : Prop := some file ∈ d.entry :: d.shadows

/-- Only the files the path may have matter. -/
theorem Survives.congr (h : d.Survives found) (hentry : d'.entry = d.entry) (hshadows : d'.shadows = d.shadows)
    (hcontent : ∀ i, d.Linked i → d'.content i = d.content i) (hsynced : ∀ i, d.Linked i → d'.synced i = d.synced i) :
    d'.Survives found := by
  obtain ⟨e, he, hrel⟩ := h
  refine ⟨e, by rw [hentry, hshadows]; exact he, ?_⟩
  cases hrel with
  | none => exact .none
  | @some i data hleaves =>
    refine .some ?_
    rw [Leaves, hcontent i he, hsynced i he]
    exact hleaves

/-- Writing a file that the path does not have. -/
theorem survives_write {data : List α} (hfile : ¬d.Linked file) :
    (d.apply (.write file data)).Survives found ↔ d.Survives found := by
  have hother : ∀ i, d.Linked i → (d.apply (.write file data)).content i = d.content i := by
    intro i hi
    have hne : i ≠ file := by
      rintro rfl
      exact hfile hi
    exact Function.update_of_ne hne _ _
  constructor
  · intro h
    exact h.congr rfl rfl (fun i hi => (hother i hi).symm) fun _ _ => rfl
  · intro h
    exact h.congr rfl rfl hother fun _ _ => rfl

/-- Syncing a file that the path does not have. -/
theorem survives_sync (hfile : ¬d.Linked file) : (d.apply (.sync file)).Survives found ↔ d.Survives found := by
  have hother : ∀ i, d.Linked i → (d.apply (.sync file)).synced i = d.synced i := by
    intro i hi
    have hne : i ≠ file := by
      rintro rfl
      exact hfile hi
    exact Function.update_of_ne hne _ _
  constructor
  · intro h
    exact h.congr rfl rfl (fun _ _ => rfl) fun i hi => (hother i hi).symm
  · intro h
    exact h.congr rfl rfl (fun _ _ => rfl) hother

/-- A rename adds a file to what the path can hold. -/
theorem survives_rename :
    (d.apply (.rename file)).Survives found ↔ Option.Rel d.Leaves (some file) found ∨ d.Survives found := by
  constructor
  · rintro ⟨e, he, hrel⟩
    rcases List.mem_cons.1 he with rfl | he
    · exact .inl hrel
    · exact .inr ⟨e, he, hrel⟩
  · rintro (hrel | ⟨e, he, hrel⟩)
    · exact ⟨some file, .head _, hrel⟩
    · exact ⟨e, .tail _ he, hrel⟩

/-- Once the directory is synced, the path has its entry. -/
theorem survives_syncDir : (d.apply .syncDir).Survives found ↔ Option.Rel d.Leaves d.entry found := by
  constructor
  · rintro ⟨e, he, hrel⟩
    rw [List.mem_singleton.1 he] at hrel
    exact hrel
  · intro hrel
    exact ⟨d.entry, .head _, hrel⟩

/-- What was found after a power loss is found after the next one. -/
theorem survives_holding {kept : Option (List α)} : (holding kept).Survives found ↔ found = kept := by
  have hwhole : (holding kept).Whole 0 := by simp [Whole, holding]
  have hcontent : ∀ data, kept = some data → (holding kept).content 0 = data := by
    rintro data rfl
    simp [holding]
  cases kept with
  | none =>
    constructor
    · rintro ⟨e, he, hrel⟩
      rw [List.mem_singleton.1 he] at hrel
      cases hrel
      rfl
    · rintro rfl
      exact ⟨none, .head _, .none⟩
  | some data =>
    constructor
    · rintro ⟨e, he, hrel⟩
      rw [List.mem_singleton.1 he] at hrel
      cases hrel with
      | some hleaves => rw [hleaves.eq hwhole, hcontent data rfl]
    · rintro rfl
      refine ⟨some 0, .head _, .some ?_⟩
      rw [← hcontent data rfl]
      exact leaves_whole hwhole

theorem read_holding (kept : Option (List α)) : (holding kept).read = kept := by
  cases kept with
  | none => rfl
  | some data => simp [read, holding]

/-! ## Replacing the file at the path -/

/-- Writing a file chunk by chunk, syncing it, renaming it to the path and syncing the directory. -/
def replaceOps (file : Nat) (chunks : List (List α)) : List (Op α) :=
  chunks.map (.write file) ++ [.sync file, .rename file, .syncDir]

/-- How far a replacement has come. -/
inductive Replaced where
  | notYet
  /-- The rename is done, the directory is not synced. -/
  | renamed
  | done
  deriving DecidableEq

/-- How far `n` operations of a replacement in `chunks` chunks come. -/
def replacedAfter (chunks n : Nat) : Replaced :=
  if n < chunks + 2 then .notYet else if n < chunks + 3 then .renamed else .done

/-- A file that was not written and that the path does not have. -/
structure Fresh (d : Disk α) (file : Nat) : Prop where
  content_eq : d.content file = []
  unlinked : ¬d.Linked file

/-- The file an operation writes, syncs or renames. -/
def Op.target : Op α → Option Nat
  | .write i _ | .sync i | .rename i => some i
  | .syncDir => none

/-- After a power loss all files but the one at the path are new. -/
theorem fresh_holding (kept : Option (List α)) (hfile : file ≠ 0) : (holding kept).Fresh file := by
  refine ⟨by simp [holding, Function.update_of_ne hfile], fun hmem => ?_⟩
  have hentry := List.mem_singleton.1 hmem
  cases kept with
  | none => cases hentry
  | some data => exact hfile (Option.some.inj hentry)

/-- Operations on other files leave a fresh file fresh. -/
theorem Fresh.apply (h : d.Fresh file) {op : Op α} (hop : op.target ≠ some file) : (d.apply op).Fresh file := by
  obtain ⟨hcontent, hunlinked⟩ := h
  cases op with
  | write i data =>
    have hne : file ≠ i := fun he => hop (he ▸ rfl)
    exact ⟨by simp [Disk.apply, Function.update_of_ne hne, hcontent], hunlinked⟩
  | sync i => exact ⟨hcontent, hunlinked⟩
  | rename i =>
    refine ⟨hcontent, fun hmem => ?_⟩
    rcases List.mem_cons.1 hmem with heq | hmem
    · exact hop heq.symm
    · exact hunlinked hmem
  | syncDir =>
    refine ⟨hcontent, fun hmem => ?_⟩
    have hentry : some file = d.entry := List.mem_singleton.1 hmem
    exact hunlinked (by rw [Linked, hentry]; exact .head _)

theorem Fresh.applyAll {ops : List (Op α)} (h : d.Fresh file) (hops : ∀ op ∈ ops, op.target ≠ some file) :
    (d.applyAll ops).Fresh file := by
  induction ops generalizing d with
  | nil => exact h
  | cons op ops ih =>
    exact ih (h.apply (hops op (.head ops))) fun op' hop' => hops op' (.tail op hop')

/-- A replacement leaves other files fresh. -/
theorem Fresh.replaceOps (h : d.Fresh file) {other : Nat} (hne : other ≠ file) (chunks : List (List α)) (n : Nat) :
    (d.applyAll ((replaceOps other chunks).take n)).Fresh file := by
  refine h.applyAll fun op hop => ?_
  have hother : ∀ op ∈ Disk.replaceOps other chunks, op.target = some other ∨ op.target = none := by
    intro op hop
    simp only [Disk.replaceOps, List.mem_append, List.mem_map, List.mem_cons, List.not_mem_nil, or_false] at hop
    rcases hop with ⟨chunk, _, rfl⟩ | rfl | rfl | rfl
    · exact .inl rfl
    · exact .inl rfl
    · exact .inl rfl
    · exact .inr rfl
  rcases hother op (List.mem_of_mem_take hop) with he | he
  · rw [he]
    exact fun h => hne (Option.some.inj h)
  · rw [he]
    nofun

/-- Chunks written to a file. -/
theorem applyAll_writes (chunks : List (List α)) (d : Disk α) :
    d.applyAll (chunks.map (.write file)) =
      { d with content := Function.update d.content file (d.content file ++ chunks.flatten) } := by
  induction chunks generalizing d with
  | nil => simp
  | cons chunk chunks ih =>
    rw [List.map_cons, applyAll, List.foldl_cons, ← applyAll, ih]
    simp [apply]

/-- The disk with the chunks written and synced. -/
def writtenAndSynced (d : Disk α) (file : Nat) (chunks : List (List α)) : Disk α :=
  (d.applyAll (chunks.map (.write file))).apply (.sync file)

/-- How far a replacement has come, and the disk there. -/
theorem replaceOps_cases (chunks : List (List α)) (n : Nat) :
    (replacedAfter chunks.length n = .notYet ∧
      ((∃ k, d.applyAll ((replaceOps file chunks).take n) = d.applyAll ((chunks.take k).map (.write file))) ∨
        d.applyAll ((replaceOps file chunks).take n) = d.writtenAndSynced file chunks)) ∨
    (replacedAfter chunks.length n = .renamed ∧
      d.applyAll ((replaceOps file chunks).take n) = (d.writtenAndSynced file chunks).apply (.rename file)) ∨
    (replacedAfter chunks.length n = .done ∧ d.applyAll ((replaceOps file chunks).take n) =
      ((d.writtenAndSynced file chunks).apply (.rename file)).apply .syncDir) := by
  by_cases hwriting : n ≤ chunks.length
  · refine .inl ⟨if_pos (by omega), .inl ⟨n, ?_⟩⟩
    rw [replaceOps, List.take_append_of_le_length (by simpa using hwriting), List.map_take]
  · -- all chunks are written
    have htake : (replaceOps file chunks).take n =
        chunks.map (.write file) ++ [.sync file, .rename file, .syncDir].take (n - chunks.length) := by
      rw [replaceOps, List.take_append, List.take_of_length_le (by simp; omega), List.length_map]
    rw [htake, applyAll_append]
    obtain ⟨k, hk⟩ : ∃ k, n - chunks.length = k + 1 := ⟨n - chunks.length - 1, by omega⟩
    rw [hk]
    match k with
    | 0 => exact .inl ⟨if_pos (by omega), .inr rfl⟩
    | 1 => exact .inr (.inl ⟨by rw [replacedAfter, if_neg (by omega), if_pos (by omega)], rfl⟩)
    | k + 2 => exact .inr (.inr ⟨by rw [replacedAfter, if_neg (by omega), if_neg (by omega)], by simp; rfl⟩)

section

variable (hfresh : d.Fresh file) (chunks : List (List α))

include hfresh

/-- The new file before it is at the path: the path has what it had. -/
theorem writtenAndSynced_spec :
    (d.writtenAndSynced file chunks).content file = chunks.flatten ∧ (d.writtenAndSynced file chunks).Whole file ∧
      ∀ found, (d.writtenAndSynced file chunks).Survives found ↔ d.Survives found := by
  unfold writtenAndSynced
  refine ⟨?_, ?_, fun found => ?_⟩
  · simp [applyAll_writes, apply, hfresh.content_eq]
  · simp [Whole, applyAll_writes, apply]
  · have hunlinked : ¬(d.applyAll (chunks.map (.write file))).Linked file := by
      rw [applyAll_writes]
      exact hfresh.unlinked
    rw [survives_sync hunlinked, applyAll_writes]
    exact survives_write hfresh.unlinked

/-- Writing a fresh file does not change what is read at the path. -/
theorem read_writes : (d.applyAll (chunks.map (.write file))).read = d.read := by
  rw [applyAll_writes, read, read]
  cases he : d.entry with
  | none => rfl
  | some i =>
    have hne : i ≠ file := by
      rintro rfl
      exact hfresh.unlinked (by rw [Linked, he]; exact .head _)
    simp [Function.update_of_ne hne]

/-- **A replacement is atomic.** Cut after any number of operations, the path holds after a power loss what it could hold
before, or from the rename on the whole new file; and when the directory is synced it holds the new file. -/
theorem survives_replaceOps (n : Nat) :
    (d.applyAll ((replaceOps file chunks).take n)).Survives found ↔
      match replacedAfter chunks.length n with
      | .notYet => d.Survives found
      | .renamed => found = some chunks.flatten ∨ d.Survives found
      | .done => found = some chunks.flatten := by
  obtain ⟨hcontent, hwhole, hsurvives⟩ := writtenAndSynced_spec hfresh chunks
  have hnew : Option.Rel (d.writtenAndSynced file chunks).Leaves (some file) found ↔ found = some chunks.flatten := by
    constructor
    · intro h
      cases h with
      | some hleaves => rw [hleaves.eq hwhole, hcontent]
    · rintro rfl
      rw [← hcontent]
      exact .some (leaves_whole hwhole)
  rcases @replaceOps_cases α d file chunks n with ⟨hn, ⟨k, hk⟩ | hk⟩ | ⟨hn, hk⟩ | ⟨hn, hk⟩
  · rw [hn, hk, applyAll_writes]
    exact survives_write hfresh.unlinked
  · rw [hn, hk, hsurvives]
  · rw [hn, hk, survives_rename, hnew, hsurvives]
  · rw [hn, hk, survives_syncDir]
    exact hnew

/-- While the power stays on, the path has the new file from the rename on. -/
theorem read_replaceOps (n : Nat) :
    (d.applyAll ((replaceOps file chunks).take n)).read =
      match replacedAfter chunks.length n with
      | .notYet => d.read
      | _ => some chunks.flatten := by
  obtain ⟨hcontent, _⟩ := writtenAndSynced_spec hfresh chunks
  rcases @replaceOps_cases α d file chunks n with ⟨hn, ⟨k, hk⟩ | hk⟩ | ⟨hn, hk⟩ | ⟨hn, hk⟩
  · rw [hn, hk]
    exact read_writes hfresh (chunks.take k)
  · rw [hn, hk]
    exact read_writes hfresh chunks
  · rw [hn, hk, ← hcontent]
    rfl
  · rw [hn, hk, ← hcontent]
    rfl

end

end Disk
