import Ganglion.Runtime.Serde
import Ganglion.Storage.MetadataLog

/-!
# The JSON of the metadata logs

What serde writes for a persisted entry and for the resource that keys an assignment. With it the codec of the metadata
logs is instantiated (`serdeLog`): the writer is this text, and the readers accept what the writer writes.
-/

namespace Ganglion

open Text

/-! ## The texts -/

def PersistedCoordinationSnapshot.toJson (s : PersistedCoordinationSnapshot) : Json :=
  .obj [("nodes", Json.map id NodeInfo.toJson s.nodes),
    ("assignments", Json.map id PartitionAssignment.toJson s.assignments),
    ("resources", Json.set ResourceIdentity.toJson s.resources), ("attributes", Json.map id .str s.attributes),
    ("generation", jsonU64 s.generation)]

@[simp] theorem PersistedCoordinationSnapshot.toJson_inj {a b : PersistedCoordinationSnapshot} :
    a.toJson = b.toJson ↔ a = b := by
  have hnode : Function.Injective NodeInfo.toJson := fun _ _ h => NodeInfo.toJson_inj.1 h
  have hassignment : Function.Injective PartitionAssignment.toJson := fun _ _ h => PartitionAssignment.toJson_inj.1 h
  have hres : Function.Injective ResourceIdentity.toJson := fun _ _ h => ResourceIdentity.toJson_inj.1 h
  cases a; cases b
  simp [toJson, (Json.map_injective (K := String) Function.injective_id hnode).eq_iff,
    (Json.map_injective (K := String) Function.injective_id hassignment).eq_iff, (Json.set_injective hres).eq_iff]

/-- The fields of an entry. -/
def PersistedMetadataLogEntry.fields (e : PersistedMetadataLogEntry) : List (String × Json) :=
  [("term", jsonU64 e.term), ("index", jsonU64 e.index), ("snapshot", e.snapshot.toJson)]

theorem PersistedMetadataLogEntry.fields_injective : Function.Injective fields := by
  rintro ⟨t, i, s⟩ ⟨t', i', s'⟩ h
  simpa [fields] using h

/-- `serde_json::to_string` on an entry. -/
def PersistedMetadataLogEntry.text (e : PersistedMetadataLogEntry) : String := .ofList (Json.print (.obj e.fields))

theorem PersistedMetadataLogEntry.text_toList (e : PersistedMetadataLogEntry) :
    e.text.toList = Json.print (.obj e.fields) := by simp [text]

/-- Nothing can follow the text of an entry in the text of an entry. -/
theorem PersistedMetadataLogEntry.text_append_eq {e e' : PersistedMetadataLogEntry} {u : String}
    (h : e.text ++ u = e'.text) : e = e' ∧ u = "" := by
  have hl := congrArg String.toList h
  rw [String.toList_append, text_toList, text_toList] at hl
  obtain ⟨hf, hu⟩ := Json.print_obj_append_eq hl
  exact ⟨fields_injective hf, String.toList_injective (by simpa using hu)⟩

theorem PersistedMetadataLogEntry.text_injective : Function.Injective text := by
  intro a b h
  exact (text_append_eq (u := "") (by simpa using h)).1

/-- `serde_json::to_string` on a resource. -/
def ResourceIdentity.text (r : ResourceIdentity) : String := .ofList (Json.print r.toJson)

theorem ResourceIdentity.text_injective : Function.Injective text := by
  intro a b h
  have hl := congrArg String.toList h
  simp only [text, String.toList_ofList] at hl
  exact toJson_inj.1 (Json.print_injective hl)

/-! ## The codec -/

/-- A reader of what a writer writes. -/
noncomputable def readerOf {α β : Type} (write : α → β) (b : β) : Except String α :=
  match Function.partialInv write b with
  | some a => .ok a
  | none => .error "expected value"

theorem readerOf_write {α β : Type} {write : α → β} (h : Function.Injective write) (a : α) :
    readerOf write (write a) = .ok a := by
  rw [readerOf, Function.partialInv_left h]

theorem readerOf_eq_ok {α β : Type} {write : α → β} (h : Function.Injective write) {a : α} {b : β}
    (hr : readerOf write b = .ok a) : write a = b := by
  unfold readerOf at hr
  split at hr
  · rename_i a' ha
    cases hr
    exact (h.isPartialInv a b).1 ha
  · cases hr

/-- The JSON of the metadata logs. -/
noncomputable def serdeLog : LogCodec where
  entryToString := PersistedMetadataLogEntry.text
  entryFromStr := readerOf PersistedMetadataLogEntry.text
  entryFromSlice := readerOf fun e => utf8 e.text
  resourceToString := ResourceIdentity.text
  resourceFromStr := readerOf ResourceIdentity.text
  entry_roundTrip := readerOf_write PersistedMetadataLogEntry.text_injective
  slice_roundTrip := readerOf_write (utf8_injective.comp PersistedMetadataLogEntry.text_injective)
  resource_roundTrip := readerOf_write ResourceIdentity.text_injective
  opened e := by rw [PersistedMetadataLogEntry.text_toList, Json.print_obj_head]
  closed e := by rw [PersistedMetadataLogEntry.text_toList, Json.print_obj_getLast]
  printable e := by rw [PersistedMetadataLogEntry.text_toList]; exact Json.print_printable _
  unfinished e s u h hu := by
    cases hs : readerOf PersistedMetadataLogEntry.text s with
    | error error => exact ⟨error, rfl⟩
    | ok e' =>
      have hs' := readerOf_eq_ok PersistedMetadataLogEntry.text_injective hs
      rw [← hs'] at h
      exact absurd (PersistedMetadataLogEntry.text_append_eq h.symm).2 hu

end Ganglion
