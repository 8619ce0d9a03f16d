import CryptPilot.Verity.RoundTrip

/-!
# The root hash names the files

The document behind the root hash lists paths and descriptor hashes, sorted by path. For a table in
which every file has both, and no path occurs twice, the list is the set of these pairs in the only
order there is: tables have the same document exactly when they name the same files
(`entries_eq_iff`).
-/

namespace CryptPilot.Verity

open CryptPilot.Data CryptPilot.VerityCore

variable {h : Bytes → List.Vector UInt8 32} {libs : Libs h}

/-- Every file of the table has a path of its own and a descriptor hash. -/
structure Named (table : MetadataTable) : Prop where
  complete : ∀ t ∈ table.files.getD [], ∃ entry, Names t entry
  distinct : ((table.files.getD []).map FileInfoTable.path).Nodup

/-- The entry of a file that has a path and a descriptor hash. -/
def entryOf (table : FileInfoTable) : FileHashJsonEntry :=
  ⟨table.descriptorHash.getD "", table.path.getD ""⟩

theorem Names.eq_entryOf {t : FileInfoTable} {entry : FileHashJsonEntry} (hn : Names t entry) :
    entry = entryOf t := by
  rw [entryOf, hn.1, hn.2]
  rfl

/-- The entries of a table, in its own order. -/
def entriesOf (table : MetadataTable) : List FileHashJsonEntry :=
  (table.files.getD []).map entryOf

namespace Named

variable {table table₁ table₂ : MetadataTable}

theorem mem_entriesOf (hn : Named table) (entry : FileHashJsonEntry) :
    entry ∈ entriesOf table ↔ ∃ t ∈ table.files.getD [], Names t entry := by
  constructor
  · intro hmem
    obtain ⟨t, ht, rfl⟩ := List.mem_map.mp hmem
    obtain ⟨entry, hentry⟩ := hn.complete t ht
    exact ⟨t, ht, hentry.eq_entryOf ▸ hentry⟩
  · rintro ⟨t, ht, hentry⟩
    rw [hentry.eq_entryOf]
    exact List.mem_map_of_mem ht

theorem nodup_entriesOf (hn : Named table) :
    ((entriesOf table).map FileHashJsonEntry.path).Nodup := by
  have hpaths : (table.files.getD []).map FileInfoTable.path =
      ((entriesOf table).map FileHashJsonEntry.path).map some := by
    rw [entriesOf, List.map_map, List.map_map]
    refine List.map_congr_left fun t ht => ?_
    obtain ⟨entry, hentry⟩ := hn.complete t ht
    rw [hentry.1, hentry.eq_entryOf]
    rfl
  have hdistinct := hn.distinct
  rw [hpaths] at hdistinct
  exact hdistinct.of_map some

theorem jsonEntries_eq (hn : Named table) :
    jsonEntries table = .ok (sortByKey FileHashJsonEntry.path (entriesOf table)) := by
  have hentry : ∀ t ∈ table.files.getD [], jsonEntry t = .ok (entryOf t) := by
    intro t ht
    obtain ⟨entry, hpath, hhash⟩ := hn.complete t ht
    rw [jsonEntry, entryOf, hpath, hhash]
    rfl
  rw [jsonEntries, mapM_of_ok hentry]
  rfl

/-- **Same document, same files.** -/
theorem entries_eq_iff (hn₁ : Named table₁) (hn₂ : Named table₂) :
    sortByKey FileHashJsonEntry.path (entriesOf table₁) =
        sortByKey FileHashJsonEntry.path (entriesOf table₂) ↔
      ∀ entry, (∃ t ∈ table₁.files.getD [], Names t entry) ↔
        ∃ t ∈ table₂.files.getD [], Names t entry := by
  rw [sortByKey_eq_iff hn₁.nodup_entriesOf hn₂.nodup_entriesOf]
  exact forall_congr' fun entry => iff_congr (hn₁.mem_entriesOf entry) (hn₂.mem_entriesOf entry)

/-- The document of such a table. -/
theorem metadataHashDoc_eq (hn : Named table) {bytes json : Bytes}
    (hread : libs.root bytes = .ok table)
    (hjson : libs.canonJson (sortByKey FileHashJsonEntry.path (entriesOf table)) = .ok json) :
    metadataHashDoc libs bytes = .ok json := by
  rw [metadataHashDoc, hread, mapError_ok, ok_bind, hn.jsonEntries_eq, ok_bind, hjson, mapError_ok]

end Named

end CryptPilot.Verity
