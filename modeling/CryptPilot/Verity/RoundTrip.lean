import CryptPilot.Data.Sorted
import CryptPilot.Verity.VerifySound

/-!
# Metadata that is written and read

`serialize_metadata` sorts the records by path and flattens their hashes; `deserialize_metadata`
cuts the hashes again. What is read is what was written, sorted by path, and the buffer does not
depend on the order in which the records were given (`metadata_round_trip`).
-/

namespace CryptPilot.Verity

open CryptPilot.Data CryptPilot.VerityCore CryptPilot.VerityFuse

variable {h : Bytes → List.Vector UInt8 32} {σ η : Type} {libs : Libs h} {p : Profile}

/-- The table that `serialize_metadata` writes. -/
def metadataTable (libs : Libs h) (fileInfos : List (FileVerityInfo h)) (labels : Labels) :
    MetadataTable where
  version := 1
  files := some ((libs.sortUnstable fileInfos).map fileInfoTable)
  labels := some (labels.toList.map fun (key, value) => ⟨some key, some value⟩)

theorem serializeMetadata_eq (infos : List (FileVerityInfo h)) (labels : Labels) :
    serializeMetadata libs infos labels = libs.finish (metadataTable libs infos labels) :=
  rfl

/-- Labels are read as they were written. -/
theorem mapM_keyValue (labels : List (String × String)) :
    (labels.map fun (key, value) => (⟨some key, some value⟩ : KeyValueTable)).mapM keyValue =
      .ok labels := by
  rw [List.mapM_map]
  have hlabel : ∀ label ∈ labels,
      keyValue ⟨some label.1, some label.2⟩ = .ok ((fun label => label) label) :=
    fun _ _ => rfl
  exact (mapM_of_ok hlabel).trans (by rw [List.map_id'])

/-- What is read from a table of records and labels that are complete. -/
theorem deserializeMetadata_of_table {table : MetadataTable} {infos : List (FileVerityInfo h)}
    {labels : List (String × String)} {bytes : Bytes} (hroot : libs.root bytes = .ok table)
    (hversion : table.version = 1) (hinfos : table.files.getD [] = infos.map fileInfoTable)
    (hentries : table.labels.getD [] = labels.map fun (key, value) => ⟨some key, some value⟩) :
    (deserializeMetadata libs bytes).run = some (.ok ⟨infos,
      labels.foldl (fun labels (key, value) => labels.insert key value) ∅⟩) := by
  have hfiles : ((table.files.getD []).mapM (fileVerityInfo (h := h))).run = some (.ok infos) := by
    rw [hinfos, List.mapM_map]
    exact (run_mapM_of_ok (g := id) fun info _ => fileVerityInfo_fileInfoTable info).trans
      (by rw [List.map_id])
  have hlabels : (table.labels.getD []).mapM keyValue = .ok labels := by
    rw [hentries]
    exact mapM_keyValue labels
  rw [run_deserializeMetadata hroot hversion, run_bind_of_ok hfiles,
    run_bind_of_ok (run_liftExcept_ok hlabels)]
  rfl

/-- A table that was written is read as the records and the labels it was written from. -/
theorem deserializeMetadata_metadataTable {infos : List (FileVerityInfo h)} {labels : Labels}
    {bytes : Bytes} (hroot : libs.root bytes = .ok (metadataTable libs infos labels)) :
    (deserializeMetadata libs bytes).run = some (.ok ⟨libs.sortUnstable infos, labels⟩) := by
  rw [deserializeMetadata_of_table hroot rfl rfl rfl]
  exact congrArg (fun labels => some (Except.ok (MetadataInfo.mk (libs.sortUnstable infos) labels)))
    (foldl_insert_toList labels)

/-- What is read back from the metadata that `format` wrote: the records it made, in the order of
their paths, and the labels. -/
theorem exists_formatted {host : Host σ η} {s : σ} {options : FormatOptions} {out : FormatOutput σ}
    (hformat : (format libs p host s options).run = some (.ok out)) :
    ∃ metadata infos, (deserializeMetadata libs out.metadata).run = some (.ok metadata) ∧
      metadata.labels = options.labelMap ∧ metadata.fileInfos.Perm infos ∧
      List.Forall₂ (fun file info => (formatFile libs p host s options file).run = some (.ok info))
        (recordedFiles host s options) infos := by
  obtain ⟨infos, -, hinfos, hfb, -, hroot, -⟩ := format_inv hformat
  obtain ⟨json, hjson, -⟩ := calculateMetadataHash_eq_ok hroot
  obtain ⟨table, -, htable, -⟩ := metadataHashDoc_eq_ok hjson
  rw [libs.root_finish hfb htable] at htable
  exact ⟨_, infos, deserializeMetadata_metadataTable htable, rfl, libs.sortUnstable_perm infos,
    hinfos⟩

/-- Records with distinct paths are sorted in one way. -/
theorem sortUnstable_eq_of_perm {infos infos' : List (FileVerityInfo h)}
    (hnodup : (infos.map FileVerityInfo.path).Nodup) (hperm : infos'.Perm infos) :
    libs.sortUnstable infos' = libs.sortUnstable infos :=
  sorted_unique hnodup ((libs.sortUnstable_perm infos').trans hperm) (libs.sortUnstable_perm infos)
    (libs.sortUnstable_sorted infos') (libs.sortUnstable_sorted infos)

/-- **Metadata round trip.** For records with distinct paths, and all labels: the buffer is the same
for any order of the records, and what is read from it, if it is within the limits of the reader,
are the records, sorted by path, and the labels. -/
theorem metadata_round_trip (libs : Libs h) {infos : List (FileVerityInfo h)}
    (hnodup : (infos.map FileVerityInfo.path).Nodup) (labels : Labels) :
    (∀ infos', infos'.Perm infos →
        serializeMetadata libs infos' labels = serializeMetadata libs infos labels) ∧
      ∀ bytes table, serializeMetadata libs infos labels = some bytes →
        libs.root bytes = .ok table →
        ∃ sorted, sorted.Perm infos ∧ (sorted.Pairwise fun a b => a.path < b.path) ∧
          (deserializeMetadata libs bytes).run = some (.ok ⟨sorted, labels⟩) := by
  constructor
  · intro infos' hperm
    rw [serializeMetadata, serializeMetadata, sortUnstable_eq_of_perm hnodup hperm]
  · intro bytes table hbytes hroot
    have hperm := libs.sortUnstable_perm infos
    have hnodup' : ((libs.sortUnstable infos).map FileVerityInfo.path).Nodup :=
      (hperm.map _).nodup_iff.mpr hnodup
    rw [serializeMetadata_eq] at hbytes
    rw [libs.root_finish hbytes hroot] at hroot
    exact ⟨libs.sortUnstable infos, hperm,
      pairwise_lt_of_sorted hnodup' (libs.sortUnstable_sorted infos),
      deserializeMetadata_metadataTable hroot⟩

/-- Two records, which are written out of order, and a label. -/
theorem metadata_round_trip_two_files :
    let labels : Labels := (∅ : Labels).insert "build" "7"
    ∃ (libs : Libs FsVerityDigest.lengthHash) (a b : FileVerityInfo FsVerityDigest.lengthHash),
      a.path = "a" ∧ b.path = "b" ∧
      serializeMetadata libs [b, a] labels = some [1] ∧
      serializeMetadata libs [a, b] labels = some [1] ∧
      (deserializeMetadata libs [1]).run = some (.ok ⟨[a, b], labels⟩) := by
  intro labels
  obtain ⟨info, -⟩ := exists_oneInfo FsVerityDigest.lengthHash
    (by decide : ([7] : Bytes).length < 2 ^ 52)
  let a : FileVerityInfo FsVerityDigest.lengthHash := { info with path := "a" }
  let b : FileVerityInfo FsVerityDigest.lengthHash := { info with path := "b" }
  let table : MetadataTable := ⟨1, some ([a, b].map fileInfoTable),
    some (labels.toList.map fun (key, value) => ⟨some key, some value⟩)⟩
  let libs : Libs FsVerityDigest.lengthHash := libsFor table []
  have hnodup : ([b, a].map FileVerityInfo.path).Nodup := (by decide : ["b", "a"].Nodup)
  have hsorted : [a, b].Pairwise fun a b => a.path ≤ b.path :=
    List.pairwise_pair.mpr (by decide : "a" ≤ "b")
  have honly (infos : List (FileVerityInfo FsVerityDigest.lengthHash)) (hperm : infos.Perm [b, a])
      (hsorted' : infos.Pairwise fun a b => a.path ≤ b.path) : infos = [a, b] :=
    sorted_unique hnodup hperm (.swap _ _ _) hsorted' hsorted
  have hsort : libs.sortUnstable [b, a] = [a, b] :=
    honly _ (libs.sortUnstable_perm _) (libs.sortUnstable_sorted _)
  have hbytes : serializeMetadata libs [b, a] labels = some [1] := by
    rw [serializeMetadata, hsort]
    exact if_pos rfl
  have hroot : libs.root [1] = .ok table := rfl
  obtain ⟨hany, hread⟩ := metadata_round_trip libs hnodup labels
  obtain ⟨sorted, hperm, hsorted', hmetadata⟩ := hread [1] table hbytes hroot
  obtain rfl := honly sorted hperm (hsorted'.imp le_of_lt)
  exact ⟨libs, a, b, rfl, rfl, hbytes, (hany [a, b] (.swap _ _ _)).trans hbytes, hmetadata⟩

end CryptPilot.Verity
