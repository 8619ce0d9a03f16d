import CryptPilot.Verity.VerifySound

/-!
# Metadata from anywhere

What `deserialize_metadata` and `verify_self` do with a buffer that only had to pass the FlatBuffers
verifier. Missing fields and broken lists are reported as errors. Other values go unchecked into
code that panics: a root hash is copied into an array of its own size, the salt into a field of the
descriptor, the block size is a shift, and the hasher asserts what it needs. And a block size decides
how much is allocated to fill up the hashes, which can be more than there is
(`deserialize_verifySelf_iff`).
-/

namespace CryptPilot.Verity

open CryptPilot.Data CryptPilot.VerityCore CryptPilot.VerityFuse

variable {h : Bytes → List.Vector UInt8 32}

/-! ## One file -/

/-- A file entry in which vectors that may be missing are there. -/
def FileInfoTable.filled (t : FileInfoTable) : FileInfoTable :=
  { t with
    descriptor := t.descriptor.map fun d => { d with salt := some (d.salt.getD []) }
    merkleTreeLevel1 := some (t.merkleTreeLevel1.getD []) }

/-- No field up to the root hash is missing, and the root hash is not as long as a digest. -/
def FileInfoTable.RootHashMisfit (t : FileInfoTable) : Prop :=
  t.path ≠ none ∧ t.descriptorHash ≠ none ∧
    ∃ d rootHash, t.descriptor = some d ∧ d.rootHash = some rootHash ∧ rootHash.length ≠ 32

theorem fileVerityInfo_filled (t : FileInfoTable) :
    (fileVerityInfo t.filled : ExceptT String Option (FileVerityInfo h)) = fileVerityInfo t := by
  obtain ⟨path, descriptor, level1, descriptorHash⟩ := t
  cases descriptor <;> rfl

/-- Bytes for whole digests are digests. -/
theorem exists_digests {bytes : Bytes} (hlen : bytes.length % 32 = 0) :
    ∃ hashes : List (Output (sha256 h)), hashes.flatMap List.Vector.toList = bytes := by
  induction bytes using chunks_induction (by decide : 0 < 32) with
  | nil => exact ⟨[], rfl⟩
  | step bytes hne ih =>
    have hpos := List.length_pos_of_ne_nil hne
    have htake : (bytes.take 32).length = 32 := by
      rw [List.length_take]
      omega
    obtain ⟨hash, hhash⟩ : ∃ hash : Output (sha256 h), hash.toList = bytes.take 32 :=
      ⟨⟨_, htake⟩, rfl⟩
    obtain ⟨hashes, hhashes⟩ := ih (by rw [List.length_drop]; omega)
    exact ⟨hash :: hashes, by rw [List.flatMap_cons, hhash, hhashes, List.take_append_drop]⟩

/-- The copy of the root hash comes right after it was found. -/
theorem fileVerityInfo_misfit {t : FileInfoTable} (ht : t.RootHashMisfit) :
    (fileVerityInfo t : ExceptT String Option (FileVerityInfo h)).run = none := by
  obtain ⟨path, descriptor, level1, descriptorHash⟩ := t
  obtain ⟨hpath, hhash, ⟨_, _, _, _, _, salt⟩, rootHash, rfl, rfl, hlen⟩ := ht
  obtain ⟨path, rfl⟩ := Option.ne_none_iff_exists'.mp hpath
  obtain ⟨descriptorHash, rfl⟩ := Option.ne_none_iff_exists'.mp hhash
  have hdigest : (toDigest rootHash : Option (Output (sha256 h))) = none := dif_neg hlen
  rw [fileVerityInfo]
  show ((liftM (toDigest rootHash : Option (Output (sha256 h))) : ExceptT String Option _) >>=
    _).run = _
  rw [hdigest]
  rfl

/-- What reading a file can come to: a panic at its root hash, what was written, or an error. -/
theorem fileVerityInfo_cases (t : FileInfoTable) :
    t.RootHashMisfit ∨ (∃ info : FileVerityInfo h, t.filled = fileInfoTable info) ∨
      ∃ e, (fileVerityInfo t : ExceptT String Option (FileVerityInfo h)).run =
        some (.error e) := by
  obtain ⟨_ | path, descriptor, level1, descriptorHash⟩ := t
  · exact Or.inr (Or.inr ⟨_, rfl⟩)
  rcases descriptorHash with _ | descriptorHash
  · exact Or.inr (Or.inr ⟨_, rfl⟩)
  rcases descriptor with _ | ⟨version, hashAlgorithm, logBlocksize, dataSize, rootHash, salt⟩
  · exact Or.inr (Or.inr ⟨_, rfl⟩)
  rcases rootHash with _ | rootHash
  · exact Or.inr (Or.inr ⟨_, rfl⟩)
  by_cases hlen : rootHash.length = 32
  · obtain ⟨digest, rfl⟩ : ∃ digest : Output (sha256 h), digest.toList = rootHash :=
      ⟨⟨_, hlen⟩, rfl⟩
    by_cases hlevel1 : (level1.getD []).length % 32 = 0
    · obtain ⟨hashes, hhashes⟩ := exists_digests (h := h) hlevel1
      refine Or.inr (Or.inl ⟨⟨path, ⟨version, hashAlgorithm, logBlocksize, dataSize, digest,
        salt.getD []⟩, ⟨hashes⟩, descriptorHash⟩, ?_⟩)
      simp only [FileInfoTable.filled, fileInfoTable, MerkleTree.level1AsBytes, hhashes,
        Option.map_some]
    · refine Or.inr (Or.inr ?_)
      rw [fileVerityInfo]
      show ∃ e, ((liftM (toDigest digest.toList : Option (Output (sha256 h))) :
        ExceptT String Option _) >>= _).run = some (.error e)
      rw [run_bind_of_ok (run_lift_some (toDigest_toList digest))]
      dsimp only
      rw [if_pos hlevel1]
      exact ⟨_, rfl⟩
  · exact Or.inl ⟨by simp, by simp, _, _, rfl, rfl, hlen⟩

theorem fileVerityInfo_eq_ok_iff {t : FileInfoTable} {info : FileVerityInfo h} :
    (fileVerityInfo t).run = some (.ok info) ↔ t.filled = fileInfoTable info := by
  have hback : ∀ info' : FileVerityInfo h, t.filled = fileInfoTable info' →
      (fileVerityInfo t).run = some (.ok info') := by
    intro info' hfilled
    rw [← fileVerityInfo_filled, hfilled, fileVerityInfo_fileInfoTable]
  refine ⟨fun hok => ?_, hback info⟩
  rcases fileVerityInfo_cases (h := h) t with hmisfit | ⟨info', hfilled⟩ | ⟨e, he⟩
  · rw [fileVerityInfo_misfit hmisfit] at hok
    cases hok
  · rw [hback info' hfilled] at hok
    cases hok
    exact hfilled
  · rw [he] at hok
    cases hok

theorem fileVerityInfo_eq_none_iff {t : FileInfoTable} :
    (fileVerityInfo t : ExceptT String Option (FileVerityInfo h)).run = none ↔
      t.RootHashMisfit := by
  refine ⟨fun hnone => ?_, fileVerityInfo_misfit⟩
  rcases fileVerityInfo_cases (h := h) t with hmisfit | ⟨info, hfilled⟩ | ⟨e, he⟩
  · exact hmisfit
  · rw [fileVerityInfo_eq_ok_iff.mpr hfilled] at hnone
    cases hnone
  · rw [he] at hnone
    cases hnone

/-! ## The whole buffer -/

/-- Metadata that neither reading nor checking panics or is aborted on. Only files before the first
that is not as it could have been written are read. If all are, and all labels, then every file is
checked. -/
structure MetadataTable.Harmless (h : Bytes → List.Vector UInt8 32) (limit : Option Nat) (p : Profile)
    (table : MetadataTable) : Prop where
  rootHash : ∀ before t after, table.files.getD [] = before ++ t :: after →
    (∀ f ∈ before, ∃ info : FileVerityInfo h, f.filled = fileInfoTable info) →
    ¬ t.RootHashMisfit
  checkable : ∀ infos : List (FileVerityInfo h),
    (table.files.getD []).map FileInfoTable.filled = infos.map fileInfoTable →
    (∀ kv ∈ table.labels.getD [], kv.key ≠ none ∧ kv.value ≠ none) →
    ∀ info ∈ infos, info.Checkable limit p

theorem keyValue_eq_ok_iff {kv : KeyValueTable} :
    (∃ r, keyValue kv = .ok r) ↔ kv.key ≠ none ∧ kv.value ≠ none := by
  obtain ⟨_ | key, _ | value⟩ := kv <;> simp [keyValue, required]

/-- Reading all files gives what they could have been written from. -/
theorem mapM_fileVerityInfo_eq_ok_iff {files : List FileInfoTable}
    {infos : List (FileVerityInfo h)} :
    (files.mapM fileVerityInfo).run = some (.ok infos) ↔
      files.map FileInfoTable.filled = infos.map fileInfoTable := by
  have hforall₂ : List.Forall₂ (fun t info => (fileVerityInfo t).run = some (.ok info)) files
      infos ↔ files.map FileInfoTable.filled = infos.map fileInfoTable := by
    simp only [fileVerityInfo_eq_ok_iff]
    rw [← List.forall₂_eq_eq_eq, List.forall₂_map_left_iff, List.forall₂_map_right_iff]
  exact ⟨fun hok => hforall₂.mp (run_mapM_eq_ok hok),
    fun hmap => run_mapM_of_forall₂ (hforall₂.mpr hmap)⟩

/-- Reading the files does not panic exactly when no root hash that it comes to is a misfit. -/
theorem mapM_fileVerityInfo_eq_none_iff {files : List FileInfoTable} :
    (files.mapM (fileVerityInfo (h := h))).run = none ↔
      ∃ before t after, files = before ++ t :: after ∧
        (∀ f ∈ before, ∃ info : FileVerityInfo h, f.filled = fileInfoTable info) ∧
        t.RootHashMisfit := by
  simp only [run_mapM_eq_none_iff, fileVerityInfo_eq_ok_iff, fileVerityInfo_eq_none_iff]

/-- For metadata of the version that is read. -/
theorem deserialize_verifySelf_iff_harmless {libs : Libs h} {limit : Option Nat} {p : Profile}
    {data : Bytes}
    {table : MetadataTable} (hroot : libs.root data = .ok table) (hversion : table.version = 1) :
    (∃ r, (deserializeMetadata libs data).run = some r ∧
        ∀ metadata, r = .ok metadata → ∀ info ∈ metadata.fileInfos,
          ∃ r', info.verifySelfWithin limit p = some r') ↔
      table.Harmless h limit p := by
  rw [run_deserializeMetadata hroot hversion]
  match hfiles : ((table.files.getD []).mapM (fileVerityInfo (h := h))).run with
  | none =>
    obtain ⟨before, t, after, hsplit, hbefore, ht⟩ := mapM_fileVerityInfo_eq_none_iff.mp hfiles
    refine iff_of_false ?_ fun hharmless => hharmless.rootHash before t after hsplit hbefore ht
    rintro ⟨r, hr, -⟩
    rw [ExceptT.run_bind, hfiles] at hr
    cases hr
  | some (.error e) =>
    refine iff_of_true ⟨.error e, by rw [ExceptT.run_bind, hfiles]; rfl, fun _ hok => nomatch hok⟩
      ⟨fun before t after hsplit hbefore ht => ?_, fun infos hinfos => ?_⟩
    · rw [mapM_fileVerityInfo_eq_none_iff.mpr ⟨before, t, after, hsplit, hbefore, ht⟩] at hfiles
      cases hfiles
    · rw [mapM_fileVerityInfo_eq_ok_iff.mpr hinfos] at hfiles
      cases hfiles
  | some (.ok infos) =>
    have hroots : ∀ before t after, table.files.getD [] = before ++ t :: after →
        (∀ f ∈ before, ∃ info : FileVerityInfo h, f.filled = fileInfoTable info) →
        ¬ t.RootHashMisfit := by
      intro before t after hsplit hbefore ht
      rw [mapM_fileVerityInfo_eq_none_iff.mpr ⟨before, t, after, hsplit, hbefore, ht⟩] at hfiles
      cases hfiles
    rw [run_bind_of_ok hfiles]
    cases hlabels : (table.labels.getD []).mapM keyValue with
    | error e =>
      refine iff_of_true ⟨.error e, rfl, fun _ hok => nomatch hok⟩ ⟨hroots, fun _ _ hkv => ?_⟩
      obtain ⟨kvs, hkvs⟩ := exists_mapM_eq_ok_iff.mpr fun kv hmem =>
        keyValue_eq_ok_iff.mpr (hkv kv hmem)
      rw [hlabels] at hkvs
      cases hkvs
    | ok kvs =>
      constructor
      · rintro ⟨r, hr, hall⟩
        cases hr
        refine ⟨hroots, fun infos' hinfos' _ info hinfo => ?_⟩
        rw [mapM_fileVerityInfo_eq_ok_iff.mpr hinfos'] at hfiles
        cases hfiles
        exact FileVerityInfo.verifySelfWithin_isSome_iff.mp (hall _ rfl info hinfo)
      · intro hharmless
        refine ⟨_, rfl, fun metadata hmetadata info hinfo => ?_⟩
        cases hmetadata
        refine FileVerityInfo.verifySelfWithin_isSome_iff.mpr (hharmless.checkable infos
          (mapM_fileVerityInfo_eq_ok_iff.mp hfiles) (fun kv hmem => ?_) info hinfo)
        exact keyValue_eq_ok_iff.mp (exists_mapM_eq_ok_iff.mp ⟨kvs, hlabels⟩ kv hmem)

/-- **Hostile metadata panics unless it is harmless.** For every buffer that the FlatBuffers verifier
passes, and whatever can be allocated, `deserialize_metadata` returns, and so does `verify_self` on
every entry if it succeeds, exactly when the metadata is of another version or harmless. -/
theorem deserialize_verifySelf_iff (libs : Libs h) (limit : Option Nat) (p : Profile) (data : Bytes) :
    (∃ r, (deserializeMetadata libs data).run = some r ∧
        ∀ metadata, r = .ok metadata → ∀ info ∈ metadata.fileInfos,
          ∃ r', info.verifySelfWithin limit p = some r') ↔
      ∀ table, libs.root data = .ok table → table.version = 1 → table.Harmless h limit p := by
  cases hroot : libs.root data with
  | error e =>
    have hrun : ∃ e', (deserializeMetadata libs data).run = some (.error e') := by
      rw [deserializeMetadata, hroot]
      exact ⟨_, rfl⟩
    obtain ⟨e', hrun⟩ := hrun
    refine iff_of_true ⟨_, hrun, ?_⟩ ?_
    · rintro metadata ⟨⟩
    · rintro table ⟨⟩
  | ok table =>
    by_cases hversion : table.version = 1
    · rw [deserialize_verifySelf_iff_harmless hroot hversion]
      refine ⟨fun hharmless table' htable _ => ?_, fun hall => hall table rfl hversion⟩
      cases htable
      exact hharmless
    · have hrun : ∃ e, (deserializeMetadata libs data).run = some (.error e) := by
        rw [deserializeMetadata, hroot, mapError_ok, run_bind_of_ok (run_liftExcept_ok rfl),
          if_pos hversion]
        exact ⟨_, rfl⟩
      obtain ⟨e, hrun⟩ := hrun
      refine iff_of_true ⟨_, hrun, ?_⟩ ?_
      · rintro metadata ⟨⟩
      · rintro table' ⟨⟩ hversion'
        exact absurd hversion' hversion

/-- A file with an empty root hash. -/
def misfitMetadata : MetadataTable :=
  ⟨1, some [⟨some "f", some ⟨1, 1, 12, 0, some [], none⟩, none, some ""⟩], none⟩

/-- A file with blocks of one byte, no level-1 hashes, and the descriptor hash that belongs to it. -/
def tinyBlocks : FileVerityInfo FsVerityDigest.lengthHash :=
  let desc : FsVerityDescriptor (sha256 FsVerityDigest.lengthHash) :=
    ⟨1, 1, 0, 0, zeroDigest _, []⟩
  ⟨"f", desc, ⟨[]⟩, hexEncode (FsVerityDigest.lengthHash desc.structBytes).toList⟩

/-- A file with the largest blocks there are, two level-1 hashes, and the descriptor hash that belongs
to it. -/
def hugeBlocks : FileVerityInfo FsVerityDigest.lengthHash :=
  let desc : FsVerityDescriptor (sha256 FsVerityDigest.lengthHash) :=
    ⟨1, 1, 63, 0, zeroDigest _, []⟩
  ⟨"f", desc, ⟨[zeroDigest _, zeroDigest _]⟩,
    hexEncode (FsVerityDigest.lengthHash desc.structBytes).toList⟩

/-- Where there is not half of the address space at once, checking it is aborted. -/
theorem verifySelfWithin_hugeBlocks {limit : Nat} (hlimit : limit < 2 ^ 63 - 64) (p : Profile) :
    hugeBlocks.verifySelfWithin (some limit) p = none := by
  rw [Option.eq_none_iff_forall_not_mem]
  intro r hr
  obtain ⟨-, hchecked⟩ := FileVerityInfo.verifySelfWithin_isSome_iff.mp ⟨r, hr⟩
  obtain ⟨-, hone | ⟨-, -, -, hfits⟩⟩ := hchecked (by decide +kernel)
  · cases hone
  · have hle : 2 ^ 63 - 64 ≤ limit := hfits limit rfl
    omega

/-- Reading panics on the one, and the self-check of what was read on the others. -/
theorem deserialize_verifySelf_panics :
    (libsFor misfitMetadata [] : Libs FsVerityDigest.lengthHash).root [1] = .ok misfitMetadata ∧
      (deserializeMetadata (libsFor misfitMetadata [] : Libs FsVerityDigest.lengthHash) [1]).run =
        none ∧
      (∃ metadata, (deserializeMetadata (singleLibs tinyBlocks) [1]).run = some (.ok metadata) ∧
        tinyBlocks ∈ metadata.fileInfos ∧ tinyBlocks.verifySelfWithin none .dev = none ∧
        tinyBlocks.verifySelfWithin none .release = none) ∧
      ∃ metadata, (deserializeMetadata (singleLibs hugeBlocks) [1]).run = some (.ok metadata) ∧
        hugeBlocks ∈ metadata.fileInfos ∧
        hugeBlocks.verifySelfWithin (some (2 ^ 47)) .release = none := by
  refine ⟨rfl, rfl, ?_, ?_⟩
  · obtain ⟨metadata, hrun, hinfos⟩ := deserializeMetadata_single tinyBlocks
    exact ⟨metadata, hrun, by rw [hinfos]; exact List.mem_cons_self, by decide +kernel,
      by decide +kernel⟩
  · obtain ⟨metadata, hrun, hinfos⟩ := deserializeMetadata_single hugeBlocks
    exact ⟨metadata, hrun, by rw [hinfos]; exact List.mem_cons_self,
      verifySelfWithin_hugeBlocks (by decide) _⟩

end CryptPilot.Verity
