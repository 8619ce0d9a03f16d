import CryptPilot.VerityGo.Metadata
import Mathlib.Data.Set.List

/-!
# Metadata that crosses languages

What Rust writes, Go reads, and every entry passes its self-check. The other way there are entries
that Go makes and Rust does not read: the Rust reader copies every root hash into 32 bytes, so it
panics on an entry with SHA-512; its strings are UTF-8; and it rebuilds the root hash with a hasher
of eight levels. `metadata_interop` says exactly which entries cross.
-/

namespace CryptPilot.VerityGo

open CryptPilot.Data
open CryptPilot.VerityCore (Bytes InnerHashAlgorithm Output Profile IsPowerOfTwo maxSaltSize)
open CryptPilot.Verity (utf8)

variable {C : Crypto}

/-! ## Counterparts -/

/-- A record of the Rust crate, in Go. -/
def ofInfo (info : VerityFuse.FileVerityInfo C.sha256) : FileVerityInfo where
  path := utf8 info.path
  descriptor := ofDescriptor (C := C) (a := .sha256) info.descriptor
  merkleTree := ofTree (C := C) (a := .sha256) info.merkleTree
  descriptorHash := utf8 info.descriptorHash

/-- The two maps hold the same labels. -/
def SameLabels (rust : Verity.Labels) (labels : Labels) : Prop :=
  ∀ key value, labels[key]? = some value ↔
    ∃ k v, utf8 k = key ∧ utf8 v = value ∧ rust[k]? = some v

theorem fileInfoTable_ofInfo (info : VerityFuse.FileVerityInfo C.sha256) :
    fileInfoTable (ofInfo info) = ofFileInfo (Verity.fileInfoTable info) := by
  have hlevel1 : (ofInfo info).merkleTree.level1AsBytes = info.merkleTree.level1AsBytes :=
    (List.flatMap_def ..).symm
  rw [fileInfoTable, hlevel1]
  rfl

/-- A label in a table. -/
def encodeLabel (label : String × String) : Bytes × Bytes := (utf8 label.1, utf8 label.2)

theorem map_fst_encodeLabel (entries : List (String × String)) :
    (entries.map encodeLabel).map Prod.fst = (entries.map Prod.fst).map utf8 := by
  rw [List.map_map, List.map_map]
  rfl

/-- Maps with the same entries hold the same labels. -/
theorem sameLabels_of_entries {rust : Verity.Labels} {labels : Labels}
    {entries : List (String × String)} (hrust : ∀ k v, rust[k]? = some v ↔ (k, v) ∈ entries)
    (hgo : ∀ key value, labels[key]? = some value ↔ (key, value) ∈ entries.map encodeLabel) :
    SameLabels rust labels := by
  intro key value
  rw [hgo, List.mem_map]
  constructor
  · rintro ⟨⟨k, v⟩, hmem, heq⟩
    obtain ⟨hkey, hvalue⟩ := Prod.mk.inj heq
    exact ⟨k, v, hkey, hvalue, (hrust k v).mpr hmem⟩
  · rintro ⟨k, v, rfl, rfl, hkv⟩
    exact ⟨(k, v), (hrust k v).mp hkv, rfl⟩

/-! ## Entries -/

/-- An entry that was made with the Go hasher: any of the two algorithms, any admissible salt and
block size (a positive `int`), any data. -/
structure Hashed (C : Crypto) (info : FileVerityInfo) : Prop where
  exists_run : ∃ (a : InnerHashAlgorithm) (salt : Bytes) (B : Nat) (calls : List Bytes),
    salt.length ≤ maxSaltSize ∧ IsPowerOfTwo B ∧ B < 2 ^ 63 ∧
    (ofAlgorithm a).digestSize * 2 ≤ B ∧
    FsVerityDigest.run C (ofAlgorithm a) salt B calls = some (info.descriptor, info.merkleTree)
  hash : ∃ hash, info.descriptor.toDescriptorHash C = some hash ∧
    info.descriptorHash = encodeToString hash

/-- An entry that the Rust code can read and check: its algorithm is SHA-256, its path is UTF-8, and
its hashes fit in eight levels. -/
structure Portable (info : FileVerityInfo) : Prop where
  sha256 : info.descriptor.hashAlgorithm = .hashSHA256
  path : ∃ path, info.path = utf8 path
  levels : info.merkleTree.level1.length ≤ (2 ^ info.descriptor.logBlocksize.toNat / 32) ^ 8

/-- An entry that was made with the hasher of the Rust metadata module. -/
def Measured (info : VerityFuse.FileVerityInfo C.sha256) : Prop :=
  ∃ (p : Profile) (content : Bytes) (m : Output (VerityCore.sha256 C.sha256)),
    Verity.calculateFsverityHash C.sha256 p content = some (info.descriptor, info.merkleTree) ∧
    info.descriptor.toDescriptorHash = some m ∧ info.descriptorHash = hexEncode m.toList

/-- The block size in a descriptor is `1 << log_blocksize`. -/
theorem two_pow_logBlocksize (H : VerityCore.InnerHash) (salt D : Bytes) {B : Nat}
    (hpow : IsPowerOfTwo B) : 2 ^ (VerityCore.descriptorOf H salt B D).logBlocksize.toNat = B := by
  rw [VerityCore.FsVerityDigest.toNat_logBlocksize hpow]
  obtain ⟨k, -, rfl⟩ := hpow
  rw [Nat.log2_two_pow]

/-- What Go hashed, as Rust would have it. -/
theorem Hashed.eq_ofDescriptor {info : FileVerityInfo} (hi : Hashed C info) :
    ∃ (a : InnerHashAlgorithm) (salt : Bytes) (B : Nat) (D : Bytes),
      salt.length ≤ maxSaltSize ∧ IsPowerOfTwo B ∧ (innerHash C a).outputSize * 2 ≤ B ∧
      info.descriptor = ofDescriptor (VerityCore.descriptorOf (innerHash C a) salt B D) ∧
      info.merkleTree = ofTree ⟨VerityCore.merkleLevel1 (innerHash C a) salt B D⟩ := by
  obtain ⟨a, salt, B, calls, hsalt, hpow, -, htwo, hrun⟩ := hi.exists_run
  rw [digestSize_ofAlgorithm C] at htwo
  rw [run_eq hsalt hpow htwo] at hrun
  obtain ⟨hdesc, htree⟩ := Prod.mk.inj (Option.some.inj hrun)
  exact ⟨a, salt, B, calls.flatten, hsalt, hpow, htwo, hdesc.symm, htree.symm⟩

/-- A portable entry is the counterpart of one that passes the self-check in Rust. -/
theorem Hashed.exists_rust {info : FileVerityInfo} (hi : Hashed C info) (hp : Portable info) :
    ∃ rust : VerityFuse.FileVerityInfo C.sha256,
      ofInfo rust = info ∧ rust.verifySelf .release = some (.ok ()) := by
  obtain ⟨a, salt, B, D, hsalt, hpow, htwo, hdesc, htree⟩ := hi.eq_ofDescriptor
  obtain ⟨hash, hhash, hhex⟩ := hi.hash
  obtain ⟨path, hpath⟩ := hp.path
  have hlevels := hp.levels
  have hsha := hp.sha256
  rw [hdesc] at hsha hlevels hhash
  rw [htree] at hlevels
  cases a with
  | sha512 => cases hsha
  | sha256 =>
    have hd := outputSize_innerHash C .sha256
    obtain ⟨m, hm⟩ := VerityCore.toDescriptorHash_descriptorOf hd hsalt B D
    have hgo := toDescriptorHash_simulates rfl hm
    rw [hhash, Option.some.injEq] at hgo
    subst hgo
    have hB : 2 ^ (ofDescriptor
        (VerityCore.descriptorOf (innerHash C .sha256) salt B D)).logBlocksize.toNat = B :=
      two_pow_logBlocksize (innerHash C .sha256) salt D hpow
    rw [hB, ofTree, List.length_map] at hlevels
    have hrebuild := VerityCore.MerkleTree.rebuildRootHash_eq_some hd
      ⟨VerityCore.merkleLevel1 (innerHash C .sha256) salt B D⟩ hsalt hpow htwo hlevels (Or.inl rfl)
    refine ⟨⟨path, VerityCore.descriptorOf (innerHash C .sha256) salt B D,
      ⟨VerityCore.merkleLevel1 (innerHash C .sha256) salt B D⟩, hexEncode m.toList⟩, ?_, ?_⟩
    · obtain ⟨path', desc, tree, hash⟩ := info
      dsimp only at hpath hdesc htree hhex
      rw [hpath, hdesc, htree, hhex]
      rfl
    · exact VerityFuse.FileVerityInfo.verifySelf_ok_iff.mpr ⟨m, B, hm, rfl,
        VerityCore.FsVerityDigest.blockSize_descriptorOf hpow .release, hrebuild⟩

/-- And an entry with a counterpart that passes is portable. -/
theorem Hashed.portable {rust : VerityFuse.FileVerityInfo C.sha256} (hi : Hashed C (ofInfo rust))
    (hself : rust.verifySelf .release = some (.ok ())) : Portable (ofInfo rust) := by
  obtain ⟨a, salt, B, D, hsalt, hpow, htwo, hdesc, htree⟩ := hi.eq_ofDescriptor
  have halgo : a = .sha256 := by
    cases a with
    | sha256 => rfl
    | sha512 =>
      have hsame : ofAlgorithm .sha256 = ofAlgorithm .sha512 := congrArg MerkleTree.algo htree
      exact absurd hsame (by decide)
  subst halgo
  obtain ⟨hash, B', -, -, hB', hrebuild⟩ := VerityFuse.FileVerityInfo.verifySelf_ok_iff.mp hself
  have hlog : rust.descriptor.logBlocksize =
      (VerityCore.descriptorOf (innerHash C .sha256) salt B D).logBlocksize :=
    congrArg FsVerityDescriptor.logBlocksize hdesc
  have hBB : B' = B := by
    have hdescB : (VerityCore.descriptorOf (innerHash C .sha256) salt B D).blockSize .release =
        some B := VerityCore.FsVerityDigest.blockSize_descriptorOf hpow .release
    rw [VerityCore.FsVerityDescriptor.blockSize] at hB' hdescB
    rw [hlog, hdescB] at hB'
    exact (Option.some.inj hB').symm
  subst hBB
  refine ⟨congrArg FsVerityDescriptor.hashAlgorithm hdesc, ⟨_, rfl⟩, ?_⟩
  show (rust.merkleTree.level1.map List.Vector.toList).length ≤
    (2 ^ rust.descriptor.logBlocksize.toNat / 32) ^ 8
  rw [List.length_map, hlog, two_pow_logBlocksize _ salt D hpow]
  exact VerityCore.MerkleTree.length_level1_of_rebuildRootHash
    (VerityCore.outputSize_sha256 C.sha256) htwo hrebuild

/-- Reading back, in Go, an entry of the Rust metadata module. -/
theorem fileVerityInfo_ofInfo {info : VerityFuse.FileVerityInfo C.sha256}
    (halgo : info.descriptor.hashAlgorithm = 1) :
    (fileVerityInfo (ofFileInfo (Verity.fileInfoTable info))).run = some (.ok (ofInfo info)) := by
  have hpieces : ∀ piece ∈ (ofInfo info).merkleTree.level1, piece.length = 32 := by
    intro piece hpiece
    obtain ⟨hash, -, rfl⟩ := List.mem_map.mp hpiece
    exact hash.toList_length
  have hwhole : (ofInfo info).merkleTree.level1AsBytes.length % 32 = 0 := by
    rw [MerkleTree.level1AsBytes, List.length_flatten, List.map_congr_left hpieces]
    simp
  have hcut := chunks_flatten (by decide : 0 < 32) hpieces
  rw [← fileInfoTable_ofInfo]
  obtain ⟨path, ⟨version, algo, log, size, root, salt⟩, tree, hash⟩ := info
  subst halgo
  show (if (ofInfo _).merkleTree.level1AsBytes.length % 32 ≠ 0 then _ else _ :
    ExceptT MetadataError Option FileVerityInfo).run = _
  rw [if_neg (not_not.mpr hwhole)]
  exact congrArg (fun level1 => some (Except.ok (FileVerityInfo.mk _ _ ⟨level1, _⟩ _))) hcut

/-- An entry of the Rust metadata module passes the self-check in Go. -/
theorem verifySelf_ofInfo {info : VerityFuse.FileVerityInfo C.sha256} (hi : Measured info) :
    ((ofInfo info).verifySelf C).run = some (.ok ()) := by
  obtain ⟨p, content, m, hrun, hm, hhash⟩ := hi
  have hd := VerityCore.outputSize_sha256 C.sha256
  have hself := VerityFuse.FileVerityInfo.verifySelf_genuine hrun hm hhash (Or.inl rfl)
  obtain ⟨hash, B, hm', hhex, hB, hrebuild⟩ :=
    VerityFuse.FileVerityInfo.verifySelf_ok_iff.mp hself
  obtain ⟨-, hr⟩ := VerityCore.FsVerityDigest.run_inv hd hrun
  obtain ⟨hdesc, -⟩ := Prod.mk.inj hr
  have halgo : info.descriptor.hashAlgorithm = InnerHashAlgorithm.sha256.toU8 := by
    rw [hdesc]
    rfl
  have hlog : info.descriptor.logBlocksize = 12 := by
    rw [hdesc]
    rfl
  have hB' : B = 4096 := by
    rw [VerityCore.FsVerityDescriptor.blockSize, hlog] at hB
    exact (Option.some.inj hB).symm
  have hsize : (ofInfo info).descriptor.blockSize.toNat = B := by
    show (FsVerityDescriptor.blockSize ⟨_, _, info.descriptor.logBlocksize, _, _, _⟩).toNat = B
    rw [hlog, hB']
    rfl
  have hgoHash : (ofInfo info).descriptor.toDescriptorHash C = some hash.toList :=
    toDescriptorHash_simulates halgo hm'
  have hgoRoot : (ofInfo info).merkleTree.rebuildRootHash C (ofInfo info).descriptor.salt B =
      some (ofInfo info).descriptor.rootHash :=
    rebuildRootHash_simulates hrebuild
  have hcalc : encodeToString hash.toList = (ofInfo info).descriptorHash := congrArg utf8 hhex
  have hequal : MerkleTree.equalBytes (ofInfo info).descriptor.rootHash
      (ofInfo info).descriptor.rootHash = true := by
    rw [equalBytes_eq, decide_eq_true rfl]
  rw [FileVerityInfo.verifySelf, run_bind_of_ok (run_lift_some hgoHash)]
  dsimp only
  rw [if_neg (not_not.mpr hcalc), hsize, run_bind_of_ok (run_lift_some hgoRoot), hequal]
  rfl

/-! ## Buffers -/

/-- The libraries of the two languages agree on the format. Go reads what the Rust builder made, and
Rust what the Go builder made, if it is within the limits of the verifier and all strings in it are
UTF-8. -/
structure Interop (libs : Verity.Libs C.sha256) (go : Libs) (limits : Bytes → Prop) : Prop where
  go_reads : ∀ {table bytes}, libs.finish table = some bytes →
    go.getRootAsMetadata bytes = some (ofTable table)
  rust_reads : ∀ {table bytes table'}, go.finish table = some bytes →
    (libs.root bytes = .ok table' ↔ ofTable table' = table ∧ limits bytes)

/-- The Rust code accepts the buffer, every entry passes its self-check, and the entries and labels
are those given. -/
def RustReads (libs : Verity.Libs C.sha256) (bytes : Bytes) (infos : List FileVerityInfo)
    (labels : Labels) : Prop :=
  ∃ metadata, (Verity.deserializeMetadata libs bytes).run = some (.ok metadata) ∧
    (∀ info ∈ metadata.fileInfos, info.verifySelf .release = some (.ok ())) ∧
    (metadata.fileInfos.map ofInfo).Perm infos ∧ SameLabels metadata.labels labels

/-- The same for Go. -/
def GoReads (C : Crypto) (go : Libs) (bytes : Bytes)
    (infos : List (VerityFuse.FileVerityInfo C.sha256)) (labels : Verity.Labels) : Prop :=
  ∃ metadata, deserializeMetadata go bytes = .ok metadata ∧
    (∀ info ∈ metadata.fileInfos, (info.verifySelf C).run = some (.ok ())) ∧
    metadata.fileInfos.Perm (infos.map ofInfo) ∧ SameLabels labels metadata.labels

variable {libs : Verity.Libs C.sha256} {go : Libs} {limits : Bytes → Prop} {bytes : Bytes}

/-- Whatever the Rust metadata module wrote, Go reads. -/
theorem goReads_of_serializeMetadata (hlibs : Interop libs go limits)
    {infos : List (VerityFuse.FileVerityInfo C.sha256)} {labels : Verity.Labels}
    (hinfos : ∀ info ∈ infos, Measured info)
    (hbytes : Verity.serializeMetadata libs infos labels = some bytes) :
    GoReads C go bytes infos labels := by
  have hperm := libs.sortUnstable_perm infos
  have hread := hlibs.go_reads hbytes
  have hmeasured : ∀ info ∈ libs.sortUnstable infos, Measured info :=
    fun info hi => hinfos info (hperm.mem_iff.mp hi)
  have hfiles : (((libs.sortUnstable infos).map (ofFileInfo ∘ Verity.fileInfoTable)).mapM
      fileVerityInfo).run = some (.ok ((libs.sortUnstable infos).map ofInfo)) := by
    rw [List.mapM_map]
    refine run_mapM_of_ok fun info hi => fileVerityInfo_ofInfo ?_
    obtain ⟨p, content, m, hrun, -⟩ := hmeasured info hi
    obtain ⟨-, hr⟩ := VerityCore.FsVerityDigest.run_inv (VerityCore.outputSize_sha256 _) hrun
    rw [(Prod.mk.inj hr).1]
    rfl
  have hnodup : ((labels.toList.map encodeLabel).map Prod.fst).Nodup := by
    rw [map_fst_encodeLabel]
    exact (nodup_map_fst_toList labels).map fun _ _ => encodeUtf8_inj
  refine ⟨⟨(libs.sortUnstable infos).map ofInfo, (labels.toList.map encodeLabel).foldl
    (fun labels label => labels.insert label.1 label.2) ∅⟩, ?_, ?_, hperm.map _, ?_⟩
  · have hbody : (readMetadata go bytes).run = some (.ok ⟨(libs.sortUnstable infos).map ofInfo,
        (labels.toList.map encodeLabel).foldl
          (fun labels label => labels.insert label.1 label.2) ∅⟩) := by
      rw [readMetadata, run_bind_of_ok (run_lift_some hread)]
      show ((((libs.sortUnstable infos).map Verity.fileInfoTable).map ofFileInfo).mapM fileVerityInfo
        >>= _).run = _
      rw [List.map_map, run_bind_of_ok hfiles, List.foldl_map]
      show some (Except.ok (MetadataInfo.mk _ ((List.map _ (List.map _ _)).foldl _ _))) = _
      rw [List.foldl_map, List.foldl_map]
      rfl
    rw [deserializeMetadata, hbody]
    rfl
  · intro info hinfo
    obtain ⟨rust, hrust, rfl⟩ := List.mem_map.mp hinfo
    exact verifySelf_ofInfo (hmeasured rust hrust)
  · exact sameLabels_of_entries
      (fun k v => Std.ExtTreeMap.mem_toList_iff_getElem?_eq_some.symm)
      (getElem?_foldl_insert hnodup)

/-- A table that Go wrote has a counterpart if all its strings are UTF-8. -/
theorem ofTable_eq_metadataTable {sorted : List (VerityFuse.FileVerityInfo C.sha256)}
    {entries : List (String × String)} {infos : List FileVerityInfo} {labels : Labels}
    (hsorted : sorted.map ofInfo = go.sortSlice FileVerityInfo.path infos)
    (hentries : entries.map encodeLabel = labels.toList) :
    ofTable ⟨1, some (sorted.map Verity.fileInfoTable),
        if labels.isEmpty then none
        else some (entries.map fun (key, value) => ⟨some key, some value⟩)⟩ =
      metadataTable go infos labels := by
  have hfiles : (sorted.map Verity.fileInfoTable).map ofFileInfo =
      (go.sortSlice FileVerityInfo.path infos).map fileInfoTable := by
    rw [← hsorted, List.map_map, List.map_map]
    exact List.map_congr_left fun info _ => (fileInfoTable_ofInfo info).symm
  rw [ofTable, metadataTable, ← hentries, Option.map_some, hfiles]
  split
  · rfl
  · simp [ofKeyValue, encodeLabel, Function.comp_def]

/-- What Go wrote is read in Rust if it is within the limits of the verifier and portable. -/
theorem rustReads_of_portable (hlibs : Interop libs go limits) {infos : List FileVerityInfo}
    {labels : Labels} (hinfos : ∀ info ∈ infos, Hashed C info)
    (hbytes : serializeMetadata go infos labels = some bytes) (hlimits : limits bytes)
    (hportable : ∀ info ∈ infos, Portable info)
    (htext : ∀ label ∈ labels.toList, ∃ text, encodeLabel text = label) :
    RustReads libs bytes infos labels := by
  have hperm := go.sortSlice_perm FileVerityInfo.path infos
  -- the counterparts of the entries and of the labels, in the order of the table
  have hcounterparts : go.sortSlice FileVerityInfo.path infos ∈ Set.range
      (List.map fun rust : { rust : VerityFuse.FileVerityInfo C.sha256 //
        rust.verifySelf .release = some (.ok ()) } => ofInfo rust.1) := by
    rw [Set.range_list_map]
    intro info hinfo
    have hmem := hperm.mem_iff.mp hinfo
    obtain ⟨rust, rfl, hself⟩ := (hinfos info hmem).exists_rust (hportable info hmem)
    exact ⟨⟨rust, hself⟩, rfl⟩
  obtain ⟨sorted, hsorted⟩ := hcounterparts
  have hlabels : labels.toList ∈ Set.range (List.map encodeLabel) := by
    rw [Set.range_list_map]
    exact htext
  obtain ⟨entries, hentries⟩ := hlabels
  have hinfosEq : (sorted.map Subtype.val).map ofInfo = go.sortSlice FileVerityInfo.path infos := by
    rw [List.map_map]
    exact hsorted
  have hroot := (hlibs.rust_reads hbytes).mpr
    ⟨ofTable_eq_metadataTable hinfosEq hentries, hlimits⟩
  have hnone : (if labels.isEmpty then none
      else some (entries.map fun (key, value) => (⟨some key, some value⟩ : Verity.KeyValueTable))).getD
        [] = entries.map fun (key, value) => ⟨some key, some value⟩ := by
    split
    · next hempty =>
      rw [Std.ExtTreeMap.toList_eq_nil_iff.mpr (Std.ExtTreeMap.isEmpty_iff.mp hempty)] at hentries
      rw [List.map_eq_nil_iff.mp hentries]
      rfl
    · rfl
  have hnodup : (entries.map Prod.fst).Nodup := by
    have hkeys := nodup_map_fst_toList labels
    rw [← hentries, map_fst_encodeLabel] at hkeys
    exact hkeys.of_map utf8
  refine ⟨_, Verity.deserializeMetadata_of_table hroot rfl rfl hnone, ?_, ?_, ?_⟩
  · intro rust hrust
    obtain ⟨⟨rust, hself⟩, -, rfl⟩ := List.mem_map.mp hrust
    exact hself
  · rw [hinfosEq]
    exact hperm
  · refine sameLabels_of_entries (getElem?_foldl_insert hnodup) fun key value => ?_
    rw [hentries]
    exact Std.ExtTreeMap.mem_toList_iff_getElem?_eq_some.symm

/-- And what is read is within the limits, and portable. -/
theorem portable_of_rustReads (hlibs : Interop libs go limits) {infos : List FileVerityInfo}
    {labels : Labels} (hinfos : ∀ info ∈ infos, Hashed C info)
    (hbytes : serializeMetadata go infos labels = some bytes)
    (hreads : RustReads libs bytes infos labels) :
    limits bytes ∧ (∀ info ∈ infos, Portable info) ∧
      ∀ label ∈ labels.toList, ∃ text, encodeLabel text = label := by
  obtain ⟨metadata, hmetadata, hself, hperm, hlabels⟩ := hreads
  obtain ⟨table, hroot, -⟩ := Verity.deserializeMetadata_eq_ok hmetadata
  refine ⟨((hlibs.rust_reads hbytes).mp hroot).2, ?_, ?_⟩
  · intro info hinfo
    obtain ⟨rust, hrust, rfl⟩ := List.mem_map.mp (hperm.mem_iff.mpr hinfo)
    exact (hinfos _ hinfo).portable (hself rust hrust)
  · rintro ⟨key, value⟩ hlabel
    obtain ⟨k, v, rfl, rfl, -⟩ :=
      (hlabels key value).mp (Std.ExtTreeMap.mem_toList_iff_getElem?_eq_some.mp hlabel)
    exact ⟨(k, v), rfl⟩

/-- **Metadata across languages.** What the Go package writes is read in Rust, with entries that
pass their self-check and with the same contents, exactly if the buffer is within the limits of the
Rust verifier, every entry is portable, and the labels are UTF-8. What the Rust metadata module
writes is always read in Go. -/
theorem metadata_interop (hlibs : Interop libs go limits) :
    (∀ (infos : List FileVerityInfo) (labels : Labels) (bytes : Bytes),
      (∀ info ∈ infos, Hashed C info) → serializeMetadata go infos labels = some bytes →
      (RustReads libs bytes infos labels ↔
        limits bytes ∧ (∀ info ∈ infos, Portable info) ∧
          ∀ label ∈ labels.toList, ∃ text, encodeLabel text = label)) ∧
    ∀ (infos : List (VerityFuse.FileVerityInfo C.sha256)) (labels : Verity.Labels) (bytes : Bytes),
      (∀ info ∈ infos, Measured info) → Verity.serializeMetadata libs infos labels = some bytes →
      GoReads C go bytes infos labels := by
  constructor
  · intro infos labels bytes hinfos hbytes
    constructor
    · exact portable_of_rustReads hlibs hinfos hbytes
    · rintro ⟨hlimits, hportable, htext⟩
      exact rustReads_of_portable hlibs hinfos hbytes hlimits hportable htext
  · intro infos labels bytes hinfos hbytes
    exact goReads_of_serializeMetadata hlibs hinfos hbytes

/-! ## Buffers for examples -/

theorem utf8_injective : Function.Injective utf8 := fun _ _ => encodeUtf8_inj

theorem ofTable_injective : Function.Injective ofTable := by
  have hfile : Function.Injective ofFileInfo := by
    intro t t' heq
    obtain ⟨hpath, hdesc, hlevel1, hhash⟩ := FileInfoTable.mk.inj heq
    cases t
    cases t'
    simp_all [Option.map_inj_right utf8_injective]
  have hlabel : Function.Injective ofKeyValue := by
    intro t t' heq
    obtain ⟨hkey, hvalue⟩ := KeyValueTable.mk.inj heq
    cases t
    cases t'
    simp_all [Option.map_inj_right utf8_injective]
  intro t t' heq
  obtain ⟨hversion, hfiles, hlabels⟩ := MetadataTable.mk.inj heq
  have hfiles' := Option.map_injective (List.map_injective_iff.mpr hfile) hfiles
  have hlabels' := Option.map_injective (List.map_injective_iff.mpr hlabel) hlabels
  cases t
  cases t'
  simp_all

/-- Go libraries that can handle one table. -/
def goFor (table : Verity.MetadataTable) : Libs where
  __ := framedGo fun bytes => if bytes = [1] then some table else none
  finish table' := if table' = ofTable table then some [1] else none

theorem interop_single (table : Verity.MetadataTable) (entries : List Verity.FileHashJsonEntry) :
    Interop (C := C) (Verity.libsFor table entries) (goFor table) fun _ => True where
  go_reads := by
    intro table' bytes hfinish
    dsimp only [Verity.libsFor] at hfinish
    split at hfinish
    · next heq =>
      cases hfinish
      rw [heq]
      rfl
    · cases hfinish
  rust_reads := by
    intro table' bytes table'' hfinish
    dsimp only [goFor] at hfinish
    split at hfinish
    · next heq =>
      cases hfinish
      rw [heq, and_true, ofTable_injective.eq_iff]
      show Except.ok table = Except.ok table'' ↔ _
      rw [Except.ok.injEq, eq_comm]
    · cases hfinish

/-- What `SerializeMetadata` makes of one entry. -/
theorem serializeMetadata_goFor {table : Verity.MetadataTable} {info : FileVerityInfo}
    (htable : ofTable table = ⟨1, some [fileInfoTable info], none⟩) :
    serializeMetadata (goFor table) [info] ∅ = some [1] := by
  have hsort : (goFor table).sortSlice FileVerityInfo.path [info] = [info] :=
    List.mergeSort_singleton ..
  have hempty : (∅ : Labels).isEmpty = true := Std.ExtTreeMap.isEmpty_empty
  rw [serializeMetadata, metadataTable, hsort, if_pos hempty]
  exact if_pos htable.symm

/-- The entry of a descriptor with one hash. -/
def singleInfo (descriptor : FsVerityDescriptor) : FileVerityInfo where
  path := utf8 "f"
  descriptor := descriptor
  merkleTree := ⟨[descriptor.rootHash], descriptor.hashAlgorithm⟩
  descriptorHash := encodeToString ((descriptor.toDescriptorHash lengthCrypto).getD [])

/-- And its table. -/
def tableOf (descriptor : FsVerityDescriptor) : Verity.MetadataTable where
  version := 1
  files := some [{
    path := some "f"
    descriptor := (fileInfoTable (singleInfo descriptor)).descriptor
    merkleTreeLevel1 := some descriptor.rootHash
    descriptorHash := some (hexEncode ((descriptor.toDescriptorHash lengthCrypto).getD [])) }]
  labels := none

theorem ofTable_tableOf (descriptor : FsVerityDescriptor) :
    ofTable (tableOf descriptor) = ⟨1, some [fileInfoTable (singleInfo descriptor)], none⟩ := by
  simp [ofTable, tableOf, ofFileInfo, fileInfoTable, singleInfo, MerkleTree.level1AsBytes,
    encodeToString]

/-- The descriptor of three bytes, with SHA-256 in blocks of 64 bytes. -/
def sha256Descriptor : FsVerityDescriptor :=
  ⟨1, .hashSHA256, 6, 3, (lengthCrypto.sha256 ([1, 2, 3] ++ List.replicate 61 0)).toList, []⟩

/-- The same with SHA-512, in blocks of 128 bytes. -/
def sha512Descriptor : FsVerityDescriptor :=
  ⟨1, .hashSHA512, 7, 3, (lengthCrypto.sha512 ([1, 2, 3] ++ List.replicate 125 0)).toList, []⟩

theorem hash_singleInfo {descriptor : FsVerityDescriptor}
    (h : (descriptor.toDescriptorHash lengthCrypto).isSome = true) :
    ∃ hash, descriptor.toDescriptorHash lengthCrypto = some hash ∧
      (singleInfo descriptor).descriptorHash = encodeToString hash := by
  obtain ⟨hash, hhash⟩ := Option.isSome_iff_exists.mp h
  exact ⟨hash, hhash, by rw [singleInfo, hhash, Option.getD_some]⟩

theorem hashed_sha256 : Hashed lengthCrypto (singleInfo sha256Descriptor) where
  exists_run := ⟨.sha256, [], 64, [[1, 2, 3]], by decide, by decide, by decide, by decide,
    by decide +kernel⟩
  hash := hash_singleInfo (by decide +kernel)

theorem hashed_sha512 : Hashed lengthCrypto (singleInfo sha512Descriptor) where
  exists_run := ⟨.sha512, [], 128, [[1, 2, 3]], by decide, by decide, by decide, by decide,
    by decide +kernel⟩
  hash := hash_singleInfo (by decide +kernel)

theorem metadata_interop_one_file :
    RustReads (C := lengthCrypto) (Verity.libsFor (tableOf sha256Descriptor) []) [1]
        [singleInfo sha256Descriptor] ∅ ∧
      ∃ info : VerityFuse.FileVerityInfo lengthCrypto.sha256,
        GoReads lengthCrypto (goFor (Verity.singleTable info)) [1] [info] ∅ := by
  constructor
  · obtain ⟨hrust, -⟩ := metadata_interop (interop_single (C := lengthCrypto)
      (tableOf sha256Descriptor) [])
    have hhashed : ∀ info ∈ [singleInfo sha256Descriptor], Hashed lengthCrypto info :=
      List.forall_mem_singleton.mpr hashed_sha256
    have hportable : ∀ info ∈ [singleInfo sha256Descriptor], Portable info :=
      List.forall_mem_singleton.mpr ⟨rfl, ⟨"f", rfl⟩, by decide⟩
    refine (hrust _ ∅ [1] hhashed (serializeMetadata_goFor (ofTable_tableOf _))).mpr
      ⟨trivial, hportable, ?_⟩
    simp
  · obtain ⟨info, m, -, hrun, hm, hhash, -⟩ := Verity.exists_oneInfo lengthCrypto.sha256
      (by decide : ([7] : Bytes).length < 2 ^ 52)
    obtain ⟨-, hgo⟩ := metadata_interop (interop_single (C := lengthCrypto)
      (Verity.singleTable info) [⟨info.descriptorHash, info.path⟩])
    have hmeasured : ∀ i ∈ [info], Measured i :=
      List.forall_mem_singleton.mpr ⟨.release, [7], m, hrun, hm, hhash.symm⟩
    exact ⟨info, hgo [info] ∅ [1] hmeasured (Verity.serializeMetadata_single info)⟩

/-- The Rust reader panics on the buffer of an entry with SHA-512. -/
theorem deserializeMetadata_sha512 :
    Interop (C := lengthCrypto) (Verity.libsFor (tableOf sha512Descriptor) [])
        (goFor (tableOf sha512Descriptor)) (fun _ => True) ∧
      Hashed lengthCrypto (singleInfo sha512Descriptor) ∧
      serializeMetadata (goFor (tableOf sha512Descriptor)) [singleInfo sha512Descriptor] ∅ =
        some [1] ∧
      (Verity.deserializeMetadata (h := lengthCrypto.sha256)
        (Verity.libsFor (tableOf sha512Descriptor) []) [1]).run = none := by
  refine ⟨interop_single _ _, hashed_sha512, serializeMetadata_goFor (ofTable_tableOf _), ?_⟩
  rfl

end CryptPilot.VerityGo
