import CryptPilot.Data.Sorted
import CryptPilot.Verity.Commands

/-!
# A directory that verifies has the files that were formatted

The root hash pins the document of paths and descriptor hashes. So the entries of any metadata with
that root hash are those that `format` made, whatever else is in the metadata; and every one of them
was compared with a file, whose measurement pins its content. Each step may also end in a collision
of the hash, between what `format` and what `verify` hashed (`verify_sound`).
-/

namespace CryptPilot.Verity

open CryptPilot.Data CryptPilot.VerityCore CryptPilot.VerityFuse

variable {h : Bytes → List.Vector UInt8 32} {σ η σ' η' : Type} {libs : Libs h} {p p' : Profile}

/-! ## Successful steps -/

theorem liftExcept_eq_ok {α : Type} {x : Except String α} {a : α}
    (hx : (liftExcept x).run = some (.ok a)) : x = .ok a :=
  Option.some.inj hx

theorem lift_eq_ok {α : Type} {x : Option α} {a : α}
    (hx : (liftM x : ExceptT String Option α).run = some (.ok a)) : x = some a := by
  cases x with
  | none => cases hx
  | some b => cases hx; rfl

theorem required_eq_ok {α : Type} {field : Option α} {message : String} {a : α}
    (hf : required field message = .ok a) : field = some a := by
  cases field with
  | none => cases hf
  | some b => cases hf; rfl

/-- A table has the path and the descriptor hash of an entry. -/
def Names (table : FileInfoTable) (entry : FileHashJsonEntry) : Prop :=
  table.path = some entry.path ∧ table.descriptorHash = some entry.descriptorHash

theorem jsonEntry_eq_ok {table : FileInfoTable} {entry : FileHashJsonEntry}
    (he : jsonEntry table = .ok entry) : Names table entry := by
  obtain ⟨path, hpath, he⟩ := bind_eq_ok he
  obtain ⟨hash, hhash, he⟩ := bind_eq_ok he
  cases he
  exact ⟨required_eq_ok hpath, required_eq_ok hhash⟩

theorem jsonEntries_eq_ok {table : MetadataTable} {entries : List FileHashJsonEntry}
    (he : jsonEntries table = .ok entries) :
    ∃ unsorted, List.Forall₂ Names (table.files.getD []) unsorted ∧ entries.Perm unsorted := by
  obtain ⟨unsorted, hunsorted, he⟩ := bind_eq_ok he
  cases he
  exact ⟨unsorted, (mapM_eq_ok hunsorted).imp fun _ _ => jsonEntry_eq_ok,
    List.mergeSort_perm _ _⟩

theorem metadataHashDoc_eq_ok {bytes json : Bytes} (hdoc : metadataHashDoc libs bytes = .ok json) :
    ∃ table entries, libs.root bytes = .ok table ∧ jsonEntries table = .ok entries ∧
      libs.canonJson entries = .ok json := by
  obtain ⟨table, htable, hdoc⟩ := bind_eq_ok hdoc
  obtain ⟨entries, hentries, hdoc⟩ := bind_eq_ok hdoc
  exact ⟨table, entries, mapError_eq_ok htable, hentries, mapError_eq_ok hdoc⟩

theorem fileVerityInfo_eq_ok {table : FileInfoTable} {info : FileVerityInfo h}
    (hi : (fileVerityInfo table).run = some (.ok info)) :
    Names table ⟨info.descriptorHash, info.path⟩ := by
  obtain ⟨path, hpath, hi⟩ := run_bind_eq_ok hi
  obtain ⟨hash, hhash, hi⟩ := run_bind_eq_ok hi
  obtain ⟨desc, -, hi⟩ := run_bind_eq_ok hi
  obtain ⟨rootBytes, -, hi⟩ := run_bind_eq_ok hi
  obtain ⟨root, -, hi⟩ := run_bind_eq_ok hi
  dsimp only at hi
  split at hi
  · cases hi
  · obtain ⟨hashes, -, hi⟩ := run_bind_eq_ok hi
    cases hi
    exact ⟨required_eq_ok (liftExcept_eq_ok hpath), required_eq_ok (liftExcept_eq_ok hhash)⟩

theorem deserializeMetadata_eq_ok {data : Bytes} {info : MetadataInfo h}
    (hd : (deserializeMetadata libs data).run = some (.ok info)) :
    ∃ table, libs.root data = .ok table ∧
      List.Forall₂ (fun table info => Names table ⟨info.descriptorHash, info.path⟩)
        (table.files.getD []) info.fileInfos := by
  obtain ⟨table, htable, hd⟩ := run_bind_eq_ok hd
  split at hd
  · cases hd
  · obtain ⟨infos, hinfos, hd⟩ := run_bind_eq_ok hd
    obtain ⟨labels, -, hd⟩ := run_bind_eq_ok hd
    cases hd
    exact ⟨table, mapError_eq_ok (liftExcept_eq_ok htable),
      (run_mapM_eq_ok hinfos).imp fun _ _ => fileVerityInfo_eq_ok⟩

/-! ## Measured files -/

/-- `content` is measured as the digest that `hash` spells. -/
def Measures (h : Bytes → List.Vector UInt8 32) (p : Profile) (content : Bytes) (hash : String) :
    Prop :=
  ∃ r m, calculateFsverityHash h p content = some r ∧ r.1.toDescriptorHash = some m ∧
    hash = hexEncode m.toList

/-- A content has one descriptor hash. -/
theorem Measures.unique {content : Bytes} {hash hash' : String} (hm : Measures h p content hash)
    (hm' : Measures h p content hash') : hash = hash' := by
  obtain ⟨r, m, hr, hm, rfl⟩ := hm
  obtain ⟨r', m', hr', hm', rfl⟩ := hm'
  obtain rfl : r = r' := Option.some.inj (hr.symm.trans hr')
  obtain rfl : m = m' := Option.some.inj (hm.symm.trans hm')
  rfl

/-- The record of a file is made of what its content measures. -/
theorem formatFile_inv {host : Host σ η} {s : σ} {options : FormatOptions} {file : WalkEntry}
    {info : FileVerityInfo h}
    (hf : (formatFile libs p host s options file).run = some (.ok info)) :
    ∃ content m, host.read s (join options.dataDir file.relative) = .ok content ∧
      info.path = libs.toStringLossy file.relative ∧
      calculateFsverityHash h p content = some (info.descriptor, info.merkleTree) ∧
      info.descriptor.toDescriptorHash = some m ∧ info.descriptorHash = hexEncode m.toList := by
  obtain ⟨content, hcontent, hf⟩ := run_bind_eq_ok hf
  obtain ⟨⟨descriptor, merkleTree⟩, hr, hf⟩ := run_bind_eq_ok hf
  obtain ⟨m, hm, hf⟩ := run_bind_eq_ok hf
  cases hf
  exact ⟨content, m, liftExcept_eq_ok hcontent, rfl, lift_eq_ok hr, lift_eq_ok hm, rfl⟩

theorem formatFile_eq_ok {host : Host σ η} {s : σ} {options : FormatOptions} {file : WalkEntry}
    {info : FileVerityInfo h}
    (hf : (formatFile libs p host s options file).run = some (.ok info)) :
    ∃ content, host.read s (join options.dataDir file.relative) = .ok content ∧
      info.path = libs.toStringLossy file.relative ∧ Measures h p content info.descriptorHash := by
  obtain ⟨content, m, hcontent, hpath, hr, hm, hhash⟩ := formatFile_inv hf
  exact ⟨content, hcontent, hpath, _, m, hr, hm, hhash⟩

/-- The content of a file as `verify` reads it. -/
def Host.content (host : Host σ η) (s : σ) (path : PathBuf) : Except String Bytes := do
  host.mmap s (← host.openFile s path)

theorem verifyFile_eq_ok {host : Host σ η} {s : σ} {options : VerifyOptions}
    {info : FileVerityInfo h}
    (hv : (verifyFile libs p host s options info).run = some (.ok ())) :
    ∃ content, host.content s (options.filePath info.path) = .ok content ∧
      Measures h p content info.descriptorHash := by
  obtain ⟨file, hfile, hv⟩ := run_bind_eq_ok hv
  obtain ⟨content, hcontent, hv⟩ := run_bind_eq_ok hv
  obtain ⟨r, hr, hv⟩ := run_bind_eq_ok hv
  obtain ⟨m, hm, hv⟩ := run_bind_eq_ok hv
  dsimp only at hv
  split at hv
  · cases hv
  · next heq =>
    refine ⟨content, ?_, r, m, lift_eq_ok hr, lift_eq_ok hm, (not_not.mp heq).symm⟩
    rw [Host.content, mapError_eq_ok (liftExcept_eq_ok hfile), ok_bind, liftExcept_eq_ok hcontent]

/-- Files with one measurement are equal, or what was hashed to measure them collides. A file that
is too large for its length to be recorded is not measured: the hasher runs out of levels. -/
theorem Measures.binds {D D' : Bytes} {hash : String} (hD : Measures h p D hash)
    (hD' : Measures h p' D' hash) :
    D = D' ∨ Collides h (measureInputs (sha256 h) [] defaultBlockSize D)
      (measureInputs (sha256 h) [] defaultBlockSize D') := by
  have hd := outputSize_sha256 h
  obtain ⟨r, m, hr, hm, rfl⟩ := hD
  obtain ⟨r', m', hr', hm', hhex⟩ := hD'
  have hsame : m = m' := List.Vector.toList_injective (hexEncode_inj hhex)
  subst hsame
  have hlength : ∀ cfg : FsVerityConfig (sha256 h), cfg.blockSize = defaultBlockSize →
      FsVerityDigest.capacity cfg < 2 ^ 64 := by
    intro cfg hcfg
    rw [FsVerityDigest.capacity, FsVerityConfig.fanout, hcfg]
    show 4096 * (4096 / 32) ^ 7 < 2 ^ 64
    decide
  obtain ⟨⟨cfg, hB, -, hcap⟩, rfl⟩ := FsVerityDigest.run_inv hd hr
  obtain ⟨⟨cfg', hB', -, hcap'⟩, rfl⟩ := FsVerityDigest.run_inv hd hr'
  rw [List.flatten_singleton] at *
  rcases measure_binding_of_hash hd (by decide) (by decide)
    (show 32 * 2 ≤ 4096 by decide)
    (Nat.lt_of_le_of_lt hcap (hlength cfg hB)) (Nat.lt_of_le_of_lt hcap' (hlength cfg' hB'))
    hm hm' with ⟨-, -, heq⟩ | hcol
  · exact Or.inl heq
  · exact Or.inr hcol

/-! ## The commands -/

theorem calculateMetadataHash_eq_ok {bytes : Bytes} {hash : String}
    (hc : calculateMetadataHash libs bytes = .ok hash) :
    ∃ json, metadataHashDoc libs bytes = .ok json ∧ hash = hexEncode (h json).toList := by
  obtain ⟨json, hjson, hc⟩ := bind_eq_ok hc
  cases hc
  exact ⟨json, hjson, rfl⟩

/-- Where `format` writes the metadata. -/
def FormatOptions.metadataPath (options : FormatOptions) : PathBuf :=
  options.metadata.getD (join options.dataDir defaultMetadataFile)

/-- The labels that `format` records. Of several values for one key, the last one counts. -/
def FormatOptions.labelMap (options : FormatOptions) : Labels :=
  options.labels.foldl (fun labels (key, value) => labels.insert key value) ∅

/-- What `format` did when it returned. -/
theorem format_inv {host : Host σ η} {s : σ} {options : FormatOptions} {out : FormatOutput σ}
    (hf : (format libs p host s options).run = some (.ok out)) :
    ∃ infos s₁,
      List.Forall₂ (fun file info => (formatFile libs p host s options file).run = some (.ok info))
        (recordedFiles host s options) infos ∧
      serializeMetadata libs infos options.labelMap = some out.metadata ∧
      host.write s options.metadataPath out.metadata = .ok s₁ ∧
      calculateMetadataHash libs out.metadata = .ok out.rootHash ∧
      (options.hashOutput = utf8 "-" ∧ out.state = s₁ ∨
        options.hashOutput ≠ utf8 "-" ∧
          host.write s₁ options.hashOutput (utf8 out.rootHash) = .ok out.state) := by
  unfold format at hf
  dsimp only at hf
  split at hf
  · cases hf
  · obtain ⟨infos, hinfos, hf⟩ := run_bind_eq_ok hf
    obtain ⟨fb, hfb, hf⟩ := run_bind_eq_ok hf
    obtain ⟨s₁, hs₁, hf⟩ := run_bind_eq_ok hf
    obtain ⟨rootHash, hroot, hf⟩ := run_bind_eq_ok hf
    split at hf
    · next hprint =>
      cases hf
      exact ⟨infos, s₁, run_mapM_eq_ok hinfos, lift_eq_ok hfb, liftExcept_eq_ok hs₁,
        liftExcept_eq_ok hroot, Or.inl ⟨hprint, rfl⟩⟩
    · next hprint =>
      obtain ⟨s₂, hs₂, hf⟩ := run_bind_eq_ok hf
      cases hf
      exact ⟨infos, s₁, run_mapM_eq_ok hinfos, lift_eq_ok hfb, liftExcept_eq_ok hs₁,
        liftExcept_eq_ok hroot, Or.inr ⟨hprint, liftExcept_eq_ok hs₂⟩⟩

/-- A formatted file is recorded in the metadata, with its path and its measurement. -/
theorem format_eq_ok {host : Host σ η} {s : σ} {options : FormatOptions} {out : FormatOutput σ}
    (hf : (format libs p host s options).run = some (.ok out)) :
    calculateMetadataHash libs out.metadata = .ok out.rootHash ∧
      ∀ file ∈ recordedFiles host s options, ∃ content hash,
        host.read s (join options.dataDir file.relative) = .ok content ∧
        Measures h p content hash ∧
        ∀ table, libs.root out.metadata = .ok table →
          ∃ t ∈ table.files.getD [], Names t ⟨hash, libs.toStringLossy file.relative⟩ := by
  obtain ⟨infos, s₁, hinfos, hfb, -, hroot, -⟩ := format_inv hf
  refine ⟨hroot, fun file hfile => ?_⟩
  obtain ⟨info, hinfo, hrecord⟩ := exists_mem_of_forall₂ hinfos hfile
  obtain ⟨content, hcontent, hpath, hmeasure⟩ := formatFile_eq_ok hrecord
  refine ⟨content, info.descriptorHash, hcontent, hmeasure, fun table htable => ?_⟩
  rw [libs.root_finish hfb htable, ← hpath]
  exact ⟨fileInfoTable info,
    List.mem_map_of_mem ((libs.sortUnstable_perm infos).mem_iff.mpr hinfo), rfl, rfl⟩

theorem verify_eq_ok {host : Host σ η} {s : σ} {options : VerifyOptions}
    (hv : (verify libs p host s options).run = some (.ok ()))
    (hfull : options.metadataOnly = false) :
    ∃ bytes info, host.read s options.metadataPath = .ok bytes ∧
      calculateMetadataHash libs bytes = .ok options.hash ∧
      (deserializeMetadata libs bytes).run = some (.ok info) ∧
      ∀ i ∈ info.fileInfos, ∃ content, host.content s (options.filePath i.path) = .ok content ∧
        Measures h p content i.descriptorHash := by
  obtain ⟨bytes, hbytes, hv⟩ := run_bind_eq_ok hv
  obtain ⟨rootHash, hroot, hv⟩ := run_bind_eq_ok hv
  split at hv
  · cases hv
  · next heq =>
    obtain ⟨info, hinfo, hv⟩ := run_bind_eq_ok hv
    obtain ⟨_, -, hv⟩ := run_bind_eq_ok hv
    rw [hfull] at hv
    refine ⟨bytes, info, liftExcept_eq_ok hbytes, ?_, hinfo, ?_⟩
    · rw [liftExcept_eq_ok hroot, not_not.mp heq]
    · intro i hi
      exact verifyFile_eq_ok (run_forM_eq_ok hv i hi)

/-! ## Soundness -/

/-- What is hashed for given metadata and the contents of files: the document behind the root hash,
and what is hashed to measure the files. -/
def hashInputs (libs : Libs h) (metadata : Bytes) (contents : List Bytes) : List Bytes :=
  (metadataHashDoc libs metadata).toOption.toList ++
    contents.flatMap (measureInputs (sha256 h) [] defaultBlockSize)

/-- The contents that `format` measures. -/
def formatContents (host : Host σ η) (s : σ) (options : FormatOptions) : List Bytes :=
  (recordedFiles host s options).filterMap fun file =>
    (host.read s (join options.dataDir file.relative)).toOption

/-- The contents that `verify` finds under given paths. -/
def verifyContents (host : Host σ η) (s : σ) (options : VerifyOptions) (paths : List String) :
    List Bytes :=
  paths.filterMap fun path => (host.content s (options.filePath path)).toOption

theorem measureInputs_subset_hashInputs (metadata : Bytes) {contents : List Bytes} {content : Bytes}
    (hc : content ∈ contents) :
    measureInputs (sha256 h) [] defaultBlockSize content ⊆ hashInputs libs metadata contents :=
  fun _ hx => List.mem_append_right _ (List.mem_flatMap.mpr ⟨content, hc, hx⟩)

/-- Documents with one root hash have the same entries, or they collide. -/
theorem entries_of_rootHash {fb M : Bytes} {rootHash : String}
    (hfb : calculateMetadataHash libs fb = .ok rootHash)
    (hM : calculateMetadataHash libs M = .ok rootHash) :
    (∃ table table' entries, libs.root fb = .ok table ∧ libs.root M = .ok table' ∧
        jsonEntries table = .ok entries ∧ jsonEntries table' = .ok entries) ∨
      Collides h (metadataHashDoc libs fb).toOption.toList
        (metadataHashDoc libs M).toOption.toList := by
  obtain ⟨json, hjson, rfl⟩ := calculateMetadataHash_eq_ok hfb
  obtain ⟨json', hjson', hhex⟩ := calculateMetadataHash_eq_ok hM
  have hhash : h json = h json' := List.Vector.toList_injective (hexEncode_inj hhex)
  have hmem : json ∈ (metadataHashDoc libs fb).toOption.toList := by simp [hjson, Except.toOption]
  have hmem' : json' ∈ (metadataHashDoc libs M).toOption.toList := by
    simp [hjson', Except.toOption]
  rcases eq_or_collides hmem hmem' hhash with rfl | hcol
  · obtain ⟨table, entries, htable, hentries, henc⟩ := metadataHashDoc_eq_ok hjson
    obtain ⟨table', entries', htable', hentries', henc'⟩ := metadataHashDoc_eq_ok hjson'
    rw [libs.canonJson_inj henc' henc] at hentries'
    exact Or.inl ⟨table, table', entries, htable, htable', hentries, hentries'⟩
  · exact Or.inr hcol

/-- Tables with the same entries name the same files. -/
theorem names_of_entries {table table' : MetadataTable} {entries : List FileHashJsonEntry}
    (he : jsonEntries table = .ok entries) (he' : jsonEntries table' = .ok entries)
    {t : FileInfoTable} (ht : t ∈ table.files.getD []) {entry : FileHashJsonEntry}
    (hnames : Names t entry) : ∃ t' ∈ table'.files.getD [], Names t' entry := by
  obtain ⟨unsorted, hall, hperm⟩ := jsonEntries_eq_ok he
  obtain ⟨unsorted', hall', hperm'⟩ := jsonEntries_eq_ok he'
  obtain ⟨e, hmem, hpath, hhash⟩ := exists_mem_of_forall₂ hall ht
  have hsame : e = entry := by
    cases e
    cases entry
    simp_all [Names]
  subst hsame
  have hmem' := hperm'.mem_iff.mp (hperm.mem_iff.mpr hmem)
  exact exists_mem_of_forall₂ hall'.flip hmem'

/-- **Soundness of `verify`.** If `format` made a root hash, and `verify` with that root hash
accepts a directory under whatever metadata it finds, then every file that was recorded is there
with the content that was formatted; or two different strings, one hashed by each command, have one
digest. -/
theorem verify_sound {host : Host σ η} {host' : Host σ' η'} {s : σ} {s' : σ'}
    {options : FormatOptions} {options' : VerifyOptions} {out : FormatOutput σ}
    (hformat : (format libs p host s options).run = some (.ok out))
    (hverify : (verify libs p' host' s' options').run = some (.ok ()))
    (hhash : options'.hash = out.rootHash) (hfull : options'.metadataOnly = false) :
    (∀ file ∈ recordedFiles host s options, ∃ content,
        host.read s (join options.dataDir file.relative) = .ok content ∧
        host'.content s' (options'.filePath (libs.toStringLossy file.relative)) = .ok content) ∨
      ∃ M, host'.read s' options'.metadataPath = .ok M ∧
        Collides h (hashInputs libs out.metadata (formatContents host s options))
          (hashInputs libs M (verifyContents host' s' options'
            ((recordedFiles host s options).map fun file =>
              libs.toStringLossy file.relative))) := by
  obtain ⟨hroot, hrecorded⟩ := format_eq_ok hformat
  obtain ⟨M, info, hM, hroot', hinfo, hfiles⟩ := verify_eq_ok hverify hfull
  rw [hhash] at hroot'
  rcases entries_of_rootHash hroot hroot' with ⟨table, table', entries, ht, ht', he, he'⟩ | hcol
  · refine or_iff_not_imp_right.mpr fun hcol file hfile => ?_
    obtain ⟨content, hash, hcontent, hmeasure, htable⟩ := hrecorded file hfile
    -- the file is named in the metadata that was verified
    obtain ⟨t, hmem, hnames⟩ := htable table ht
    obtain ⟨t', hmem', hnames'⟩ := names_of_entries he he' hmem hnames
    obtain ⟨table'', ht'', hall⟩ := deserializeMetadata_eq_ok hinfo
    have htables : table'' = table' := by
      rw [ht'] at ht''
      exact (Except.ok.inj ht'').symm
    subst htables
    obtain ⟨i, hi, hpath, hhash'⟩ := exists_mem_of_forall₂ hall hmem'
    have hipath : i.path = libs.toStringLossy file.relative :=
      Option.some.inj (hpath.symm.trans hnames'.1)
    have hihash : i.descriptorHash = hash := Option.some.inj (hhash'.symm.trans hnames'.2)
    -- so it was measured, with the same result
    obtain ⟨content', hcontent', hmeasure'⟩ := hfiles i hi
    rw [hipath] at hcontent'
    rw [hihash] at hmeasure'
    rcases hmeasure.binds hmeasure' with rfl | hfilecol
    · exact ⟨content, hcontent, hcontent'⟩
    · refine absurd ⟨M, hM, hfilecol.mono (measureInputs_subset_hashInputs _ ?_)
        (measureInputs_subset_hashInputs _ ?_)⟩ hcol
      · exact List.mem_filterMap.mpr ⟨file, hfile, by rw [hcontent]; rfl⟩
      · exact List.mem_filterMap.mpr ⟨libs.toStringLossy file.relative, List.mem_map_of_mem hfile,
          by rw [hcontent']; rfl⟩
  · exact Or.inr ⟨M, hM, hcol.mono (List.subset_append_left _ _) (List.subset_append_left _ _)⟩

/-! ## Checks that pass -/

section
variable {host : Host σ η} {s : σ}

theorem verifyFile_of_measures {options : VerifyOptions} {info : FileVerityInfo h} {content : Bytes}
    (hcontent : host.content s (options.filePath info.path) = .ok content)
    (hmeasure : Measures h p content info.descriptorHash) :
    (verifyFile libs p host s options info).run = some (.ok ()) := by
  obtain ⟨file, hfile, hmap⟩ := bind_eq_ok hcontent
  obtain ⟨r, m, hr, hm, hhash⟩ := hmeasure
  have hopen : (host.openFile s (options.filePath info.path)).mapError
      (fun e => "Failed to open file " ++ libs.debug (options.filePath info.path) ++ ": " ++ e) =
        .ok file := by
    rw [hfile, mapError_ok]
  rw [verifyFile, run_bind_of_ok (run_liftExcept_ok hopen), run_bind_of_ok (run_liftExcept_ok hmap),
    run_bind_of_ok (run_lift_some hr)]
  dsimp only
  rw [run_bind_of_ok (run_lift_some hm), if_neg (not_not.mpr hhash.symm)]
  rfl

theorem verify_of_ok {options : VerifyOptions} {bytes : Bytes} {metadata : MetadataInfo h}
    (hfull : options.metadataOnly = false) (hread : host.read s options.metadataPath = .ok bytes)
    (hroot : calculateMetadataHash libs bytes = .ok options.hash)
    (hmetadata : (deserializeMetadata libs bytes).run = some (.ok metadata))
    (hself : ∀ info ∈ metadata.fileInfos, info.verifySelf p = some (.ok ()))
    (hfiles : ∀ info ∈ metadata.fileInfos,
      (verifyFile libs p host s options info).run = some (.ok ())) :
    (verify libs p host s options).run = some (.ok ()) := by
  have hselfs : (metadata.fileInfos.forM fun info => ExceptT.mk (info.verifySelf p)).run =
      some (.ok ()) := run_forM_of_ok hself
  rw [verify, run_bind_of_ok (run_liftExcept_ok hread), run_bind_of_ok (run_liftExcept_ok hroot),
    if_neg (not_not.mpr rfl), run_bind_of_ok hmetadata, run_bind_of_ok hselfs, hfull]
  exact run_forM_of_ok hfiles

end

/-! ## One formatted file -/

section
variable (table : MetadataTable) (entries : List FileHashJsonEntry)

/-- Libraries that can handle one table and one document. -/
def libsFor : Libs h where
  finish table' := if table' = table then some [1] else none
  root buffer := if buffer = [1] then .ok table else .error "invalid"
  root_finish := by
    intro table' buffer table'' hf hr
    split at hf
    · next heq =>
      cases hf
      rw [if_pos rfl, Except.ok.injEq] at hr
      rw [heq, hr]
    · cases hf
  canonJson entries' := if entries' = entries then .ok [2] else .error "invalid"
  canonJson_inj := by
    intro entries₁ entries₂ json hj hj'
    split at hj
    · split at hj'
      · next heq heq' => rw [heq, heq']
      · cases hj'
    · cases hj
  sortUnstable infos := infos.mergeSort fun a b => decide (a.path ≤ b.path)
  sortUnstable_perm infos := List.mergeSort_perm _ _
  sortUnstable_sorted := sortByKey_sorted FileVerityInfo.path
  toStringLossy bytes := (String.fromUTF8? ⟨bytes.toArray⟩).getD "\uFFFD"
  toStringLossy_utf8 s := by
    have hvalid : String.fromUTF8? s.toUTF8 = some s := dif_pos s.isValidUTF8
    show (String.fromUTF8? ⟨s.toUTF8.data.toList.toArray⟩).getD _ = s
    rw [Array.toArray_toList, hvalid, Option.getD_some]
  debug _ := ""

end

section
variable (info : FileVerityInfo h)

/-- The metadata of one file. -/
def singleTable : MetadataTable := ⟨1, some [fileInfoTable info], some []⟩

def singleLibs : Libs h := libsFor (singleTable info) [⟨info.descriptorHash, info.path⟩]

theorem metadataHashDoc_single : metadataHashDoc (singleLibs info) [1] = .ok [2] := by
  have hroot : (singleLibs info).root [1] = .ok (singleTable info) := by
    simp [singleLibs, libsFor]
  have hentries : jsonEntries (singleTable info) = .ok [⟨info.descriptorHash, info.path⟩] := by
    simp [jsonEntries, singleTable, jsonEntry, fileInfoTable, required]
  have hjson : (singleLibs info).canonJson [⟨info.descriptorHash, info.path⟩] = .ok [2] :=
    if_pos rfl
  rw [metadataHashDoc, hroot, mapError_ok, ok_bind, hentries, ok_bind, hjson, mapError_ok]

theorem calculateMetadataHash_single :
    calculateMetadataHash (singleLibs info) [1] = .ok (hexEncode (h [2]).toList) := by
  rw [calculateMetadataHash, metadataHashDoc_single]
  rfl

theorem serializeMetadata_single : serializeMetadata (singleLibs info) [info] ∅ = some [1] := by
  have hsort : (singleLibs info).sortUnstable [info] = [info] := List.mergeSort_singleton ..
  have hlabels : (∅ : Labels).toList = [] := by simp
  rw [serializeMetadata, hsort, hlabels]
  exact if_pos rfl

theorem deserializeMetadata_single :
    ∃ metadata, (deserializeMetadata (singleLibs info) [1]).run = some (.ok metadata) ∧
      metadata.fileInfos = [info] := by
  have hroot : (singleLibs info).root [1] = .ok (singleTable info) := by
    simp [singleLibs, libsFor]
  have hfiles : (((singleTable info).files.getD []).mapM (fileVerityInfo (h := h))).run =
      some (.ok [info]) := by
    show ([fileInfoTable info].mapM fileVerityInfo).run = _
    rw [List.mapM_cons, run_bind_of_ok (fileVerityInfo_fileInfoTable info)]
    rfl
  refine ⟨⟨[info], ∅⟩, ?_, rfl⟩
  rw [run_deserializeMetadata hroot rfl, run_bind_of_ok hfiles]
  rfl

end

/-- One byte more than a block. -/
def twoBlocks : Bytes := List.replicate 4097 7

/-- A host with a file `f` of two blocks, in a directory `d`, and metadata. -/
def oneHost : Host Unit Unit where
  metadataOk _ _ := false
  read _ path := if path = utf8 "d/f" then .ok twoBlocks else .ok [1]
  write _ _ _ := .ok ()
  walkDir _ _ := [.ok ⟨[utf8 "f"], true⟩]
  openFile _ path := if path = utf8 "d/f" then .ok () else .error "No such file"
  mmap _ _ := .ok twoBlocks

def oneFormat : FormatOptions := ⟨utf8 "d", some (utf8 "m"), utf8 "-", false, []⟩

def oneVerify (h : Bytes → List.Vector UInt8 32) : VerifyOptions :=
  ⟨utf8 "d", hexEncode (h [2]).toList, some (utf8 "m"), false⟩

/-- The record of a file. -/
theorem exists_oneInfo (h : Bytes → List.Vector UInt8 32) {content : Bytes}
    (hlen : content.length < 2 ^ 52) :
    ∃ (info : FileVerityInfo h) (m : Output (sha256 h)), info.path = "f" ∧
      calculateFsverityHash h .release content = some (info.descriptor, info.merkleTree) ∧
      info.descriptor.toDescriptorHash = some m ∧ hexEncode m.toList = info.descriptorHash ∧
      info.verifySelf .release = some (.ok ()) := by
  have hd := outputSize_sha256 h
  have hadm : Admissible (sha256 h) [] defaultBlockSize [content].flatten := by
    rw [List.flatten_singleton]
    refine ⟨by decide, by decide, show 32 * 2 ≤ 4096 by decide, ?_, ?_⟩
    · show content.length ≤ 4096 * (4096 / 32) ^ 7
      omega
    · show content.length * 4096 < 2 ^ 64
      omega
  have hrun := FsVerityDigest.run_of_admissible hd .release hadm
  obtain ⟨m, hm⟩ := toDescriptorHash_descriptorOf hd hadm.salt_le defaultBlockSize [content].flatten
  refine ⟨⟨"f", _, _, hexEncode m.toList⟩, m, rfl, hrun, hm, rfl, ?_⟩
  exact FileVerityInfo.verifySelf_genuine hrun hm rfl (Or.inl rfl)

/-- `format` on a directory with that file, if the root hash is printed. -/
theorem format_single {info : FileVerityInfo h} {m : Output (sha256 h)} {host : Host σ η} {s s₁ : σ}
    {options : FormatOptions} {content : Bytes} (hpath : info.path = "f")
    (hrun : calculateFsverityHash h .release content = some (info.descriptor, info.merkleTree))
    (hm : info.descriptor.toDescriptorHash = some m)
    (hhash : hexEncode m.toList = info.descriptorHash)
    (hguard : (host.metadataOk s options.metadataPath && !options.force) = false)
    (hfiles : recordedFiles host s options = [⟨[utf8 "f"], true⟩])
    (hread : host.read s (join options.dataDir (utf8 "f")) = .ok content)
    (hlabels : options.labels = [])
    (hwrite : host.write s options.metadataPath [1] = .ok s₁)
    (hprint : options.hashOutput = utf8 "-") :
    (format (singleLibs info) .release host s options).run =
      some (.ok ⟨s₁, [1], hexEncode (h [2]).toList⟩) := by
  have hfile : (formatFile (singleLibs info) .release host s options ⟨[utf8 "f"], true⟩).run =
      some (.ok info) := by
    have hread' : host.read s (join options.dataDir (WalkEntry.relative ⟨[utf8 "f"], true⟩)) =
        .ok content := hread
    have hlossy : (singleLibs info).toStringLossy (WalkEntry.relative ⟨[utf8 "f"], true⟩) = "f" :=
      (singleLibs info).toStringLossy_utf8 "f"
    rw [formatFile, run_bind_of_ok (run_liftExcept_ok hread'), run_bind_of_ok (run_lift_some hrun)]
    dsimp only
    rw [run_bind_of_ok (run_lift_some hm), hlossy, hhash, ← hpath]
    rfl
  have hinfos : ((recordedFiles host s options).mapM
      (formatFile (singleLibs info) .release host s options)).run = some (.ok [info]) := by
    rw [hfiles, List.mapM_cons, run_bind_of_ok hfile]
    rfl
  rw [format]
  dsimp only
  rw [if_neg (by rw [← FormatOptions.metadataPath, hguard]; decide), run_bind_of_ok hinfos, hlabels,
    hprint]
  exact (run_bind_of_ok (run_lift_some (serializeMetadata_single info))).trans
    ((run_bind_of_ok (run_liftExcept_ok hwrite)).trans
      (run_bind_of_ok (run_liftExcept_ok (calculateMetadataHash_single info))))

theorem verify_oneHost {info : FileVerityInfo h} {m : Output (sha256 h)} (hpath : info.path = "f")
    (hrun : calculateFsverityHash h .release twoBlocks = some (info.descriptor, info.merkleTree))
    (hm : info.descriptor.toDescriptorHash = some m)
    (hhash : hexEncode m.toList = info.descriptorHash)
    (hself : info.verifySelf .release = some (.ok ())) :
    (verify (singleLibs info) .release oneHost () (oneVerify h)).run = some (.ok ()) := by
  have hread : oneHost.read () (oneVerify h).metadataPath = .ok [1] := by
    have hother : utf8 "m" ≠ utf8 "d/f" := by decide +kernel
    show (if utf8 "m" = utf8 "d/f" then Except.ok twoBlocks else Except.ok [1]) = _
    rw [if_neg hother]
  have hcontent : oneHost.content () ((oneVerify h).filePath info.path) = .ok twoBlocks := by
    rw [hpath]
    rfl
  obtain ⟨metadata, hmetadata, hinfos⟩ := deserializeMetadata_single info
  refine verify_of_ok rfl hread (calculateMetadataHash_single info) hmetadata ?_ ?_ <;> rw [hinfos]
  · exact List.forall_mem_singleton.mpr hself
  · exact List.forall_mem_singleton.mpr
      (verifyFile_of_measures hcontent ⟨_, m, hrun, hm, hhash.symm⟩)

theorem length_twoBlocks : twoBlocks.length < 2 ^ 52 := by
  rw [twoBlocks, List.length_replicate]
  decide

/-- Formatted and verified in place. -/
theorem verify_sound_two_blocks :
    ∃ info : FileVerityInfo FsVerityDigest.lengthHash,
      (format (singleLibs info) .release oneHost () oneFormat).run =
        some (.ok ⟨(), [1], (oneVerify FsVerityDigest.lengthHash).hash⟩) ∧
      (verify (singleLibs info) .release oneHost () (oneVerify FsVerityDigest.lengthHash)).run =
        some (.ok ()) ∧
      ((∀ file ∈ recordedFiles oneHost () oneFormat, ∃ content,
          oneHost.read () (join oneFormat.dataDir file.relative) = .ok content ∧
          oneHost.content () ((oneVerify FsVerityDigest.lengthHash).filePath
            ((singleLibs info).toStringLossy file.relative)) = .ok content) ∨
        ∃ M, oneHost.read () (oneVerify FsVerityDigest.lengthHash).metadataPath = .ok M ∧
          Collides FsVerityDigest.lengthHash
            (hashInputs (singleLibs info) [1] (formatContents oneHost () oneFormat))
            (hashInputs (singleLibs info) M (verifyContents oneHost ()
              (oneVerify FsVerityDigest.lengthHash)
              ((recordedFiles oneHost () oneFormat).map fun file =>
                (singleLibs info).toStringLossy file.relative)))) := by
  obtain ⟨info, m, hpath, hrun, hm, hhash, hself⟩ := exists_oneInfo FsVerityDigest.lengthHash length_twoBlocks
  have hfiles : recordedFiles oneHost () oneFormat = [⟨[utf8 "f"], true⟩] := by
    decide +kernel
  have hformat : (format (singleLibs info) .release oneHost () oneFormat).run =
      some (.ok ⟨(), [1], (oneVerify FsVerityDigest.lengthHash).hash⟩) :=
    format_single hpath hrun hm hhash rfl hfiles rfl rfl rfl rfl
  have hverify := verify_oneHost hpath hrun hm hhash hself
  exact ⟨info, hformat, hverify, verify_sound hformat hverify rfl rfl⟩

end CryptPilot.Verity
