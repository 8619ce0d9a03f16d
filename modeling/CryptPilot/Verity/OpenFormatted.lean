import CryptPilot.Verity.FormatComplete
import CryptPilot.Verity.OpenSound

/-!
# A directory as it was formatted

`open` accepts what `format` wrote under the root hash it printed. If the names in the directory are
text, the records can stand in one tree: the components of a recorded path are the names of the file
and of the directories above it. So looking up these names, one after the other from the root, leads
to the file, and if the files are stored as they were read, every session is served to its end and
the reads of a file get its content (`open_formatted`). `dump` prints the root hash, the paths and
the labels that were recorded (`dump_formatted`).
-/

namespace CryptPilot.Verity

open CryptPilot.Data CryptPilot.VerityCore CryptPilot.VerityFuse

variable {h : Bytes → List.Vector UInt8 32} {σ η σ' η' ρ θ : Type} {libs : Libs h} {p : Profile}

/-! ## Names -/

/-- The name of something in a directory. -/
def EntryName (name : Bytes) : Prop := name ≠ [] ∧ name ≠ dot ∧ name ≠ dotDot ∧ 47 ∉ name

instance (name : Bytes) : Decidable (EntryName name) :=
  inferInstanceAs (Decidable (_ ∧ _ ∧ _ ∧ _))

/-- A recorded path has the names as its components. -/
theorem map_utf8_ofString {components : List Bytes} {text : String} (hne : components ≠ [])
    (hnames : ∀ name ∈ components, EntryName name) (htext : relativePath components = utf8 text) :
    (RelativePath.ofString text).map utf8 = components := by
  have hsplit : (text.toList.splitOn '/').map (fun piece => utf8 (String.ofList piece)) =
      components := by
    have hpieces := splitOn_encodeUtf8 (b := 47) (a := '/') (by decide) rfl text
    rw [show encodeUtf8 text = relativePath components from htext.symm, relativePath,
      List.splitOn_intercalate 47 (fun name hname => (hnames name hname).2.2.2) hne] at hpieces
    exact hpieces.symm
  have hall : (text.toList.splitOn '/').filter (· ≠ []) = text.toList.splitOn '/' := by
    rw [List.filter_eq_self]
    intro piece hpiece
    rw [decide_eq_true_eq]
    rintro rfl
    have hmem : utf8 (String.ofList []) ∈ components := hsplit ▸ List.mem_map_of_mem hpiece
    exact (hnames _ hmem).1 rfl
  rw [RelativePath.ofString, hall, List.map_map]
  exact hsplit

theorem normalComponent_of_entryName {c : String} (hc : EntryName (utf8 c)) : NormalComponent c := by
  refine ⟨?_, ?_, ?_, fun hslash => ?_⟩
  · rintro rfl
    exact hc.1 rfl
  · rintro rfl
    exact hc.2.1 (by decide +kernel)
  · rintro rfl
    exact hc.2.2.1 (by decide +kernel)
  · refine hc.2.2.2 ?_
    rw [show utf8 c = encodeUtf8 c from rfl, encodeUtf8_eq_flatMap]
    exact List.mem_flatMap.mpr ⟨'/', hslash, (mem_utf8EncodeChar_iff (by decide)).mpr rfl⟩

/-! ## Trees -/

/-- What a walk of a directory tree finds: files with proper names, none of them twice, and nothing
below a file. -/
structure TreeWalk (outcomes : List (Except String WalkEntry)) : Prop where
  names : ∀ file, .ok file ∈ outcomes → file.isFile = true →
    file.components ≠ [] ∧ ∀ name ∈ file.components, EntryName name
  once : ((outcomes.filterMap Except.toOption).map WalkEntry.components).Nodup
  leaf : ∀ file file', .ok file ∈ outcomes → .ok file' ∈ outcomes → file.isFile = true →
    file'.isFile = true → file.components <+: file'.components →
    file.components = file'.components

section
variable {host : Host σ η} {s : σ} {options : FormatOptions}
  (htree : TreeWalk (host.walkDir s options.dataDir))
  (htext : ∀ file ∈ recordedFiles host s options, ∃ text, file.relative = utf8 text)
include htree htext

variable (libs) in
theorem map_utf8_recorded {file : WalkEntry} (hfile : file ∈ recordedFiles host s options) :
    (RelativePath.ofString (libs.toStringLossy file.relative)).map utf8 = file.components := by
  obtain ⟨hmem, -, hisFile⟩ := mem_collectFiles (mem_recordedFiles.mp hfile)
  obtain ⟨hne, hnames⟩ := htree.names file hmem hisFile
  obtain ⟨text, hrelative⟩ := htext file hfile
  rw [hrelative, libs.toStringLossy_utf8]
  exact map_utf8_ofString hne hnames hrelative

/-- The records of the files of a tree can stand in one tree. -/
theorem compatible_of_tree {infos : List (FileVerityInfo h)}
    (hpaths : (infos.map FileVerityInfo.path).Perm
      ((recordedFiles host s options).map fun file => libs.toStringLossy file.relative)) :
    VerityVerifier.Compatible infos := by
  have hof : ∀ info ∈ infos, ∃ file ∈ recordedFiles host s options,
      (RelativePath.ofString info.path).map utf8 = file.components := by
    intro info hinfo
    obtain ⟨file, hfile, hpath⟩ :=
      List.mem_map.mp (hpaths.mem_iff.mp (List.mem_map_of_mem hinfo))
    exact ⟨file, hfile, hpath ▸ map_utf8_recorded libs htree htext hfile⟩
  refine ⟨?_, ?_, ?_⟩
  · intro info hinfo
    obtain ⟨file, hfile, hcomponents⟩ := hof info hinfo
    obtain ⟨hmem, -, hisFile⟩ := mem_collectFiles (mem_recordedFiles.mp hfile)
    obtain ⟨hne, hnames⟩ := htree.names file hmem hisFile
    rw [← hcomponents] at hne hnames
    refine ⟨fun hnil => hne (by rw [hnil]; rfl), fun c hc => ?_⟩
    exact normalComponent_of_entryName (hnames _ (List.mem_map_of_mem hc))
  · have hnodup : ((recordedFiles host s options).map fun file =>
        RelativePath.ofString (libs.toStringLossy file.relative)).Nodup := by
      refine List.Nodup.of_map (List.map utf8) ?_
      rw [List.map_map]
      have hcomponents := List.map_congr_left fun file hfile =>
        map_utf8_recorded libs htree htext hfile
      exact hcomponents ▸ nodup_recordedFiles htree.once
    have hperm := hpaths.map RelativePath.ofString
    rw [List.map_map, List.map_map] at hperm
    exact hperm.nodup_iff.mpr hnodup
  · rintro info hinfo info' hinfo' ⟨-, hne, hpre⟩
    obtain ⟨file, hfile, hcomponents⟩ := hof info hinfo
    obtain ⟨file', hfile', hcomponents'⟩ := hof info' hinfo'
    obtain ⟨hmem, -, hisFile⟩ := mem_collectFiles (mem_recordedFiles.mp hfile)
    obtain ⟨hmem', -, hisFile'⟩ := mem_collectFiles (mem_recordedFiles.mp hfile')
    have hpre' : file.components <+: file'.components := by
      rw [← hcomponents, ← hcomponents']
      exact hpre.map utf8
    have hsame := htree.leaf file file' hmem hmem' hisFile hisFile' hpre'
    -- a prefix of the same length
    refine hne (hpre.eq_of_length ?_)
    rw [← List.length_map (f := utf8), hcomponents, hsame, ← hcomponents', List.length_map]

end

/-! ## Sessions -/

section
variable {host : Host σ η} {s : σ} {options : FormatOptions} {out : FormatOutput σ}
  {S : Storage ρ θ} {F : RelativePath → Option Bytes} {fuel : Nat}

/-- What is known of a record that `format` made. -/
structure MadeFrom (content : Bytes) (info : FileVerityInfo h) : Prop where
  blockSize : ∀ p, info.descriptor.blockSize p = some defaultBlockSize
  dataSize : info.descriptor.dataSize.toNat = content.length
  tree : info.merkleTree = ⟨merkleLevel1 (sha256 h) [] defaultBlockSize content⟩
  self : info.verifySelf .release = some (.ok ())
  length_lt : content.length < 2 ^ 62

theorem madeFrom_of_format {file : WalkEntry} {info : FileVerityInfo h}
    (hrecord : (formatFile libs p host s options file).run = some (.ok info)) :
    ∃ content, host.read s (join options.dataDir file.relative) = .ok content ∧
      info.path = libs.toStringLossy file.relative ∧ MadeFrom content info := by
  obtain ⟨content, m, hcontent, hpath, hr, hm, hpin⟩ := formatFile_inv hrecord
  have hmeasures : Measures h p content info.descriptorHash := ⟨_, m, hr, hm, hpin⟩
  obtain ⟨-, -, -, htree⟩ := FileVerityInfo.genuine_inv hr .release
  obtain ⟨-, hdata⟩ := FsVerityDigest.run_inv (outputSize_sha256 h) hr
  obtain ⟨hdesc, -⟩ := Prod.mk.inj hdata
  rw [List.flatten_singleton] at htree hdesc
  refine ⟨content, hcontent, hpath, fun p => ?_, ?_, htree, ?_, hmeasures.length_lt⟩
  · exact (FileVerityInfo.genuine_inv hr p).2.2.1
  · rw [hdesc]
    exact FsVerityDigest.toNat_dataSize (hmeasures.length_lt.trans (by decide))
  · exact FileVerityInfo.verifySelf_genuine hr hm hpin (.inl rfl)

section
variable {fileInfos infos : List (FileVerityInfo h)} (hperm : fileInfos.Perm infos)
  (hinfos : List.Forall₂
    (fun file info => (formatFile libs p host s options file).run = some (.ok info))
    (recordedFiles host s options) infos)
include hperm hinfos

theorem exists_madeFrom {info : FileVerityInfo h} (hinfo : info ∈ fileInfos) :
    ∃ content, MadeFrom content info := by
  obtain ⟨file, -, hrecord⟩ := exists_mem_of_forall₂ hinfos.flip (hperm.mem_iff.mp hinfo)
  obtain ⟨content, -, -, hmade⟩ := madeFrom_of_format hrecord
  exact ⟨content, hmade⟩

theorem compatible_of_format (htree : TreeWalk (host.walkDir s options.dataDir))
    (htext : ∀ file ∈ recordedFiles host s options, ∃ text, file.relative = utf8 text) :
    VerityVerifier.Compatible fileInfos := by
  have hpaths : (recordedFiles host s options).map (fun file => libs.toStringLossy file.relative) =
      infos.map FileVerityInfo.path := by
    refine map_eq_map_of_forall₂ (hinfos.imp fun file info hrecord => ?_)
    obtain ⟨_, -, hpath, -⟩ := madeFrom_of_format hrecord
    exact hpath.symm
  exact compatible_of_tree htree htext ((hperm.map _).trans (.of_eq hpaths.symm))

end

theorem MadeFrom.not_miscounted {content : Bytes} {info : FileVerityInfo h}
    (hmade : MadeFrom content info) : ¬Miscounted info := by
  intro hmis
  refine hmis ?_
  rw [hmade.tree, hmade.dataSize]
  exact length_merkleLevel1 (by decide) content

/-- A range that ends within the last block of a file ends before the largest offset. -/
theorem mul_divCeil_lt {B n len : Nat} (hB : 0 < B) (hB' : B ≤ 2 ^ 30) (hlen : len < 2 ^ 62)
    (hn : n ≤ B * divCeil len B) : B * divCeil n B < 2 ^ 63 := by
  have hblocks : divCeil n B ≤ divCeil len B := by
    by_contra hlt
    have := (VerityFS.lt_divCeil_iff hB).mp (Nat.not_le.mp hlt)
    rw [Nat.mul_comm] at this
    omega
  calc B * divCeil n B ≤ B * divCeil len B := Nat.mul_le_mul_left B hblocks
    _ ≤ len + B - 1 := Nat.mul_div_le _ _
    _ < 2 ^ 63 := by omega

/-- A read of a file that is stored as it was recorded, in a state with coherent caches. -/
theorem handle_read_iff {hon : Honest S F} {infos : List (FileVerityInfo h)}
    (hbs : ∀ info ∈ infos, info.descriptor.blockSize .release = some defaultBlockSize)
    {ino : Nat} {info : FileVerityInfo h} {content : Bytes} {offset : Int64} {size : UInt32}
    {fromPath : Bytes → Option RelativePath} {entSize : Bytes → Nat} {moment : Moment}
    {reply : Except Errno FuseReply} {self self' : VerityFS ρ θ}
    (he : (VerityVerifier.new infos).lookupByIno ino = some ⟨ino, .verityEnabled info⟩)
    (hmade : MadeFrom content info) (hF : F (RelativePath.ofString info.path) = some content)
    (hoff : ¬offset < 0)
    (hco : VerityFS.Coherent hon (mountTable infos .release hbs) fuel self)
    (hhandle : self.handle fromPath entSize ((VerityVerifier.new infos).toFileVerifier .release) S
      fuel moment (.read ino offset size) = some (reply, self')) :
    reply = .ok (.data (slice offset.toInt.toNat (offset.toInt.toNat + size.toNat) content)) ↔
      size = 0 ∨ offset.toInt.toNat + size.toNat ≤
        defaultBlockSize * divCeil content.length defaultBlockSize := by
  have hfound : ((VerityVerifier.new infos).toFileVerifier .release).lookupByIno ino =
      some ((FsEntry.mk ino (.verityEnabled info)).toVerifiableFile .release) :=
    Option.map_eq_some_iff.mpr ⟨_, he, rfl⟩
  obtain ⟨r, self₁, hread, hiff⟩ := VerityFS.readFile_genuine (B := defaultBlockSize)
    (mountTable infos .release hbs) size ⟨ino, info, he, rfl⟩ rfl (hmade.blockSize _) hmade.tree hF
    hoff hco
  rw [VerityFS.handle, VerityFS.read, hfound] at hhandle
  dsimp only at hhandle
  rw [hread] at hhandle
  cases hhandle
  have hin (hend : offset.toInt.toNat + size.toNat ≤
      defaultBlockSize * divCeil content.length defaultBlockSize) :=
    mul_divCeil_lt (by decide) (by decide) hmade.length_lt hend
  rw [and_iff_left_of_imp hin] at hiff
  rw [← hiff]
  cases r with
  | error e => simp [Except.map]
  | ok data => simp [Except.map]

/-- **A formatted directory is served.** The directory is a tree, and the names of the recorded files
are text. `open` accepts what `format` wrote under the root hash it printed, with a number of hashes
in each record that is right. If the files are stored as they were read, every session is served to
its end. Looking up the names of a recorded file, from the root, leads to an entry with its size, and
a read of that entry gets the requested part of the file, exactly if it ends within the last block of
the file or asks for nothing. -/
theorem open_formatted (hformat : (format libs p host s options).run = some (.ok out))
    (htree : TreeWalk (host.walkDir s options.dataDir))
    (htext : ∀ file ∈ recordedFiles host s options, ∃ text, file.relative = utf8 text)
    {host' : MountHost σ' η'} {s' : σ'} {options' : OpenOptions}
    (hready : Mountable host' s' options')
    (hmetadata : host'.read s' options'.metadataPath = .ok out.metadata)
    (hhash : options'.hash = out.rootHash) (hon : Honest S F)
    (hF : ∀ file ∈ recordedFiles host s options, ∀ path content,
      path.map utf8 = file.components →
      host.read s (join options.dataDir file.relative) = .ok content → F path = some content)
    {storage : ρ} (hfuel : 2 ^ 30 + hon.budget storage < fuel)
    (fromPath : Bytes → Option RelativePath) (entSize : Bytes → Nat)
    (session : List (Moment × FuseRequest)) :
    ∃ (infos : List (FileVerityInfo h)) (mount : MountedFs h)
      (replies : List (Except Errno FuseReply)) (fs' : VerityFS ρ θ),
      (OpenCommand.run libs .release host' s' options').run = some (.ok mount) ∧
      mount.verifier = VerityVerifier.new infos ∧ (∀ info ∈ infos, ¬Miscounted info) ∧
      VerityFS.serve fromPath entSize (mount.verifier.toFileVerifier .release) S fuel session
        (mount.initial storage) = some (replies, fs') ∧
      ∀ file ∈ recordedFiles host s options, ∃ path entry content,
        path.map utf8 = file.components ∧
        host.read s (join options.dataDir file.relative) = .ok content ∧
        mount.verifier.walk rootIno path = some entry ∧
        entry.expectedSize = some content.length ∧
        ∀ (k : Nat) (moment : Moment) (offset : Int64) (size : UInt32),
          session[k]? = some (moment, .read entry.ino offset size) → ¬offset < 0 →
          (replies[k]? = some (.ok (.data
              (slice offset.toInt.toNat (offset.toInt.toNat + size.toNat) content))) ↔
            size = 0 ∨ offset.toInt.toNat + size.toNat ≤
              defaultBlockSize * divCeil content.length defaultBlockSize) := by
  obtain ⟨metadata, infos, hde, -, hperm, hinfos⟩ := exists_formatted hformat
  obtain ⟨hroot, -⟩ := format_eq_ok hformat
  have hself : ∀ info ∈ metadata.fileInfos, info.verifySelf .release = some (.ok ()) := by
    intro info hinfo
    obtain ⟨content, hm⟩ := exists_madeFrom hperm hinfos hinfo
    exact hm.self
  have hbs : ∀ info ∈ metadata.fileInfos,
      info.descriptor.blockSize .release = some defaultBlockSize := by
    intro info hinfo
    obtain ⟨content, hm⟩ := exists_madeFrom hperm hinfos hinfo
    exact hm.blockSize .release
  have hcompatible := compatible_of_format hperm hinfos htree htext
  have hopen := OpenCommand.run_of_ok hready hmetadata (hhash ▸ hroot) hde hself
  obtain ⟨replies, fs', hserve, hreplies⟩ := VerityFS.serve_returns fromPath entSize
    (mountTable_covers hbs) session
    (VerityFS.coherent_new hfuel options'.blockCacheCapacity defaultHandleCacheSize)
  refine ⟨metadata.fileInfos, _, replies, fs', hopen, rfl, ?_, hserve, fun file hfile => ?_⟩
  · intro info hinfo
    obtain ⟨content, hm⟩ := exists_madeFrom hperm hinfos hinfo
    exact hm.not_miscounted
  obtain ⟨info, hinfo, hrecord⟩ := exists_mem_of_forall₂ hinfos hfile
  obtain ⟨content, hcontent, hpath, hm⟩ := madeFrom_of_format hrecord
  have hcomponents : (RelativePath.ofString info.path).map utf8 = file.components :=
    hpath ▸ map_utf8_recorded libs htree htext hfile
  obtain ⟨⟨ino, kind⟩, hwalk, rfl, he⟩ :=
    VerityVerifier.exists_walk_new hcompatible (hperm.mem_iff.mpr hinfo)
  refine ⟨_, _, content, hcomponents, hcontent, hwalk, congrArg some hm.dataSize, ?_⟩
  intro k moment offset size hk hoff
  obtain ⟨before, reply, after, hco, hhandle, hreply⟩ := hreplies k moment _ hk
  rw [hreply, Option.some.injEq]
  exact handle_read_iff hbs he hm (hF file hfile _ content hcomponents hcontent) hoff hco hhandle

theorem treeWalk_oneHost : TreeWalk (oneHost.walkDir () oneFormat.dataDir) where
  names := by
    intro file hfile _
    cases List.mem_singleton.mp hfile
    decide +kernel
  once := List.nodup_singleton _
  leaf := by
    intro file file' hfile hfile' _ _ _
    cases List.mem_singleton.mp hfile
    cases List.mem_singleton.mp hfile'
    rfl

theorem open_formatted_two_blocks :
    ∃ (info : FileVerityInfo FsVerityDigest.lengthHash)
      (infos : List (FileVerityInfo FsVerityDigest.lengthHash))
      (mount : MountedFs FsVerityDigest.lengthHash) (replies : List (Except Errno FuseReply))
      (fs' : VerityFS Unit Bytes),
      (format (singleLibs info) .release oneHost () oneFormat).run =
        some (.ok ⟨(), [1], (oneOpen FsVerityDigest.lengthHash).hash⟩) ∧
      (OpenCommand.run (singleLibs info) .release oneMountHost ()
        (oneOpen FsVerityDigest.lengthHash)).run = some (.ok mount) ∧
      mount.verifier = VerityVerifier.new infos ∧ (∀ info ∈ infos, ¬Miscounted info) ∧
      VerityFS.serve (fun _ => none) List.length (mount.verifier.toFileVerifier .release)
        (memoryStorage twoBlockFiles) (2 ^ 30 + 1) oneSession (mount.initial ()) =
          some (replies, fs') ∧
      ∀ file ∈ recordedFiles oneHost () oneFormat, ∃ path entry content,
        path.map utf8 = file.components ∧
        oneHost.read () (join oneFormat.dataDir file.relative) = .ok content ∧
        mount.verifier.walk rootIno path = some entry ∧
        entry.expectedSize = some content.length ∧
        ∀ (k : Nat) (moment : Moment) (offset : Int64) (size : UInt32),
          oneSession[k]? = some (moment, .read entry.ino offset size) → ¬offset < 0 →
          (replies[k]? = some (.ok (.data
              (slice offset.toInt.toNat (offset.toInt.toNat + size.toNat) content))) ↔
            size = 0 ∨ offset.toInt.toNat + size.toNat ≤
              defaultBlockSize * divCeil content.length defaultBlockSize) := by
  obtain ⟨info, m, hpath, hrun, hm, hhash, -⟩ := exists_oneInfo FsVerityDigest.lengthHash
    length_twoBlocks
  have hformat : (format (singleLibs info) .release oneHost () oneFormat).run =
      some (.ok ⟨(), [1], hexEncode (FsVerityDigest.lengthHash [2]).toList⟩) :=
    format_single hpath hrun hm hhash rfl recordedFiles_oneHost rfl rfl rfl rfl
  have htext : ∀ file ∈ recordedFiles oneHost () oneFormat, ∃ text, file.relative = utf8 text := by
    rw [recordedFiles_oneHost]
    exact List.forall_mem_singleton.mpr ⟨"f", rfl⟩
  have hF : ∀ file ∈ recordedFiles oneHost () oneFormat, ∀ path content,
      path.map utf8 = file.components →
      oneHost.read () (join oneFormat.dataDir file.relative) = .ok content →
      twoBlockFiles path = some content := by
    rw [recordedFiles_oneHost]
    refine List.forall_mem_singleton.mpr fun path content _ hread => ?_
    cases hread
    rfl
  have hfuel : 2 ^ 30 + (memoryStorageHonest twoBlockFiles).budget () < 2 ^ 30 + 1 := by decide
  obtain ⟨infos, mount, replies, fs', hopen, hrest⟩ := open_formatted hformat treeWalk_oneHost htext
    mountable_oneMountHost read_oneMountHost rfl (memoryStorageHonest twoBlockFiles) hF hfuel
    (fun _ => none) List.length oneSession
  exact ⟨info, infos, mount, replies, fs', hformat, hopen, hrest⟩

end

/-! ## What `dump` prints -/

section
variable {host : Host σ η} {s : σ} {options : FormatOptions} {out : FormatOutput σ}
  {host' : Host σ' η'} {s' : σ'} {options' : DumpOptions}

theorem exists_mapM_dumpFile {infos : List (FileVerityInfo h)}
    (hbs : ∀ info ∈ infos, info.descriptor.blockSize p = some defaultBlockSize) :
    ∃ files, infos.mapM (dumpFile p) = some files ∧
      ∀ info ∈ infos, s!"File: {info.path}" ∈ files.flatten := by
  induction infos with
  | nil => exact ⟨[], rfl, fun info hinfo => by cases hinfo⟩
  | cons info infos ih =>
    obtain ⟨hfirst, hrest⟩ := List.forall_mem_cons.mp hbs
    obtain ⟨files, hfiles, hmem⟩ := ih hrest
    obtain ⟨lines, hlines⟩ : ∃ lines, dumpFile p info = some (s!"File: {info.path}" :: lines) := by
      rw [dumpFile, hfirst]
      exact ⟨_, rfl⟩
    refine ⟨(s!"File: {info.path}" :: lines) :: files, ?_, ?_⟩
    · rw [List.mapM_cons, hlines, hfiles]
      rfl
    · rw [List.forall_mem_cons, List.flatten_cons]
      exact ⟨List.mem_append_left _ List.mem_cons_self,
        fun info' hinfo' => List.mem_append_right _ (hmem info' hinfo')⟩

/-- **`dump` prints what `format` recorded**: its root hash, a listing with every recorded file, and
the labels. -/
theorem dump_formatted (hformat : (format libs p host s options).run = some (.ok out))
    {path : PathBuf} (hpath : options'.metadataPath = .ok path)
    (hread : host'.read s' path = .ok out.metadata) (p' : Profile) :
    (options'.printRootHash = true →
      (DumpCommand.run libs p' host' s' options').run = some (.ok [out.rootHash])) ∧
    (options'.printRootHash = false → options'.printMetadata = true →
      ∃ lines, (DumpCommand.run libs p' host' s' options').run = some (.ok lines) ∧
        ∀ file ∈ recordedFiles host s options,
          s!"File: {libs.toStringLossy file.relative}" ∈ lines) ∧
    (options'.printRootHash = false → options'.printMetadata = false →
      ∀ key value, options'.printLabel = some key → options.labelMap[key]? = some value →
        (DumpCommand.run libs p' host' s' options').run = some (.ok [value])) := by
  obtain ⟨hroot, -⟩ := format_eq_ok hformat
  obtain ⟨metadata, infos, hde, hlabels, hperm, hinfos⟩ := exists_formatted hformat
  have hstart : ∀ {lines : List String} {rest : Bytes → ExceptT String Option (List String)},
      (rest out.metadata).run = some (.ok lines) →
      (liftExcept options'.metadataPath >>= fun metadataPath =>
        liftExcept (host'.read s' metadataPath) >>= rest).run = some (.ok lines) := by
    intro lines rest hrest
    rw [run_bind_of_ok (run_liftExcept_ok hpath), run_bind_of_ok (run_liftExcept_ok hread), hrest]
  refine ⟨fun hprint => ?_, fun hprint hprint' => ?_, fun hprint hprint' key value hkey hvalue => ?_⟩
  · refine hstart ?_
    rw [if_pos hprint, run_bind_of_ok (run_liftExcept_ok hroot)]
    rfl
  · have hbs : ∀ info ∈ metadata.fileInfos,
        info.descriptor.blockSize p' = some defaultBlockSize := by
      intro info hinfo
      obtain ⟨content, hmade⟩ := exists_madeFrom hperm hinfos hinfo
      exact hmade.blockSize p'
    obtain ⟨files, hfiles, hmem⟩ := exists_mapM_dumpFile hbs
    obtain ⟨lines, hlines, hsub⟩ : ∃ lines, dumpMetadata p' metadata = some lines ∧
        files.flatten ⊆ lines := by
      rw [dumpMetadata, hfiles]
      exact ⟨_, rfl, List.subset_append_right _ _⟩
    refine ⟨lines, ?_, fun file hfile => ?_⟩
    · refine hstart ?_
      rw [if_neg (by rw [hprint]; decide), if_pos hprint', run_bind_of_ok hde]
      exact run_lift_some hlines
    · obtain ⟨info, hinfo, hrecord⟩ := exists_mem_of_forall₂ hinfos hfile
      obtain ⟨-, -, hinfoPath, -⟩ := madeFrom_of_format hrecord
      rw [← hinfoPath]
      exact hsub (hmem info (hperm.mem_iff.mpr hinfo))
  · refine hstart ?_
    rw [if_neg (by rw [hprint]; decide), if_neg (by rw [hprint']; decide), hkey]
    dsimp only
    rw [run_bind_of_ok hde, hlabels, hvalue]
    rfl

end

end CryptPilot.Verity
