import CryptPilot.Verity.OpenCommand
import CryptPilot.VerityFuse.Namespace

/-!
# What a mounted directory serves

A directory was formatted, and later `open` accepts a directory under the root hash. Between the two,
and while it is mounted, both the directory and the metadata can be replaced. What ties the replies
of a session to the directory that was formatted is a chain of hashes: the root hash pins the
descriptor hashes, these pin the descriptors, the root in a descriptor pins the hashes of the blocks
if there are as many as there are blocks, and these pin the blocks up to trailing zeroes.

So in every session all numbers that are given out are those of paths that were formatted, whatever
is not reported as a directory is a file and has the size that was formatted, and what is read of it
is what was formatted (`open_serves`). The exceptions are two different strings with one digest and,
for what is read, the two lengths that are not checked: the number of hashes in a record, and the
number of bytes in a block. What a file is reported as, the target of a link, and all attributes
other than the size are taken from the source directory, and nothing is said about them.
-/

namespace CryptPilot.Verity

open CryptPilot.Data CryptPilot.VerityCore CryptPilot.VerityFuse

variable {h : Bytes → List.Vector UInt8 32} {σ η σ' η' ρ θ : Type} {libs : Libs h}
  {p p' : Profile}

/-! ## Records and what they stand for -/

/-- A file that `format` recorded under a path, with what it read. -/
def Recorded (libs : Libs h) (host : Host σ η) (s : σ) (options : FormatOptions) (path : String)
    (content : Bytes) : Prop :=
  ∃ file ∈ recordedFiles host s options, path = libs.toStringLossy file.relative ∧
    host.read s (join options.dataDir file.relative) = .ok content

/-- What is hashed for the self-check of a record. -/
def recordInputs (info : FileVerityInfo h) : List Bytes :=
  info.descriptor.descriptorBytes.toList ++
    nodeInputs (sha256 h) info.descriptor.salt defaultBlockSize info.merkleTree.level1

/-- What is hashed for a mount: the document behind the root hash, the records, and the blocks that
are read. -/
def mountInputs (libs : Libs h) (metadata : Bytes) (infos : List (FileVerityInfo h))
    (blocks : List (BlockKey × Bytes)) : List Bytes :=
  (metadataHashDoc libs metadata).toOption.toList ++ infos.flatMap recordInputs ++
    blocks.map fun e => zeroPad defaultBlockSize e.2

/-- A record does not have one hash for every block. This is not checked. -/
def Miscounted (info : FileVerityInfo h) : Prop :=
  info.merkleTree.level1.length ≠ divCeil info.descriptor.dataSize.toNat defaultBlockSize

/-- A block is not as long as the size of its file says. This is not checked. -/
def Misfit (info : FileVerityInfo h) (i : Nat) (raw : Bytes) : Prop :=
  raw.length ≠ min defaultBlockSize (info.descriptor.dataSize.toNat - i * defaultBlockSize)

/-- The record of a file does not have the right number of hashes, or a block of it that was verified
does not have the right length. -/
def Misshapen (verifier : VerityVerifier h) (blocks : List (BlockKey × Bytes)) (ino : Nat) : Prop :=
  ∃ info, verifier.lookupByIno ino = some ⟨ino, .verityEnabled info⟩ ∧
    (Miscounted info ∨ ∃ i raw, (⟨ino, i⟩, raw) ∈ blocks ∧ Misfit info i raw)

/-! ## Replies -/

section
variable (libs : Libs h) (host : Host σ η) (s : σ) (options : FormatOptions)
  (verifier : VerityVerifier h)

/-- The number is that of a file that was formatted with this content. -/
def StandsFor (ino : Nat) (content : Bytes) : Prop :=
  ∃ info, verifier.lookupByIno ino = some ⟨ino, .verityEnabled info⟩ ∧
    Recorded libs host s options info.path content

/-- The number is that of this path, which is the path of a file that was formatted, or of a directory
on the way to one. -/
def Located (ino : Nat) (path : RelativePath) : Prop :=
  (∃ e, verifier.lookupByIno ino = some e ∧ e.path = path) ∧
    (path = rootPath ∨ ∃ name content, Recorded libs host s options name content ∧
      path <+: RelativePath.ofString name)

/-- Whatever is not reported as a directory is a file with its size. -/
def Sized (attr : FileAttr) : Prop :=
  attr.kind ≠ .directory →
    ∃ content, StandsFor libs host s options verifier attr.ino content ∧ attr.size = content.length

/-- An entry of a listing is the directory itself, twice, or something below it. Whatever is not
listed as a directory is a file. -/
def Listed (fromPath : Bytes → Option RelativePath) (ino : Nat) (dir : RelativePath) (e : DirEntry) :
    Prop :=
  (e.ino = ino ∧ e.kind = .directory ∧ (e.name = dot ∨ e.name = dotDot)) ∨
    ∃ relative, fromPath e.name = some relative ∧
      Located libs host s options verifier e.ino (dir ++ relative) ∧
      (e.kind ≠ .directory → ∃ content, StandsFor libs host s options verifier e.ino content)

/-- A reply is about what was formatted. Of a link only the path is known to be. -/
def Genuine (fromPath : Bytes → Option RelativePath) : FuseRequest → FuseReply → Prop
  | .lookup parent name, .entry attr => ∃ dir relative,
    Located libs host s options verifier parent dir ∧ fromPath name = some relative ∧
      Located libs host s options verifier attr.ino (dir ++ relative) ∧
      Sized libs host s options verifier attr
  | .getattr ino, .attr attr => attr.ino = ino ∧
    (∃ path, Located libs host s options verifier ino path) ∧
      Sized libs host s options verifier attr
  | .read ino offset size, .data data => (size = 0 ∧ data = []) ∨
    ∃ content, StandsFor libs host s options verifier ino content ∧
      data = slice offset.toInt.toNat (offset.toInt.toNat + size.toNat) content
  | .readdir ino _ _, .directory entries => ∃ dir,
    Located libs host s options verifier ino dir ∧
      ∀ e ∈ entries, Listed libs host s options verifier fromPath ino dir e.1
  | .openFile ino, .opened => ∃ path, Located libs host s options verifier ino path
  | .readlink ino, .link _ => ∃ path, Located libs host s options verifier ino path
  | _, _ => False

end

/-! ## The root hash pins the records -/

section
variable {host : Host σ η} {s : σ} {options : FormatOptions} {out : FormatOutput σ}

/-- Every entry of the metadata that `format` wrote is that of a file. -/
theorem recorded_of_names (hformat : (format libs p host s options).run = some (.ok out))
    {table : MetadataTable} (htable : libs.root out.metadata = .ok table) {t : FileInfoTable}
    (ht : t ∈ table.files.getD []) {entry : FileHashJsonEntry} (hnames : Names t entry) :
    ∃ content, Recorded libs host s options entry.path content ∧
      content ∈ formatContents host s options ∧ Measures h p content entry.descriptorHash := by
  obtain ⟨infos, -, hinfos, hfb, -⟩ := format_inv hformat
  rw [libs.root_finish hfb htable] at ht
  obtain ⟨info, hinfo, rfl⟩ := List.mem_map.mp ht
  have hmem : info ∈ infos := (libs.sortUnstable_perm infos).mem_iff.mp hinfo
  obtain ⟨file, hfile, hrecord⟩ := exists_mem_of_forall₂ hinfos.flip hmem
  obtain ⟨content, hcontent, hpath, hmeasure⟩ := formatFile_eq_ok hrecord
  have hentryPath : info.path = entry.path := Option.some.inj hnames.1
  have hentryHash : info.descriptorHash = entry.descriptorHash := Option.some.inj hnames.2
  refine ⟨content, ⟨file, hfile, hentryPath ▸ hpath, hcontent⟩, ?_, hentryHash ▸ hmeasure⟩
  exact List.mem_filterMap.mpr ⟨file, hfile, by rw [hcontent]; rfl⟩

/-- Data that was measured in blocks of the default size has a length that is recorded. -/
theorem Measures.length_lt {content : Bytes} {hash : String} (hm : Measures h p content hash) :
    content.length < 2 ^ 62 := by
  obtain ⟨r, m, hr, -, -⟩ := hm
  obtain ⟨⟨cfg, hB, -, hcap⟩, -⟩ := FsVerityDigest.run_inv (outputSize_sha256 h) hr
  rw [List.flatten_singleton] at hcap
  refine Nat.lt_of_le_of_lt hcap ?_
  rw [FsVerityDigest.capacity, FsVerityConfig.fanout, hB]
  show 4096 * (4096 / 32) ^ 7 < 2 ^ 62
  decide

/-- A record is pinned to the content of a file: it has its descriptor, and a tree with its root. -/
structure Pinned (libs : Libs h) (host : Host σ η) (s : σ) (options : FormatOptions)
    (info : FileVerityInfo h) (content : Bytes) : Prop where
  recorded : Recorded libs host s options info.path content
  mem : content ∈ formatContents host s options
  length_lt : content.length < 2 ^ 64
  descriptor : info.descriptor = descriptorOf (sha256 h) [] defaultBlockSize content
  root : rootOf (sha256 h) [] defaultBlockSize info.merkleTree.level1 =
    merkleRoot (sha256 h) [] defaultBlockSize content

/-- **Records under the root hash.** They are pinned to files that were formatted, or there is a
collision. -/
theorem pinned_of_rootHash (hformat : (format libs p host s options).run = some (.ok out))
    {M : Bytes} (hM : calculateMetadataHash libs M = .ok out.rootHash) {metadata : MetadataInfo h}
    (hmetadata : (deserializeMetadata libs M).run = some (.ok metadata)) {info : FileVerityInfo h}
    (hinfo : info ∈ metadata.fileInfos) (hself : info.verifySelf p' = some (.ok ()))
    (blocks : List (BlockKey × Bytes)) :
    (∃ content, Pinned libs host s options info content) ∨
      Collides h (hashInputs libs out.metadata (formatContents host s options))
        (mountInputs libs M metadata.fileInfos blocks) := by
  obtain ⟨hroot, -⟩ := format_eq_ok hformat
  rcases entries_of_rootHash hroot hM with ⟨table, table', entries, ht, ht', he, he'⟩ | hcol
  · -- the record is named in the metadata that was written
    obtain ⟨table'', ht'', hall⟩ := deserializeMetadata_eq_ok hmetadata
    obtain rfl : table' = table'' := Except.ok.inj (ht'.symm.trans ht'')
    obtain ⟨t', hmem', hnames'⟩ := exists_mem_of_forall₂ hall.flip hinfo
    obtain ⟨t, hmem, hnames⟩ := names_of_entries he' he hmem' hnames'
    obtain ⟨content, hrecorded, hcontent, hmeasure⟩ := recorded_of_names hformat ht hmem hnames
    have hlength : content.length < 2 ^ 64 := hmeasure.length_lt.trans (by decide)
    obtain ⟨r, m, hr, hm, hhash⟩ := hmeasure
    -- so its descriptor hash is that of the file
    have hmeasured : FsVerityDigest.measure (sha256 h) p [] defaultBlockSize [content] = some m := by
      have hrun : FsVerityDigest.run (sha256 h) p [] defaultBlockSize [content] = some r := hr
      rw [FsVerityDigest.measure_eq, hrun]
      exact hm
    rcases FileVerityInfo.verifySelf_root hmeasured hhash hself with
      ⟨-, -, hdescriptor, hrootHash⟩ | hcol
    · rw [List.flatten_singleton] at hdescriptor hrootHash
      exact .inl ⟨content, hrecorded, hcontent, hlength, hdescriptor, hrootHash⟩
    · rw [List.flatten_singleton] at hcol
      refine .inr (hcol.mono (List.Subset.trans (List.subset_append_right _ _)
        (measureInputs_subset_hashInputs _ hcontent)) fun x hx => ?_)
      refine List.mem_append_left _ (List.mem_append_right _ ?_)
      exact List.mem_flatMap.mpr ⟨info, hinfo, List.mem_append_left _ hx⟩
  · exact .inr (hcol.mono (List.subset_append_left _ _)
      fun x hx => List.mem_append_left _ (List.mem_append_left _ hx))

end

/-! ## A record pins the blocks -/

section
variable {host : Host σ η} {s : σ} {options : FormatOptions} {info : FileVerityInfo h}
  {content : Bytes}

theorem Pinned.dataSize (hpinned : Pinned libs host s options info content) :
    info.descriptor.dataSize.toNat = content.length := by
  rw [hpinned.descriptor]
  exact FsVerityDigest.toNat_dataSize hpinned.length_lt

theorem Pinned.blockSize (hpinned : Pinned libs host s options info content) :
    info.descriptor.blockSize p = some defaultBlockSize := by
  rw [hpinned.descriptor]
  exact FsVerityDigest.blockSize_descriptorOf (by decide) p

theorem length_dataBlock (B : Nat) (D : Bytes) (i : Nat) :
    (dataBlock B D i).length = min B (D.length - i * B) := by
  rw [dataBlock, List.length_take, List.length_drop]

/-- What verifies against a record with the right number of hashes, and has the right length, is a
block of the content. -/
theorem Pinned.eq_dataBlock (hpinned : Pinned libs host s options info content)
    (hcount : ¬Miscounted info) {i : Nat} {raw : Bytes}
    (hv : info.merkleTree.verifyDataBlock i defaultBlockSize raw = true)
    (hfit : ¬Misfit info i raw) :
    raw = dataBlock defaultBlockSize content i ∨
      Collides h (measureInputs (sha256 h) [] defaultBlockSize content)
        (recordInputs info ++ [zeroPad defaultBlockSize raw]) := by
  have hpos : 0 < defaultBlockSize := by decide
  have hfan : 2 ≤ defaultBlockSize / (sha256 h).outputSize := show 2 ≤ 4096 / 32 by decide
  have hlen : (merkleLevel1 (sha256 h) [] defaultBlockSize content).length =
      info.merkleTree.level1.length := by
    rw [length_merkleLevel1 hpos, not_not.mp hcount, hpinned.dataSize, divCeil]
  rcases rootOf_binding hfan hlen hpinned.root.symm with hlevel1 | hcol
  · obtain ⟨level1, htree⟩ : ∃ level1, info.merkleTree = ⟨level1⟩ := ⟨_, rfl⟩
    rw [htree] at hlevel1 hv
    dsimp only at hlevel1
    subst hlevel1
    rcases MerkleTree.verifyDataBlock_binds hpos hv with ⟨-, hpad⟩ | hcol
    · refine .inl (zeroPad_inj ?_ hpad)
      rw [not_not.mp hfit, length_dataBlock, hpinned.dataSize]
    · refine .inr (hcol.mono ?_ (List.subset_append_right _ _))
      exact List.Subset.trans (List.subset_append_left _ _) (List.subset_append_left _ _)
  · refine .inr (hcol.mono ?_ ?_)
    · exact List.Subset.trans (List.subset_append_right _ _) (List.subset_append_left _ _)
    · have hsalt : info.descriptor.salt = [] := by rw [hpinned.descriptor]; rfl
      rw [recordInputs, hsalt]
      exact List.Subset.trans (List.subset_append_right _ _) (List.subset_append_left _ _)

end

/-! ## Entries of a verifier whose records are pinned -/

section
variable {infos : List (FileVerityInfo h)}

/-- A block was verified against the record of the file it is filed under. -/
def Checked (verifier : VerityVerifier h) (p : Profile) (key : BlockKey) (raw : Bytes) : Prop :=
  ∃ info, verifier.lookupByIno key.ino = some ⟨key.ino, .verityEnabled info⟩ ∧
    (FsEntry.mk key.ino (.verityEnabled info)).verifyDataBlock p key.blockIndex raw = some (.ok ())

/-- What the verifier finds under a number. -/
theorem lookupByIno_eq_some {ino : Nat} {file : VerifiableFile}
    (hfile : ((VerityVerifier.new infos).toFileVerifier p).lookupByIno ino = some file) :
    ∃ kind, (VerityVerifier.new infos).lookupByIno ino = some ⟨ino, kind⟩ ∧
      file = (FsEntry.mk ino kind).toVerifiableFile p := by
  obtain ⟨⟨i, kind⟩, he, rfl⟩ := Option.map_eq_some_iff.mp hfile
  obtain rfl : i = ino := (VerityVerifier.filed_new infos).ino_eq _ _ he
  exact ⟨kind, he, rfl⟩

theorem checked_of_verify {ino : Nat} {file : VerifiableFile}
    (hfile : ((VerityVerifier.new infos).toFileVerifier p).lookupByIno ino = some file) {i : Nat}
    {raw : Bytes} (hok : file.verifyDataBlock i raw = some (.ok ())) :
    Checked (VerityVerifier.new infos) p ⟨file.ino, i⟩ raw := by
  obtain ⟨kind, he, rfl⟩ := lookupByIno_eq_some hfile
  cases kind with
  | verityEnabled info => exact ⟨info, he, hok⟩
  | directory path => cases hok

/-- What the verifier finds under a path. -/
theorem lookupByPath_eq_some {path : RelativePath} {file : VerifiableFile}
    (hfile : ((VerityVerifier.new infos).toFileVerifier p).lookupByPath path = some file) :
    ∃ e, (VerityVerifier.new infos).lookupByIno e.ino = some e ∧ e.path = path ∧
      file = e.toVerifiableFile p := by
  obtain ⟨e, he, rfl⟩ := Option.map_eq_some_iff.mp hfile
  obtain ⟨hpath, hino⟩ := (VerityVerifier.filed_new infos).lookupByPath_eq_some he
  exact ⟨e, hino, hpath, rfl⟩

variable {host : Host σ η} {s : σ} {options : FormatOptions}
  (hpinned : ∀ info ∈ infos, ∃ content, Pinned libs host s options info content)
include hpinned

theorem located_of_lookup {ino : Nat} {e : FsEntry h}
    (he : (VerityVerifier.new infos).lookupByIno ino = some e) :
    Located libs host s options (VerityVerifier.new infos) ino e.path := by
  refine ⟨⟨e, he, rfl⟩, ?_⟩
  have hof := VerityVerifier.among_new infos _ _ he
  obtain ⟨i, kind⟩ := e
  cases kind with
  | verityEnabled info =>
    obtain ⟨content, hp⟩ := hpinned info hof
    exact .inr ⟨info.path, content, hp.recorded, List.prefix_refl _⟩
  | directory path =>
    rcases hof with hroot | ⟨info, hinfo, hpre⟩
    · exact .inl hroot
    · obtain ⟨content, hp⟩ := hpinned info hinfo
      exact .inr ⟨info.path, content, hp.recorded, hpre⟩

/-- What is not a directory has a size that was compared. -/
theorem standsFor_of_checked {e : FsEntry h} {metadata : VerityFuse.Metadata} {kind : FileType}
    (he : (VerityVerifier.new infos).lookupByIno e.ino = some e)
    (hcheck : checkMetadataFileSize (e.toVerifiableFile p) metadata = .ok ())
    (htype : fileType metadata = some kind) (hkind : kind ≠ .directory) :
    ∃ content, StandsFor libs host s options (VerityVerifier.new infos) e.ino content ∧
      metadata.len = content.length := by
  have hcompared : (metadata.isFile || metadata.isSymlink) = true := by
    unfold fileType at htype
    split_ifs at htype with hdir hreg hlink
    · exact absurd (Option.some.inj htype).symm hkind
    · rw [hreg, Bool.true_or]
    · rw [hlink, Bool.or_true]
  have hof := VerityVerifier.among_new infos _ _ he
  rw [checkMetadataFileSize, if_pos hcompared] at hcheck
  obtain ⟨i, kind⟩ := e
  cases kind with
  | directory path => cases hcheck
  | verityEnabled info =>
    dsimp only [FsEntry.toVerifiableFile, FsEntry.expectedSize] at hcheck
    split_ifs at hcheck with hlen
    obtain ⟨content, hp⟩ := hpinned info hof
    exact ⟨content, ⟨info, he, hp.recorded⟩, (not_not.mp hlen).trans hp.dataSize⟩

theorem sized_of_getMetadata {e : FsEntry h} {source : Source} {metadata : VerityFuse.Metadata}
    {now : Nat} {attr : FileAttr} (he : (VerityVerifier.new infos).lookupByIno e.ino = some e)
    (hm : getMetadata source (e.toVerifiableFile p) = .ok metadata)
    (hattr : metadataToAttr now metadata e.ino = .ok attr) :
    attr.ino = e.ino ∧ Sized libs host s options (VerityVerifier.new infos) attr := by
  obtain ⟨-, hcheck⟩ := getMetadata_eq_ok hm
  obtain ⟨hino, hsize, htype⟩ := metadataToAttr_eq_ok hattr
  refine ⟨hino, fun hkind => ?_⟩
  rw [hino, hsize]
  exact standsFor_of_checked hpinned he hcheck htype hkind

/-! ## One reply -/

section
variable {fromPath : Bytes → Option RelativePath} {entSize : Bytes → Nat} {source : Source}

theorem genuine_lookup {now parent : Nat} {name : Bytes} {attr : FileAttr}
    (hok : lookup fromPath ((VerityVerifier.new infos).toFileVerifier p) source now parent name =
      .ok attr) :
    Genuine libs host s options (VerityVerifier.new infos) fromPath (.lookup parent name)
      (.entry attr) := by
  obtain ⟨_, relative, _, metadata, hparent, hname, hfile, hm, hattr⟩ := lookup_eq_ok hok
  obtain ⟨kind, hdir, rfl⟩ := lookupByIno_eq_some hparent
  obtain ⟨e, he, hpath, rfl⟩ := lookupByPath_eq_some hfile
  obtain ⟨hino, hsized⟩ := sized_of_getMetadata hpinned he hm hattr
  refine ⟨_, relative, located_of_lookup hpinned hdir, hname, ?_, hsized⟩
  have hlocated := located_of_lookup hpinned he
  rw [hpath, ← hino] at hlocated
  exact hlocated

theorem genuine_getattr {now ino : Nat} {attr : FileAttr}
    (hok : getattr ((VerityVerifier.new infos).toFileVerifier p) source now ino = .ok attr) :
    Genuine libs host s options (VerityVerifier.new infos) fromPath (.getattr ino) (.attr attr) := by
  obtain ⟨_, metadata, hfile, hm, hattr⟩ := getattr_eq_ok hok
  obtain ⟨kind, he, rfl⟩ := lookupByIno_eq_some hfile
  obtain ⟨hino, hsized⟩ := sized_of_getMetadata hpinned he hm hattr
  exact ⟨hino, ⟨_, located_of_lookup hpinned he⟩, hsized⟩

theorem genuine_readdir {ino : Nat} {offset : Int} {cap : Nat} {reply : List (DirEntry × Int)}
    (hok : readdir fromPath ((VerityVerifier.new infos).toFileVerifier p) source entSize ino offset
      cap = .ok reply) :
    Genuine libs host s options (VerityVerifier.new infos) fromPath (.readdir ino offset cap)
      (.directory reply) := by
  obtain ⟨entries, hentries, hsub⟩ := readdir_eq_ok hok
  obtain ⟨_, metadata, names, hfile, -, -, -, rfl⟩ := readdirEntries_eq_ok hentries
  obtain ⟨kind, he, rfl⟩ := lookupByIno_eq_some hfile
  refine ⟨_, located_of_lookup hpinned he, fun r hr => ?_⟩
  rcases List.mem_append.mp (hsub r hr) with hdot | hchild
  · exact .inl (mem_dotEntries hdot)
  · obtain ⟨name, -, hchild⟩ := List.mem_filterMap.mp hchild
    obtain ⟨relative, _, m, hname, hrname, hpath, hino, -, hcheck, htype⟩ :=
      childEntry_eq_some hchild
    obtain ⟨e, he', hepath, rfl⟩ := lookupByPath_eq_some hpath
    have hino' : r.1.ino = e.ino := hino
    refine .inr ⟨relative, hrname ▸ hname, ?_, fun hkind => ?_⟩
    · have hlocated := located_of_lookup hpinned he'
      rw [hepath, ← hino'] at hlocated
      exact hlocated
    · obtain ⟨content, hstands, -⟩ := standsFor_of_checked hpinned he' hcheck htype hkind
      exact ⟨content, hino' ▸ hstands⟩

theorem genuine_readlink {ino : Nat} {target : Bytes}
    (hok : readlink ((VerityVerifier.new infos).toFileVerifier p) source ino = .ok target) :
    Genuine libs host s options (VerityVerifier.new infos) fromPath (.readlink ino)
      (.link target) := by
  obtain ⟨_, object, hfile, -⟩ := readlink_eq_ok hok
  obtain ⟨kind, he, rfl⟩ := lookupByIno_eq_some hfile
  exact ⟨_, located_of_lookup hpinned he⟩

theorem genuine_openFile {S : Storage ρ θ} {ino : Nat} {reply : FuseReply} {self self' : VerityFS ρ θ}
    (hok : self.openFile ((VerityVerifier.new infos).toFileVerifier p) S ino = (.ok reply, self')) :
    Genuine libs host s options (VerityVerifier.new infos) fromPath (.openFile ino) reply := by
  unfold VerityFS.openFile at hok
  split at hok
  · cases hok
  · next file hfile =>
    obtain ⟨hreply, -⟩ := Prod.mk.inj hok
    obtain ⟨_, -, rfl⟩ := map_eq_ok hreply
    obtain ⟨kind, he, rfl⟩ := lookupByIno_eq_some hfile
    exact ⟨_, located_of_lookup hpinned he⟩

/-- A read, if the blocks of the file that were verified are blocks of its content. -/
theorem genuine_read {S : Storage ρ θ} {fuel ino : Nat} {offset : Int64} {size : UInt32}
    {data : Bytes} {self self' : VerityFS ρ θ}
    (hinv : VerityFS.Inv (Checked (VerityVerifier.new infos) p) self)
    (hblocks : ∀ info content,
      (VerityVerifier.new infos).lookupByIno ino = some ⟨ino, .verityEnabled info⟩ →
      Pinned libs host s options info content →
      ∀ i v, (⟨ino, i⟩, v) ∈ self'.verified → v = dataBlock defaultBlockSize content i)
    (hok : self.read ((VerityVerifier.new infos).toFileVerifier p) S fuel ino offset size =
      some (.ok data, self')) :
    Genuine libs host s options (VerityVerifier.new infos) fromPath (.read ino offset size)
      (.data data) := by
  unfold VerityFS.read at hok
  split at hok
  · cases hok
  · next file hfile =>
    obtain ⟨kind, he, rfl⟩ := lookupByIno_eq_some hfile
    cases kind with
    | directory path =>
      -- nothing is read of a directory
      rcases VerityFS.readFile_cases hok with ⟨-, ⟨hzero, hnil⟩ | ⟨e, he⟩⟩ | ⟨e, -, he⟩ |
        ⟨B, _, _, _, _, hB, _, _⟩
      · exact .inl ⟨hzero, Except.ok.inj hnil⟩
      · cases he
      · cases he
      · cases hB
    | verityEnabled info =>
      obtain ⟨content, hp⟩ := hpinned info (VerityVerifier.among_new infos _ _ he)
      refine .inr ⟨content, ⟨info, he, hp.recorded⟩, ?_⟩
      refine VerityFS.readFile_output (fun _ _ => checked_of_verify hfile) hinv ?_ hok
      intro B hB hbs i v hv
      obtain rfl : B = defaultBlockSize :=
        FsEntry.blockSize_genuine ino (by decide) hp.blockSize hB hbs
      exact hblocks info content he hp i v hv

end

end

/-! ## Verified blocks -/

section
variable {host : Host σ η} {s : σ} {options : FormatOptions} {infos : List (FileVerityInfo h)}

/-- A block that was verified for a pinned record is the one of the content, if no length is wrong. -/
theorem Pinned.eq_of_checked {info : FileVerityInfo h} {content : Bytes}
    (hp : Pinned libs host s options info content) {ino i : Nat} {raw : Bytes}
    (he : (VerityVerifier.new infos).lookupByIno ino = some ⟨ino, .verityEnabled info⟩)
    (hchecked : Checked (VerityVerifier.new infos) p ⟨ino, i⟩ raw)
    {blocks : List (BlockKey × Bytes)} (hmem : (⟨ino, i⟩, raw) ∈ blocks)
    (hshape : ¬Misshapen (VerityVerifier.new infos) blocks ino) {M M' : Bytes} :
    raw = dataBlock defaultBlockSize content i ∨
      Collides h (hashInputs libs M (formatContents host s options))
        (mountInputs libs M' infos blocks) := by
  obtain ⟨info', he', hverified⟩ := hchecked
  obtain rfl : info = info' := by
    have hsame := he.symm.trans he'
    cases hsame
    rfl
  have hcount : ¬Miscounted info := fun hm => hshape ⟨info, he, .inl hm⟩
  have hfit : ¬Misfit info i raw := fun hm => hshape ⟨info, he, .inr ⟨i, raw, hmem, hm⟩⟩
  have htree := (FsEntry.verifyDataBlock_iff hp.blockSize).mp hverified
  refine (hp.eq_dataBlock hcount htree hfit).imp_right fun hcol =>
    hcol.mono (measureInputs_subset_hashInputs _ hp.mem) fun x hx => ?_
  -- the hashed strings are those of the record and the block
  rcases List.mem_append.mp hx with hx | hx
  · refine List.mem_append_left _ (List.mem_append_right _ ?_)
    exact List.mem_flatMap.mpr ⟨info, VerityVerifier.among_new _ _ _ he, hx⟩
  · rw [List.mem_singleton.mp hx]
    exact List.mem_append_right _ (List.mem_map.mpr ⟨_, hmem, rfl⟩)

end

/-! ## The table of a mount -/

section
variable {infos : List (FileVerityInfo h)}

/-- The files of a mount whose records are for blocks of the default size. -/
def mountTable (infos : List (FileVerityInfo h)) (p : Profile)
    (hbs : ∀ info ∈ infos, info.descriptor.blockSize p = some defaultBlockSize) : FileTable where
  files := {file | ∃ ino info, (VerityVerifier.new infos).lookupByIno ino =
    some ⟨ino, .verityEnabled info⟩ ∧ file = (FsEntry.mk ino (.verityEnabled info)).toVerifiableFile p}
  blockSize _ := defaultBlockSize
  ino_inj := by
    rintro _ ⟨i, info, he, rfl⟩ _ ⟨j, info', he', rfl⟩ hij
    obtain rfl : i = j := hij
    cases he.symm.trans he'
    rfl
  blockSize_eq := by
    rintro _ ⟨i, info, he, rfl⟩
    show (info.descriptor.blockSize p).bind (fun blockSize => some (some (blockSize % 2 ^ 32))) = _
    rw [hbs info (VerityVerifier.among_new infos _ _ he)]
    rfl
  blockSize_pos _ _ := by decide
  blockSize_le _ _ := by decide
  verify_total := by
    rintro _ ⟨i, info, he, rfl⟩ j data
    exact FsEntry.verifyDataBlock_total j data (hbs info (VerityVerifier.among_new infos _ _ he))

theorem mountTable_covers (hbs : ∀ info ∈ infos, info.descriptor.blockSize p = some defaultBlockSize)
    (ino : Nat) (file : VerifiableFile)
    (hfile : ((VerityVerifier.new infos).toFileVerifier p).lookupByIno ino = some file) :
    VerityFS.Served (mountTable infos p hbs) file := by
  obtain ⟨kind, he, rfl⟩ := lookupByIno_eq_some hfile
  cases kind with
  | verityEnabled info => exact .inl ⟨ino, info, he, rfl⟩
  | directory path =>
    refine .inr ⟨rfl, ?_⟩
    rintro _ ⟨j, info, he', rfl⟩ hij
    obtain rfl : j = ino := hij
    cases he.symm.trans he'

end

/-! ## Sessions -/

section
variable {host : Host σ η} {s : σ} {options : FormatOptions} {out : FormatOutput σ}
  {host' : MountHost σ' η'} {s' : σ'} {options' : OpenOptions} {mount : MountedFs h}
  {fromPath : Bytes → Option RelativePath} {entSize : Bytes → Nat} {S : Storage ρ θ} {fuel : Nat}
  {storage : ρ} {session : List (Moment × FuseRequest)} {replies : List (Except Errno FuseReply)}
  {fs' : VerityFS ρ θ}

/-- **A mount serves what was formatted.** `format` made a root hash, and `open` accepts whatever
metadata it finds under it. Then in every session, whatever the storage does, each successful reply
is about the files that were formatted, or it is data and a length is wrong that is not checked for
that file; or two different strings, hashed for the one and for the other, have one digest. -/
theorem open_serves (hformat : (format libs p host s options).run = some (.ok out))
    (hopen : (OpenCommand.run libs p' host' s' options').run = some (.ok mount))
    (hhash : options'.hash = out.rootHash)
    (hserve : VerityFS.serve fromPath entSize (mount.verifier.toFileVerifier p') S fuel session
      (mount.initial storage) = some (replies, fs')) :
    ∃ M metadata, host'.read s' options'.metadataPath = .ok M ∧
      (deserializeMetadata libs M).run = some (.ok metadata) ∧
      ((∀ (k : Nat) (moment : Moment) (request : FuseRequest) (reply : FuseReply),
          session[k]? = some (moment, request) → replies[k]? = some (.ok reply) →
          Genuine libs host s options mount.verifier fromPath request reply ∨
            ∃ ino offset size, request = .read ino offset size ∧
              Misshapen mount.verifier fs'.verified ino) ∨
        Collides h (hashInputs libs out.metadata (formatContents host s options))
          (mountInputs libs M metadata.fileInfos fs'.verified)) := by
  obtain ⟨M, metadata, hM, hroot, hmetadata, hself, rfl⟩ := OpenCommand.run_eq_ok hopen
  rw [hhash] at hroot
  refine ⟨M, metadata, hM, hmetadata, ?_⟩
  by_cases hcol : Collides h (hashInputs libs out.metadata (formatContents host s options))
      (mountInputs libs M metadata.fileInfos fs'.verified)
  · exact .inr hcol
  refine .inl fun k moment request reply hk hreply => ?_
  have hpinned (info : FileVerityInfo h) (hinfo : info ∈ metadata.fileInfos) :
      ∃ content, Pinned libs host s options info content :=
    (pinned_of_rootHash hformat hroot hmetadata hinfo (hself info hinfo) fs'.verified).resolve_right
      hcol
  obtain ⟨hinv', -, hreplies⟩ := VerityFS.serve_reply
    (fun _ _ hfile _ _ => checked_of_verify (p := p') hfile) (VerityFS.inv_new _ _ _) hserve
  obtain ⟨before, after, hinv, hhandle, hsub⟩ := hreplies k moment request _ hk hreply
  cases request with
  | lookup parent name =>
    obtain ⟨hr, -⟩ := Prod.mk.inj (Option.some.inj hhandle)
    obtain ⟨attr, hok, rfl⟩ := map_eq_ok hr
    exact .inl (genuine_lookup hpinned hok)
  | getattr ino =>
    obtain ⟨hr, -⟩ := Prod.mk.inj (Option.some.inj hhandle)
    obtain ⟨attr, hok, rfl⟩ := map_eq_ok hr
    exact .inl (genuine_getattr hpinned hok)
  | read ino offset size =>
    obtain ⟨⟨answer, fs₁⟩, hok, heq⟩ := Option.map_eq_some_iff.mp hhandle
    obtain ⟨hr, rfl⟩ := Prod.mk.inj heq
    obtain ⟨data, rfl, rfl⟩ := map_eq_ok hr
    by_cases hshape : Misshapen (VerityVerifier.new metadata.fileInfos) fs'.verified ino
    · exact .inr ⟨ino, offset, size, rfl, hshape⟩
    refine .inl (genuine_read hpinned hinv (fun info content he hp i v hv => ?_) hok)
    have hchecked := hinv'.checked _ (hsub hv)
    exact (hp.eq_of_checked he hchecked (hsub hv) hshape).resolve_right hcol
  | readdir ino offset cap =>
    obtain ⟨hr, -⟩ := Prod.mk.inj (Option.some.inj hhandle)
    obtain ⟨entries, hok, rfl⟩ := map_eq_ok hr
    exact .inl (genuine_readdir hpinned hok)
  | openFile ino => exact .inl (genuine_openFile hpinned (Option.some.inj hhandle))
  | readlink ino =>
    obtain ⟨hr, -⟩ := Prod.mk.inj (Option.some.inj hhandle)
    obtain ⟨target, hok, rfl⟩ := map_eq_ok hr
    exact .inl (genuine_readlink hpinned hok)

/-- The host of `oneHost` with a directory to mount at. -/
def oneMountHost : MountHost Unit Unit where
  toHost := oneHost
  pathExists _ _ := true
  isDir _ _ := true
  canonicalize _ path := .ok path
  mountInfo _ := .ok []
  openDir _ _ := .ok ()

def oneOpen (h : Bytes → List.Vector UInt8 32) : OpenOptions :=
  ⟨utf8 "d", utf8 "mnt", hexEncode (h [2]).toList, some (utf8 "m"), 8⟩

/-- Storage on which every file is that file. -/
def twoBlockFiles (_ : RelativePath) : Option Bytes := some twoBlocks

/-- The file is opened, and its second block is read. -/
def oneSession : List (Moment × FuseRequest) :=
  [(⟨0, .ofObjects fun _ => .error none⟩, .openFile 2),
    (⟨1, .ofObjects fun _ => .error none⟩, .read 2 4096 1)]

theorem mountable_oneMountHost : Mountable oneMountHost () (oneOpen h) :=
  ⟨rfl, rfl, rfl, rfl, rfl, rfl⟩

theorem read_oneMountHost : oneMountHost.read () (oneOpen h).metadataPath = .ok [1] := by
  have hother : utf8 "m" ≠ utf8 "d/f" := by decide +kernel
  show (if utf8 "m" = utf8 "d/f" then Except.ok twoBlocks else Except.ok [1]) = _
  rw [if_neg hother]

theorem recordedFiles_oneHost : recordedFiles oneHost () oneFormat = [⟨[utf8 "f"], true⟩] := by
  decide +kernel

theorem open_serves_two_blocks :
    ∃ (info : FileVerityInfo FsVerityDigest.lengthHash) (mount : MountedFs FsVerityDigest.lengthHash)
      (replies : List (Except Errno FuseReply)) (fs' : VerityFS Unit Bytes),
      (format (singleLibs info) .release oneHost () oneFormat).run =
        some (.ok ⟨(), [1], (oneOpen FsVerityDigest.lengthHash).hash⟩) ∧
      (OpenCommand.run (singleLibs info) .release oneMountHost ()
        (oneOpen FsVerityDigest.lengthHash)).run = some (.ok mount) ∧
      VerityFS.serve (fun _ => none) List.length (mount.verifier.toFileVerifier .release)
        (memoryStorage twoBlockFiles) (2 ^ 30 + 1) oneSession (mount.initial ()) =
          some (replies, fs') ∧
      ∃ M metadata, oneMountHost.read () (oneOpen FsVerityDigest.lengthHash).metadataPath = .ok M ∧
        (deserializeMetadata (singleLibs info) M).run = some (.ok metadata) ∧
        ((∀ (k : Nat) (moment : Moment) (request : FuseRequest) (reply : FuseReply),
            oneSession[k]? = some (moment, request) → replies[k]? = some (.ok reply) →
            Genuine (singleLibs info) oneHost () oneFormat mount.verifier (fun _ => none) request
                reply ∨
              ∃ ino offset size, request = .read ino offset size ∧
                Misshapen mount.verifier fs'.verified ino) ∨
          Collides FsVerityDigest.lengthHash
            (hashInputs (singleLibs info) [1] (formatContents oneHost () oneFormat))
            (mountInputs (singleLibs info) M metadata.fileInfos fs'.verified)) := by
  obtain ⟨info, m, hpath, hrun, hm, hhash, hself⟩ := exists_oneInfo FsVerityDigest.lengthHash
    length_twoBlocks
  have hformat : (format (singleLibs info) .release oneHost () oneFormat).run =
      some (.ok ⟨(), [1], hexEncode (FsVerityDigest.lengthHash [2]).toList⟩) :=
    format_single hpath hrun hm hhash rfl recordedFiles_oneHost rfl rfl rfl rfl
  obtain ⟨metadata, hmetadata, hinfos⟩ := deserializeMetadata_single info
  have hopen := OpenCommand.run_of_ok mountable_oneMountHost read_oneMountHost
    (calculateMetadataHash_single info) hmetadata
    (by rw [hinfos]; exact List.forall_mem_singleton.mpr hself)
  obtain ⟨-, -, hbs, -⟩ := FileVerityInfo.genuine_inv hrun .release
  have hbs' : ∀ i ∈ metadata.fileInfos, i.descriptor.blockSize .release = some defaultBlockSize := by
    rw [hinfos]
    exact List.forall_mem_singleton.mpr hbs
  have hfuel : 2 ^ 30 + (memoryStorageHonest twoBlockFiles).budget () < 2 ^ 30 + 1 := by decide
  obtain ⟨replies, fs', hserve, -⟩ := VerityFS.serve_returns (fun _ => none) List.length
    (mountTable_covers hbs') oneSession
    (VerityFS.coherent_new hfuel (oneOpen FsVerityDigest.lengthHash).blockCacheCapacity
      defaultHandleCacheSize)
  exact ⟨info, _, replies, fs', hformat, hopen, hserve, open_serves hformat hopen rfl hserve⟩

end

end CryptPilot.Verity
