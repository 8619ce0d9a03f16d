import CryptPilot.Verity.RoundTrip
import CryptPilot.VerityFuse.Session

/-!
# The commands `open` and `dump`

`cmd/open.rs`, `cmd/dump.rs` and the check for mounts in `cmd/mod.rs`. `open` checks the metadata
against a root hash, and each record against itself, and then serves the directory; the files
themselves are not looked at before they are read.
-/

namespace CryptPilot.Verity

open CryptPilot.Data CryptPilot.VerityCore CryptPilot.VerityFuse

variable {h : Bytes → List.Vector UInt8 32} {σ η : Type}

/-! ## Mounts -/

def fuseFsName : String := "verity-fuse"

def fuseSubtype : String := "verity-fuse"

/-- `mountinfo2::FsType`: the types it has a constructor for, and the others by their name. -/
inductive FsType where
  | known (name : String)
  | other (name : String)
  deriving DecidableEq

/-- A line of the table of mounts. -/
structure MountPoint where
  path : PathBuf
  what : String
  fstype : FsType
  deriving DecidableEq

/-- A host on which directories are mounted. -/
structure MountHost (σ η : Type) extends Host σ η where
  pathExists : σ → PathBuf → Bool
  isDir : σ → PathBuf → Bool
  canonicalize : σ → PathBuf → Except String PathBuf
  mountInfo : σ → Except String (List MountPoint)
  /-- `Dir::open_ambient_dir` -/
  openDir : σ → PathBuf → Except String Unit

/-- A file system of this program, mounted at a path. -/
def MountPoint.isVerityFuse (self : MountPoint) (path : PathBuf) : Bool :=
  self.path = path &&
    match self.fstype with
    | .known _ => false
    | .other fstype =>
      (fstype = "fuse" || fstype = s!"fuse.{fuseSubtype}") && self.what = fuseFsName

def isMounted (host : MountHost σ η) (s : σ) (mountPoint : PathBuf) : Except String Bool :=
  Except.mapError ("Failed to check if mounted: " ++ ·) do
    let canonicalMountPoint ← host.canonicalize s mountPoint
    let mountinfo ← host.mountInfo s
    return mountinfo.any (·.isVerityFuse canonicalMountPoint)

/-! ## `open` -/

structure OpenOptions where
  dataDir : PathBuf
  mountPoint : PathBuf
  hash : String
  metadata : Option PathBuf
  blockCacheCapacity : Nat

/-- Where `open` reads the metadata. -/
def OpenOptions.metadataPath (options : OpenOptions) : PathBuf :=
  options.metadata.getD (join options.dataDir defaultMetadataFile)

/-- What is handed to `fuser::mount2`. -/
structure MountedFs (h : Bytes → List.Vector UInt8 32) where
  source : PathBuf
  mountPoint : PathBuf
  verifier : VerityVerifier h
  blockCacheCapacity : Nat

/-- The state in which it is mounted. -/
def MountedFs.initial (self : MountedFs h) (storage : σ) : VerityFS σ η :=
  VerityFS.new storage self.blockCacheCapacity defaultHandleCacheSize

def bailIf (condition : Bool) (message : String) : ExceptT String Option Unit :=
  if condition then throw message else return ()

/-- The self-check of a record, with the path in front of its error. -/
def verifyRecord (p : Profile) (info : FileVerityInfo h) : ExceptT String Option Unit :=
  ExceptT.mk ((info.verifySelf p).map fun r =>
    r.mapError fun e => s!"Metadata verification failed for {info.path}: {e}")

/-- `mount_verity_fuse`, up to the call that blocks. -/
def mountVerityFuse (host : MountHost σ η) (s : σ) (options : OpenOptions)
    (fileInfos : List (FileVerityInfo h)) : Except String (MountedFs h) := do
  let verifier := VerityVerifier.new fileInfos
  host.openDir s options.dataDir
  return ⟨options.dataDir, options.mountPoint, verifier, options.blockCacheCapacity⟩

/-- `OpenCommand::run`. -/
def OpenCommand.run (libs : Libs h) (p : Profile) (host : MountHost σ η) (s : σ)
    (options : OpenOptions) : ExceptT String Option (MountedFs h) := do
  bailIf (!host.pathExists s options.dataDir)
    ("Data directory does not exist: " ++ libs.debug options.dataDir)
  bailIf (!host.isDir s options.dataDir)
    ("Data directory is not a directory: " ++ libs.debug options.dataDir)
  bailIf (!host.pathExists s options.mountPoint)
    ("Mount point does not exist: " ++ libs.debug options.mountPoint)
  bailIf (!host.isDir s options.mountPoint)
    ("Mount point is not a directory: " ++ libs.debug options.mountPoint)
  let mounted ← liftExcept (isMounted host s options.mountPoint)
  bailIf mounted ("The mount point is already mounted with a verity-fuse filesystem: " ++
    libs.debug options.mountPoint)
  let metadataBytes ← liftExcept (host.read s options.metadataPath)
  let rootHash ← liftExcept (calculateMetadataHash libs metadataBytes)
  bailIf (rootHash ≠ options.hash)
    s!"Metadata hash mismatch. Expected: {options.hash}, Actual: {rootHash}"
  let metadataInfo ← deserializeMetadata libs metadataBytes
  metadataInfo.fileInfos.forM (verifyRecord p)
  liftExcept (mountVerityFuse host s options metadataInfo.fileInfos)

/-! ## `dump` -/

structure DumpOptions where
  dataDir : Option PathBuf
  metadata : Option PathBuf
  printMetadata : Bool
  printRootHash : Bool
  printLabel : Option String
  printLabels : Bool

def DumpOptions.metadataPath (options : DumpOptions) : Except String PathBuf :=
  match options.metadata, options.dataDir with
  | some metadata, _ => .ok metadata
  | none, some dataDir => .ok (join dataDir defaultMetadataFile)
  | none, none => .error "Either data-dir or --metadata must be specified"

def labelLine (label : String × String) : String := s!"{label.1}={label.2}"

/-- The lines for one file. -/
def dumpFile (p : Profile) (info : FileVerityInfo h) : Option (List String) := do
  let blockSize ← info.descriptor.blockSize p
  let salt := if info.descriptor.salt = [] then []
    else ["    Salt: " ++ hexEncode info.descriptor.salt]
  return [s!"File: {info.path}",
    s!"  Descriptor Hash: {info.descriptorHash}",
    "  FsVerity Descriptor:",
    s!"    Version: {info.descriptor.version}",
    s!"    Hash Algorithm: {info.descriptor.hashAlgorithm} (1=SHA256, 2=SHA512)",
    s!"    Block Size: {blockSize} bytes",
    s!"    Data Size: {info.descriptor.dataSize} bytes",
    "    Root Hash: " ++ hexEncode info.descriptor.rootHash.toList] ++ salt ++
    [s!"    Merkle Tree Level 1 Size: {info.merkleTree.level1AsBytes.length} bytes", ""]

/-- The lines for `--print-metadata`. -/
def dumpMetadata (p : Profile) (metadata : MetadataInfo h) : Option (List String) := do
  let labels := if metadata.labels.isEmpty then []
    else "" :: "Labels:" :: metadata.labels.toList.map fun label => "  " ++ labelLine label
  let files ← metadata.fileInfos.mapM (dumpFile p)
  return ["Metadata contents:", s!"Total files: {metadata.fileInfos.length}"] ++ labels ++ [""] ++
    files.flatten

/-- `DumpCommand::run`: the lines that are printed. -/
def DumpCommand.run (libs : Libs h) (p : Profile) (host : Host σ η) (s : σ) (options : DumpOptions) :
    ExceptT String Option (List String) := do
  let metadataPath ← liftExcept options.metadataPath
  let metadataBytes ← liftExcept (host.read s metadataPath)
  if options.printRootHash then do
    let rootHash ← liftExcept (calculateMetadataHash libs metadataBytes)
    return [rootHash]
  else if options.printMetadata then do
    let metadataInfo ← deserializeMetadata libs metadataBytes
    liftM (dumpMetadata p metadataInfo)
  else match options.printLabel with
    | some key => do
      let metadataInfo ← deserializeMetadata libs metadataBytes
      match metadataInfo.labels[key]? with
      | some value => return [value]
      | none => throw s!"label key '{key}' not found"
    | none =>
      if options.printLabels then do
        let metadataInfo ← deserializeMetadata libs metadataBytes
        return if metadataInfo.labels.isEmpty then ["(no labels)"]
          else metadataInfo.labels.toList.map labelLine
      else throw "Either --print-root-hash, --print-metadata, --print-label, or --print-labels must be specified"

/-! ## What a successful `open` says -/

section
variable {libs : Libs h} {p : Profile} {host : MountHost σ η} {s : σ} {options : OpenOptions}

theorem run_bailIf {condition : Bool} {message : String}
    (hr : (bailIf condition message).run = some (.ok ())) : condition = false := by
  cases condition with
  | false => rfl
  | true => cases hr

theorem run_bailIf_false {message : String} : (bailIf false message).run = some (.ok ()) := rfl

theorem verifyRecord_ok_iff {info : FileVerityInfo h} :
    (verifyRecord p info).run = some (.ok ()) ↔ info.verifySelf p = some (.ok ()) := by
  constructor
  · intro hr
    obtain ⟨r, hself, hr⟩ := Option.map_eq_some_iff.mp hr
    rw [hself, mapError_eq_ok hr]
  · intro hself
    show (info.verifySelf p).map _ = _
    rw [hself]
    rfl

/-- The metadata has the root hash, and every record passes its self-check. -/
theorem OpenCommand.run_eq_ok {mount : MountedFs h}
    (hopen : (OpenCommand.run libs p host s options).run = some (.ok mount)) :
    ∃ bytes info, host.read s options.metadataPath = .ok bytes ∧
      calculateMetadataHash libs bytes = .ok options.hash ∧
      (deserializeMetadata libs bytes).run = some (.ok info) ∧
      (∀ i ∈ info.fileInfos, i.verifySelf p = some (.ok ())) ∧
      mount = ⟨options.dataDir, options.mountPoint, VerityVerifier.new info.fileInfos,
        options.blockCacheCapacity⟩ := by
  obtain ⟨_, -, hopen⟩ := run_bind_eq_ok hopen
  obtain ⟨_, -, hopen⟩ := run_bind_eq_ok hopen
  obtain ⟨_, -, hopen⟩ := run_bind_eq_ok hopen
  obtain ⟨_, -, hopen⟩ := run_bind_eq_ok hopen
  obtain ⟨mounted, -, hopen⟩ := run_bind_eq_ok hopen
  obtain ⟨_, -, hopen⟩ := run_bind_eq_ok hopen
  obtain ⟨bytes, hbytes, hopen⟩ := run_bind_eq_ok hopen
  obtain ⟨rootHash, hroot, hopen⟩ := run_bind_eq_ok hopen
  obtain ⟨_, hsame, hopen⟩ := run_bind_eq_ok hopen
  obtain ⟨info, hinfo, hopen⟩ := run_bind_eq_ok hopen
  obtain ⟨_, hself, hopen⟩ := run_bind_eq_ok hopen
  obtain ⟨_, -, hmount⟩ := bind_eq_ok (liftExcept_eq_ok hopen)
  have hhash : rootHash = options.hash := by simpa using run_bailIf hsame
  refine ⟨bytes, info, liftExcept_eq_ok hbytes, hhash ▸ liftExcept_eq_ok hroot, hinfo, ?_, ?_⟩
  · exact fun i hi => verifyRecord_ok_iff.mp (run_forM_eq_ok hself i hi)
  · cases hmount
    rfl

/-- Both directories are there, and nothing of this program is mounted at the mount point. -/
structure Mountable (host : MountHost σ η) (s : σ) (options : OpenOptions) : Prop where
  dataDir_exists : host.pathExists s options.dataDir = true
  dataDir_isDir : host.isDir s options.dataDir = true
  mountPoint_exists : host.pathExists s options.mountPoint = true
  mountPoint_isDir : host.isDir s options.mountPoint = true
  not_mounted : isMounted host s options.mountPoint = .ok false
  opens : host.openDir s options.dataDir = .ok ()

theorem OpenCommand.run_of_ok {bytes : Bytes} {info : MetadataInfo h}
    (hready : Mountable host s options) (hbytes : host.read s options.metadataPath = .ok bytes)
    (hroot : calculateMetadataHash libs bytes = .ok options.hash)
    (hinfo : (deserializeMetadata libs bytes).run = some (.ok info))
    (hself : ∀ i ∈ info.fileInfos, i.verifySelf p = some (.ok ())) :
    (OpenCommand.run libs p host s options).run = some (.ok ⟨options.dataDir, options.mountPoint,
      VerityVerifier.new info.fileInfos, options.blockCacheCapacity⟩) := by
  have hselfs : (info.fileInfos.forM (verifyRecord p)).run = some (.ok ()) :=
    run_forM_of_ok fun i hi => verifyRecord_ok_iff.mpr (hself i hi)
  rw [OpenCommand.run, hready.dataDir_exists, hready.dataDir_isDir, hready.mountPoint_exists,
    hready.mountPoint_isDir]
  simp only [Bool.not_true, run_bind_of_ok run_bailIf_false]
  rw [run_bind_of_ok (run_liftExcept_ok hready.not_mounted), run_bind_of_ok run_bailIf_false,
    run_bind_of_ok (run_liftExcept_ok hbytes), run_bind_of_ok (run_liftExcept_ok hroot)]
  simp only [ne_eq, not_true_eq_false, decide_false, run_bind_of_ok run_bailIf_false]
  rw [run_bind_of_ok hinfo, run_bind_of_ok hselfs, mountVerityFuse, hready.opens]
  rfl

end

end CryptPilot.Verity
