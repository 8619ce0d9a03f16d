import CryptPilot.Verity.Metadata

/-!
# The commands `format` and `verify`

`cmd/format.rs` and `cmd/verify.rs`, on a host with a file system of which nothing is assumed: a
state, and the operations the commands use. An error is the message that is printed.

Paths are strings of bytes, as the operating system has them.
-/

namespace CryptPilot.Verity

open CryptPilot.Data CryptPilot.VerityCore CryptPilot.VerityFuse

abbrev PathBuf := Bytes

/-- `Path::join`: an absolute path replaces the one it is joined to. -/
def join (base path : PathBuf) : PathBuf :=
  if path.head? = some 47 then path
  else if base.getLast?.any (· ≠ 47) then base ++ 47 :: path
  else base ++ path

/-- `DEFAULT_METADATA_FILE`. -/
def defaultMetadataFile : PathBuf := utf8 "cryptpilot-verity.metadata.fb"

/-- What `WalkDir` finds below the directory it walks: the names on the way to an entry, and whether
its type could be determined and is that of a regular file. -/
structure WalkEntry where
  components : List Bytes
  isFile : Bool
  deriving DecidableEq

namespace WalkEntry

/-- The path below the directory. -/
def relative (self : WalkEntry) : PathBuf := [47].intercalate self.components

/-- `Path::file_name`. -/
def fileName (self : WalkEntry) : Option Bytes := self.components.getLast?

end WalkEntry

/-- A host: states of its file system, and what the commands do with them. -/
structure Host (σ η : Type) where
  /-- `fs::metadata(..).is_ok()` -/
  metadataOk : σ → PathBuf → Bool
  read : σ → PathBuf → Except String Bytes
  write : σ → PathBuf → Bytes → Except String σ
  walkDir : σ → PathBuf → List (Except String WalkEntry)
  openFile : σ → PathBuf → Except String η
  mmap : σ → η → Except String Bytes

variable {h : Bytes → List.Vector UInt8 32} {σ η : Type}

/-! ## `format` -/

structure FormatOptions where
  dataDir : PathBuf
  metadata : Option PathBuf
  hashOutput : PathBuf
  force : Bool
  labels : List (String × String)

/-- `collect_files`. The loop ends at the first entry that cannot be read. -/
def collectFiles : List (Except String WalkEntry) → List WalkEntry
  | [] => []
  | .error _ :: _ => []
  | .ok entry :: entries =>
    if entry.fileName = some defaultMetadataFile then collectFiles entries
    else if entry.isFile then entry :: collectFiles entries
    else collectFiles entries

/-- The files that `format` records, in the order of their paths. -/
def recordedFiles (host : Host σ η) (s : σ) (options : FormatOptions) : List WalkEntry :=
  (collectFiles (host.walkDir s options.dataDir)).mergeSort
    fun a b => decide (a.components ≤ b.components)

/-- The record that `format` makes of one file. -/
def formatFile (libs : Libs h) (p : Profile) (host : Host σ η) (s : σ) (options : FormatOptions)
    (file : WalkEntry) : ExceptT String Option (FileVerityInfo h) := do
  let content ← liftExcept (host.read s (join options.dataDir file.relative))
  let (descriptor, merkleTree) ← (calculateFsverityHash h p content : Option _)
  let pathStr := libs.toStringLossy file.relative
  let hash ← (descriptor.toDescriptorHash : Option _)
  return ⟨pathStr, descriptor, merkleTree, hexEncode hash.toList⟩

/-- What `format` leaves behind: the state of the host, the metadata and the root hash. -/
structure FormatOutput (σ : Type) where
  state : σ
  metadata : Bytes
  rootHash : String

/-- `FormatCommand::run`. For the output `-` the root hash is printed. -/
def format (libs : Libs h) (p : Profile) (host : Host σ η) (s : σ) (options : FormatOptions) :
    ExceptT String Option (FormatOutput σ) := do
  let metadataPath := options.metadata.getD (join options.dataDir defaultMetadataFile)
  if host.metadataOk s metadataPath && !options.force then
    throw ("Metadata file already exists at " ++ libs.debug metadataPath ++
      ". Refusing to overwrite. Re-run with --force to regenerate metadata.")
  else do
    let fileInfos ← (recordedFiles host s options).mapM (formatFile libs p host s options)
    let labels : Labels := options.labels.foldl (fun labels (key, value) => labels.insert key value) ∅
    let fbData ← (serializeMetadata libs fileInfos labels : Option _)
    let s ← liftExcept (host.write s metadataPath fbData)
    let rootHash ← liftExcept (calculateMetadataHash libs fbData)
    if options.hashOutput = utf8 "-" then return ⟨s, fbData, rootHash⟩
    else do
      let s ← liftExcept (host.write s options.hashOutput (utf8 rootHash))
      return ⟨s, fbData, rootHash⟩

/-! ## `verify` -/

structure VerifyOptions where
  dataDir : PathBuf
  hash : String
  metadata : Option PathBuf
  metadataOnly : Bool

/-- Where `verify` reads the metadata. -/
def VerifyOptions.metadataPath (options : VerifyOptions) : PathBuf :=
  options.metadata.getD (join options.dataDir defaultMetadataFile)

/-- Where `verify` looks for a recorded file. -/
def VerifyOptions.filePath (options : VerifyOptions) (path : String) : PathBuf :=
  join options.dataDir (utf8 path)

/-- The check of one file against its record. -/
def verifyFile (libs : Libs h) (p : Profile) (host : Host σ η) (s : σ) (options : VerifyOptions)
    (info : FileVerityInfo h) : ExceptT String Option Unit := do
  let filePath := options.filePath info.path
  let file ← liftExcept ((host.openFile s filePath).mapError
    fun e => "Failed to open file " ++ libs.debug filePath ++ ": " ++ e)
  let mmap ← liftExcept (host.mmap s file)
  let (calculatedDescriptor, _) ← (calculateFsverityHash h p mmap : Option _)
  let hash ← (calculatedDescriptor.toDescriptorHash : Option _)
  let calculatedDescriptorHash := hexEncode hash.toList
  if calculatedDescriptorHash ≠ info.descriptorHash then
    throw s!"File descriptor hash mismatch for {info.path}. Expected: {info.descriptorHash}, Actual: {calculatedDescriptorHash}"
  else return ()

/-- `VerifyCommand::run`. -/
def verify (libs : Libs h) (p : Profile) (host : Host σ η) (s : σ) (options : VerifyOptions) :
    ExceptT String Option Unit := do
  let metadataBytes ← liftExcept (host.read s options.metadataPath)
  let rootHash ← liftExcept (calculateMetadataHash libs metadataBytes)
  if rootHash ≠ options.hash then
    throw s!"Root hash mismatch. Expected: {options.hash}, Actual: {rootHash}"
  else do
    let metadataInfo ← deserializeMetadata libs metadataBytes
    metadataInfo.fileInfos.forM fun info => ExceptT.mk (info.verifySelf p)
    if options.metadataOnly then return ()
    else metadataInfo.fileInfos.forM (verifyFile libs p host s options)

end CryptPilot.Verity
