import CryptPilot.Data.Except
import CryptPilot.VerityFuse.FileVerityInfo
import Mathlib.Data.String.Basic
import Std.Data.ExtTreeMap

/-!
# Metadata

`metadata/mod.rs`: the records of all files of a directory, as a FlatBuffers buffer, and the root
hash over them. Only paths and descriptor hashes enter the root hash.

What comes from libraries is a parameter, `Libs`: the FlatBuffers builder and reader, canonical
JSON, the unstable sort, and how paths become text.
-/

namespace CryptPilot.Verity

open CryptPilot.Data CryptPilot.VerityCore CryptPilot.VerityFuse

variable {h : Bytes → List.Vector UInt8 32}

/-- `String::as_bytes`. -/
def utf8 (s : String) : Bytes := s.toUTF8.data.toList

/-! ## The schema -/

/-- The table `FsVerityDescriptor`. A vector may be missing; a number has a default. -/
structure DescriptorTable where
  version : UInt8
  hashAlgorithm : UInt8
  logBlocksize : UInt8
  dataSize : UInt64
  rootHash : Option Bytes
  salt : Option Bytes
  deriving DecidableEq

/-- The table `FileInfo`. -/
structure FileInfoTable where
  path : Option String
  descriptor : Option DescriptorTable
  merkleTreeLevel1 : Option Bytes
  descriptorHash : Option String
  deriving DecidableEq

/-- The table `KeyValue`. -/
structure KeyValueTable where
  key : Option String
  value : Option String
  deriving DecidableEq

/-- The table `Metadata`, the root of a buffer. -/
structure MetadataTable where
  version : UInt32
  files : Option (List FileInfoTable)
  labels : Option (List KeyValueTable)
  deriving DecidableEq

/-- One entry of the document that is hashed. -/
structure FileHashJsonEntry where
  descriptorHash : String
  path : String
  deriving DecidableEq

abbrev Labels := Std.ExtTreeMap String String

/-! ## Libraries -/

/-- Library functions.

* `finish` builds a buffer and `root` verifies and reads one; both have limits (`none`: the builder
  panics). What is read from a buffer that was built is what was written.
* `canonJson` is `to_canon_json_vec` on the document with the given entries. It is injective.
* `sortUnstable` is `sort_unstable_by_key` by path: it sorts, entries with one path in any order.
* `toStringLossy` reads bytes as text, which is exact if they are UTF-8; `debug` prints a path. -/
structure Libs (h : Bytes → List.Vector UInt8 32) where
  finish : MetadataTable → Option Bytes
  root : Bytes → Except String MetadataTable
  root_finish : ∀ {table buffer table'}, finish table = some buffer →
    root buffer = .ok table' → table' = table
  canonJson : List FileHashJsonEntry → Except String Bytes
  canonJson_inj : ∀ {entries entries' json}, canonJson entries = .ok json →
    canonJson entries' = .ok json → entries = entries'
  sortUnstable : List (FileVerityInfo h) → List (FileVerityInfo h)
  sortUnstable_perm : ∀ infos, (sortUnstable infos).Perm infos
  sortUnstable_sorted : ∀ infos, (sortUnstable infos).Pairwise fun a b => a.path ≤ b.path
  toStringLossy : Bytes → String
  toStringLossy_utf8 : ∀ s : String, toStringLossy (utf8 s) = s
  debug : Bytes → String

/-! ## Measuring -/

/-- `calculate_fsverity_hash`: without salt, in blocks of the default size. -/
def calculateFsverityHash (h : Bytes → List.Vector UInt8 32) (p : Profile) (data : Bytes) :
    Option (FsVerityDescriptor (sha256 h) × MerkleTree (sha256 h)) :=
  FsVerityDigest.run (sha256 h) p [] defaultBlockSize [data]

/-! ## Writing -/

/-- What `serialize_metadata` writes for one file. -/
def fileInfoTable (info : FileVerityInfo h) : FileInfoTable where
  path := some info.path
  descriptor := some {
    version := info.descriptor.version
    hashAlgorithm := info.descriptor.hashAlgorithm
    logBlocksize := info.descriptor.logBlocksize
    dataSize := info.descriptor.dataSize
    rootHash := some info.descriptor.rootHash.toList
    salt := some info.descriptor.salt }
  merkleTreeLevel1 := some info.merkleTree.level1AsBytes
  descriptorHash := some info.descriptorHash

/-- `serialize_metadata`. -/
def serializeMetadata (libs : Libs h) (fileInfos : List (FileVerityInfo h)) (labels : Labels) :
    Option Bytes :=
  libs.finish {
    version := 1
    files := some ((libs.sortUnstable fileInfos).map fileInfoTable)
    labels := some (labels.toList.map fun (key, value) => ⟨some key, some value⟩) }

/-! ## Reading -/

structure MetadataInfo (h : Bytes → List.Vector UInt8 32) where
  fileInfos : List (FileVerityInfo h)
  labels : Labels

/-- A result of code that cannot panic. -/
def liftExcept {α : Type} (x : Except String α) : ExceptT String Option α := ExceptT.mk (some x)

/-- `ok_or_else` with a message. -/
def required {α : Type} (field : Option α) (message : String) : Except String α :=
  match field with
  | some a => .ok a
  | none => .error message

/-- `copy_from_slice` into a digest, and `try_into` one: panics unless the length fits. -/
def toDigest (bytes : Bytes) : Option (Output (sha256 h)) :=
  if hlen : bytes.length = (sha256 h).outputSize then some ⟨bytes, hlen⟩ else none

/-- One file of `deserialize_metadata`. -/
def fileVerityInfo (table : FileInfoTable) : ExceptT String Option (FileVerityInfo h) := do
  let path ← liftExcept (required table.path "Missing path in FileInfo")
  let descriptorHash ←
    liftExcept (required table.descriptorHash "Missing descriptor_hash in FileInfo")
  let fbDescriptor ← liftExcept (required table.descriptor "Missing descriptor in FileInfo")
  let rootHashBytes ←
    liftExcept (required fbDescriptor.rootHash "Missing root_hash in descriptor")
  let rootHash ← (toDigest rootHashBytes : Option (Output (sha256 h)))
  let salt := fbDescriptor.salt.getD []
  let descriptor : FsVerityDescriptor (sha256 h) :=
    ⟨fbDescriptor.version, fbDescriptor.hashAlgorithm, fbDescriptor.logBlocksize,
      fbDescriptor.dataSize, rootHash, salt⟩
  let level1 := table.merkleTreeLevel1.getD []
  if level1.length % 32 ≠ 0 then
    throw s!"Broken merkle tree for {path}: level 1 length is {level1.length} not a multiple of the hash size 32"
  else do
    let hashes ← ((chunks 32 level1).mapM toDigest : Option (List (Output (sha256 h))))
    return ⟨path, descriptor, MerkleTree.fromLevel1Hashes hashes, descriptorHash⟩

/-- One label. -/
def keyValue (table : KeyValueTable) : Except String (String × String) := do
  let key ← required table.key "Missing key in KeyValue"
  let value ← required table.value "Missing value in KeyValue"
  return (key, value)

/-- `deserialize_metadata`. -/
def deserializeMetadata (libs : Libs h) (data : Bytes) :
    ExceptT String Option (MetadataInfo h) := do
  let metadata ← liftExcept ((libs.root data).mapError
    fun e => s!"Failed to parse FlatBuffers metadata: {e}")
  if metadata.version ≠ 1 then
    throw s!"Unsupported metadata version: {metadata.version}. Expected version 1."
  else do
    let fileInfos ← (metadata.files.getD []).mapM fileVerityInfo
    let labels ← liftExcept ((metadata.labels.getD []).mapM keyValue)
    return ⟨fileInfos, labels.foldl (fun labels (key, value) => labels.insert key value) ∅⟩

/-! ## The root hash -/

/-- The entry for one file of `calculate_metadata_hash`. -/
def jsonEntry (table : FileInfoTable) : Except String FileHashJsonEntry := do
  let path ← required table.path "Missing path in FileInfo"
  let descriptorHash ← required table.descriptorHash "Missing descriptor_hash in FileInfo"
  return ⟨descriptorHash, path⟩

/-- The entries of the document, by path. -/
def jsonEntries (table : MetadataTable) : Except String (List FileHashJsonEntry) := do
  let entries ← (table.files.getD []).mapM jsonEntry
  return entries.mergeSort fun a b => decide (a.path ≤ b.path)

/-- The document that `calculate_metadata_hash` hashes. -/
def metadataHashDoc (libs : Libs h) (metadataBytes : Bytes) : Except String Bytes := do
  let metadata ← (libs.root metadataBytes).mapError fun e => s!"Failed to parse metadata: {e}"
  let entries ← jsonEntries metadata
  (libs.canonJson entries).mapError fun e => s!"marshal canonical JSON: {e}"

/-- `calculate_metadata_hash`. -/
def calculateMetadataHash (libs : Libs h) (metadataBytes : Bytes) : Except String String := do
  let jsonBytes ← metadataHashDoc libs metadataBytes
  return hexEncode (h jsonBytes).toList

/-! ## A record that is written and read -/

theorem run_liftExcept_ok {α : Type} {x : Except String α} {a : α} (hx : x = .ok a) :
    (liftExcept x).run = some (.ok a) := by
  rw [hx]
  rfl

/-- What follows the version check. -/
theorem run_deserializeMetadata {libs : Libs h} {data : Bytes} {table : MetadataTable}
    (hroot : libs.root data = .ok table) (hversion : table.version = 1) :
    (deserializeMetadata libs data).run =
      ((table.files.getD []).mapM fileVerityInfo >>= fun fileInfos => do
        let labels ← liftExcept ((table.labels.getD []).mapM keyValue)
        return (⟨fileInfos, labels.foldl (fun labels (key, value) => labels.insert key value) ∅⟩ :
          MetadataInfo h)).run := by
  rw [deserializeMetadata, hroot, mapError_ok, run_bind_of_ok (run_liftExcept_ok rfl),
    if_neg (not_not.mpr hversion)]

theorem toDigest_toList (hash : Output (sha256 h)) : toDigest hash.toList = some hash := by
  rw [toDigest, dif_pos hash.toList_length]
  exact congrArg some (List.Vector.eq _ _ rfl)

/-- Whole digests are cut where they were joined. -/
theorem mapM_toDigest_chunks (hashes : List (Output (sha256 h))) :
    (chunks 32 (hashes.flatMap List.Vector.toList)).mapM toDigest = some hashes := by
  have hlen : ∀ piece ∈ hashes.map List.Vector.toList, piece.length = 32 := by
    intro piece hpiece
    obtain ⟨hash, -, rfl⟩ := List.mem_map.mp hpiece
    exact hash.toList_length
  rw [List.flatMap_def, chunks_flatten (by decide) hlen]
  clear hlen
  induction hashes with
  | nil => rfl
  | cons hash hashes ih =>
    rw [List.map_cons, List.mapM_cons, toDigest_toList, ih]
    rfl

/-- What is read of a file is what was written. -/
theorem fileVerityInfo_fileInfoTable (info : FileVerityInfo h) :
    (fileVerityInfo (fileInfoTable info)).run = some (.ok info) := by
  have hlevel1 : info.merkleTree.level1AsBytes.length % 32 = 0 := by
    have hlen := length_digestBytes info.merkleTree.level1
    rw [show info.merkleTree.level1AsBytes.length = 32 * info.merkleTree.level1.length from hlen]
    exact Nat.mul_mod_right ..
  have hhashes : (chunks 32 ((fileInfoTable info).merkleTreeLevel1.getD [])).mapM toDigest =
      some info.merkleTree.level1 := mapM_toDigest_chunks info.merkleTree.level1
  rw [fileVerityInfo]
  show ((liftM (toDigest info.descriptor.rootHash.toList : Option (Output (sha256 h))) :
    ExceptT String Option _) >>= _).run = _
  rw [run_bind_of_ok (run_lift_some (toDigest_toList info.descriptor.rootHash))]
  dsimp only
  rw [if_neg (by simpa [fileInfoTable] using hlevel1), run_bind_of_ok (run_lift_some hhashes)]
  rfl

end CryptPilot.Verity
