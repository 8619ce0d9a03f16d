import CryptPilot.Data.Utf8
import CryptPilot.Verity.RootHash
import CryptPilot.VerityGo.Levels

/-!
# Metadata in Go

`verity-go`'s `metadata.go` and `metadata_hash.go`: the same buffers as in Rust, and the same root
hash over them. Strings are byte strings here, a field that is missing reads as an empty one, and
the size of a digest is that of the algorithm of the entry.

The root hash depends on nothing but the paths and their descriptor hashes, and the two languages
hash one document (`metadataHashDoc_agrees`).
-/

namespace CryptPilot.VerityGo

open CryptPilot.Data
open CryptPilot.VerityCore (Bytes)
open CryptPilot.Verity (utf8 Names)

/-! ## The schema -/

/-- The table `FileInfo`. -/
structure FileInfoTable where
  path : Option Bytes
  descriptor : Option Verity.DescriptorTable
  merkleTreeLevel1 : Option Bytes
  descriptorHash : Option Bytes
  deriving DecidableEq

/-- The table `KeyValue`. -/
structure KeyValueTable where
  key : Option Bytes
  value : Option Bytes
  deriving DecidableEq

/-- The table `Metadata`. -/
structure MetadataTable where
  version : UInt32
  files : Option (List FileInfoTable)
  labels : Option (List KeyValueTable)
  deriving DecidableEq

/-- `fileHashEntry`. -/
structure FileHashEntry where
  descriptorHash : Bytes
  path : Bytes
  deriving DecidableEq

abbrev Labels := Std.ExtTreeMap Bytes Bytes

/-- Library functions.

* `finish` builds a buffer (`none`: it panics), and `getRootAsMetadata` stands for the accessors of
  the generated code: what they read, or `none` if one of them panics. `panicText` is what a
  recovered panic prints.
* `marshal` is `canonicaljson.Marshal` on the document with the given entries.
* `sortSlice` is `sort.Slice` by a string of every element: it sorts, and nothing is known about the
  order of elements with one string. -/
structure Libs where
  finish : MetadataTable → Option Bytes
  getRootAsMetadata : Bytes → Option MetadataTable
  panicText : Bytes → Bytes
  marshal : List FileHashEntry → Except String Bytes
  sortSlice {α : Type} (key : α → Bytes) : List α → List α
  sortSlice_perm : ∀ {α : Type} (key : α → Bytes) (l : List α), (sortSlice key l).Perm l
  sortSlice_sorted : ∀ {α : Type} (key : α → Bytes) (l : List α),
    (sortSlice key l).Pairwise fun a b => key a ≤ key b

/-! ## Entries -/

/-- The error types of the package. -/
inductive MetadataError where
  | verificationError (path : Bytes) (field : String) (expected got : Bytes)
  | metadataVersionError (version : UInt32)
  | parseError (message : Bytes)
  deriving DecidableEq

structure FileVerityInfo where
  path : Bytes
  descriptor : FsVerityDescriptor
  merkleTree : MerkleTree
  descriptorHash : Bytes
  deriving DecidableEq

/-- `hex.EncodeToString`. -/
def encodeToString (bytes : Bytes) : Bytes := utf8 (hexEncode bytes)

/-- `BlockSize`: a shift of an `int`. -/
def FsVerityDescriptor.blockSize (self : FsVerityDescriptor) : Int :=
  if self.logBlocksize < 63 then 2 ^ self.logBlocksize.toNat
  else if self.logBlocksize = 63 then - 2 ^ 63
  else 0

/-- `VerifySelf`. Like a block size of zero, a negative one panics when it is used. -/
def FileVerityInfo.verifySelf (C : Crypto) (self : FileVerityInfo) :
    ExceptT MetadataError Option Unit := do
  let hash ← (self.descriptor.toDescriptorHash C : Option Bytes)
  let calculated := encodeToString hash
  if calculated ≠ self.descriptorHash then
    throw (.verificationError self.path "descriptor_hash" self.descriptorHash calculated)
  else do
    let rebuiltRoot ← (self.merkleTree.rebuildRootHash C self.descriptor.salt
      self.descriptor.blockSize.toNat : Option Bytes)
    if !MerkleTree.equalBytes rebuiltRoot self.descriptor.rootHash then
      throw (.verificationError self.path "root_hash" (encodeToString self.descriptor.rootHash)
        (encodeToString rebuiltRoot))
    else return ()

/-! ## Writing -/

/-- `Level1AsBytes`. -/
def MerkleTree.level1AsBytes (self : MerkleTree) : Bytes := self.level1.flatten

/-- What `SerializeMetadata` writes for one file. -/
def fileInfoTable (info : FileVerityInfo) : FileInfoTable where
  path := some info.path
  descriptor := some {
    version := info.descriptor.version
    hashAlgorithm := info.descriptor.hashAlgorithm.val
    logBlocksize := info.descriptor.logBlocksize
    dataSize := info.descriptor.dataSize
    rootHash := some info.descriptor.rootHash
    salt := some info.descriptor.salt }
  merkleTreeLevel1 := some info.merkleTree.level1AsBytes
  descriptorHash := some info.descriptorHash

/-- The table that `SerializeMetadata` writes. Without labels there is no vector of labels. -/
def metadataTable (go : Libs) (fileInfos : List FileVerityInfo) (labels : Labels) :
    MetadataTable where
  version := 1
  files := some ((go.sortSlice FileVerityInfo.path fileInfos).map fileInfoTable)
  labels := if labels.isEmpty then none
    else some (labels.toList.map fun (key, value) => ⟨some key, some value⟩)

/-- `SerializeMetadata`. -/
def serializeMetadata (go : Libs) (fileInfos : List FileVerityInfo) (labels : Labels) :
    Option Bytes :=
  go.finish (metadataTable go fileInfos labels)

/-! ## Reading -/

structure MetadataInfo where
  fileInfos : List FileVerityInfo
  labels : Labels

/-- A field that must not be missing. -/
def required {α : Type} (field : Option α) (message : Bytes) : ExceptT MetadataError Option α :=
  match field with
  | some a => return a
  | none => throw (.parseError message)

/-- One file of `DeserializeMetadata`. With an unknown algorithm the remainder by zero panics. -/
def fileVerityInfo (table : FileInfoTable) : ExceptT MetadataError Option FileVerityInfo := do
  let path := table.path.getD []
  let descriptorHash := table.descriptorHash.getD []
  let fbDesc ← required table.descriptor (utf8 "missing descriptor for " ++ path)
  let rootHash ← required fbDesc.rootHash (utf8 "missing root_hash in descriptor for " ++ path)
  let salt := fbDesc.salt.getD []
  let descriptor : FsVerityDescriptor :=
    ⟨fbDesc.version, ⟨fbDesc.hashAlgorithm⟩, fbDesc.logBlocksize, fbDesc.dataSize, rootHash, salt⟩
  let merkleLevel1 := table.merkleTreeLevel1.getD []
  let digestSize := descriptor.hashAlgorithm.digestSize
  if digestSize = 0 then (none : Option FileVerityInfo)
  else if merkleLevel1.length % digestSize ≠ 0 then
    throw (.parseError (utf8 "broken merkle tree for " ++ path ++
      utf8 s!": level 1 length {merkleLevel1.length} not a multiple of hash size {digestSize}"))
  else return ⟨path, descriptor, ⟨chunks digestSize merkleLevel1, descriptor.hashAlgorithm⟩,
    descriptorHash⟩

/-- The body of `DeserializeMetadata`. -/
def readMetadata (go : Libs) (data : Bytes) : ExceptT MetadataError Option MetadataInfo := do
  let md ← (go.getRootAsMetadata data : Option MetadataTable)
  if md.version ≠ 1 then throw (.metadataVersionError md.version)
  else do
    let fileInfos ← (md.files.getD []).mapM fileVerityInfo
    let labels := (md.labels.getD []).foldl (fun (labels : Labels) kv =>
      labels.insert (kv.key.getD []) (kv.value.getD [])) ∅
    return ⟨fileInfos, labels⟩

/-- `DeserializeMetadata`: a panic is recovered. -/
def deserializeMetadata (go : Libs) (data : Bytes) : Except MetadataError MetadataInfo :=
  (readMetadata go data).run.getD
    (.error (.parseError (utf8 "invalid flatbuffers data: " ++ go.panicText data)))

/-! ## The root hash -/

def fileHashEntry (table : FileInfoTable) : FileHashEntry where
  descriptorHash := table.descriptorHash.getD []
  path := table.path.getD []

/-- The document that `CalculateMetadataHash` hashes. -/
def metadataHashDoc (go : Libs) (metadataBytes : Bytes) : ExceptT String Option Bytes := do
  let md ← (go.getRootAsMetadata metadataBytes : Option MetadataTable)
  let entries := go.sortSlice FileHashEntry.path ((md.files.getD []).map fileHashEntry)
  Verity.liftExcept ((go.marshal entries).mapError fun e => "marshal canonical JSON: " ++ e)

/-- `CalculateMetadataHash`. -/
def calculateMetadataHash (C : Crypto) (go : Libs) (metadataBytes : Bytes) :
    ExceptT String Option Bytes := do
  let jsonBytes ← metadataHashDoc go metadataBytes
  return encodeToString (C.sha256 jsonBytes).toList

/-! ## Counterparts -/

def ofFileInfo (table : Verity.FileInfoTable) : FileInfoTable :=
  ⟨table.path.map utf8, table.descriptor, table.merkleTreeLevel1, table.descriptorHash.map utf8⟩

def ofKeyValue (table : Verity.KeyValueTable) : KeyValueTable :=
  ⟨table.key.map utf8, table.value.map utf8⟩

/-- A table with its strings as bytes. -/
def ofTable (table : Verity.MetadataTable) : MetadataTable :=
  ⟨table.version, table.files.map (List.map ofFileInfo), table.labels.map (List.map ofKeyValue)⟩

def ofEntry (entry : Verity.FileHashJsonEntry) : FileHashEntry :=
  ⟨utf8 entry.descriptorHash, utf8 entry.path⟩

theorem utf8_le_iff {s t : String} : utf8 s ≤ utf8 t ↔ s ≤ t := by
  rw [← List.not_lt, ← not_lt]
  exact not_congr encodeUtf8_lt_iff

section
variable {C : Crypto} {libs : Verity.Libs C.sha256} {go : Libs}

/-- The libraries of the two languages read buffers alike, and encode documents alike. -/
structure SameFormat (libs : Verity.Libs C.sha256) (go : Libs) : Prop where
  read : ∀ {bytes table}, libs.root bytes = .ok table →
    go.getRootAsMetadata bytes = some (ofTable table)
  encode : ∀ entries, ∃ json, libs.canonJson entries = .ok json ∧
    go.marshal (entries.map ofEntry) = .ok json

/-- Go sorts the entries of a table as Rust does. -/
theorem sortSlice_ofEntry {table : Verity.MetadataTable} (hn : Verity.Named table) :
    go.sortSlice FileHashEntry.path (((ofTable table).files.getD []).map fileHashEntry) =
      (sortByKey Verity.FileHashJsonEntry.path (Verity.entriesOf table)).map ofEntry := by
  have hentries : ((ofTable table).files.getD []).map fileHashEntry =
      (Verity.entriesOf table).map ofEntry := by
    have hfiles : (ofTable table).files.getD [] = (table.files.getD []).map ofFileInfo := by
      rw [ofTable]
      cases table.files <;> rfl
    rw [hfiles, Verity.entriesOf, List.map_map, List.map_map]
    refine List.map_congr_left fun t ht => ?_
    obtain ⟨entry, hpath, hhash⟩ := hn.complete t ht
    simp [fileHashEntry, ofFileInfo, ofEntry, Verity.entryOf, hpath, hhash]
  have hnodup : (((Verity.entriesOf table).map ofEntry).map FileHashEntry.path).Nodup := by
    have hpaths : ((Verity.entriesOf table).map ofEntry).map FileHashEntry.path =
        ((Verity.entriesOf table).map Verity.FileHashJsonEntry.path).map utf8 := by
      rw [List.map_map, List.map_map]
      rfl
    rw [hpaths]
    exact hn.nodup_entriesOf.map fun _ _ => encodeUtf8_inj
  have hsorted := sortByKey_sorted Verity.FileHashJsonEntry.path (Verity.entriesOf table)
  rw [hentries]
  refine sorted_unique hnodup (go.sortSlice_perm _ _) ((sortByKey_perm _ _).map ofEntry)
    (go.sortSlice_sorted _ _) (List.pairwise_map.mpr ?_)
  exact hsorted.imp fun hle => utf8_le_iff.mpr hle

/-- **The root hash names the files, in both languages.** For buffers whose files have distinct
paths and descriptor hashes: the hashed documents are equal exactly when the buffers name the same
files with the same descriptor hashes, and Go hashes the document that Rust does. -/
theorem metadataHashDoc_agrees (hsame : SameFormat libs go) {bytes₁ bytes₂ : Bytes}
    {table₁ table₂ : Verity.MetadataTable} (hread₁ : libs.root bytes₁ = .ok table₁)
    (hread₂ : libs.root bytes₂ = .ok table₂) (hn₁ : Verity.Named table₁)
    (hn₂ : Verity.Named table₂) :
    ∃ json₁ json₂, Verity.metadataHashDoc libs bytes₁ = .ok json₁ ∧
      Verity.metadataHashDoc libs bytes₂ = .ok json₂ ∧
      (json₁ = json₂ ↔ ∀ entry, (∃ t ∈ table₁.files.getD [], Names t entry) ↔
        ∃ t ∈ table₂.files.getD [], Names t entry) ∧
      (metadataHashDoc go bytes₁).run = some (.ok json₁) ∧
      Verity.calculateMetadataHash libs bytes₁ = .ok (hexEncode (C.sha256 json₁).toList) ∧
      (calculateMetadataHash C go bytes₁).run =
        some (.ok (utf8 (hexEncode (C.sha256 json₁).toList))) := by
  obtain ⟨json₁, hjson₁, hmarshal⟩ :=
    hsame.encode (sortByKey Verity.FileHashJsonEntry.path (Verity.entriesOf table₁))
  obtain ⟨json₂, hjson₂, -⟩ :=
    hsame.encode (sortByKey Verity.FileHashJsonEntry.path (Verity.entriesOf table₂))
  have hdoc₁ := hn₁.metadataHashDoc_eq hread₁ hjson₁
  have hdoc₂ := hn₂.metadataHashDoc_eq hread₂ hjson₂
  have hgo : (metadataHashDoc go bytes₁).run = some (.ok json₁) := by
    rw [metadataHashDoc, run_bind_of_ok (run_lift_some (hsame.read hread₁))]
    dsimp only
    rw [sortSlice_ofEntry hn₁, hmarshal]
    rfl
  refine ⟨json₁, json₂, hdoc₁, hdoc₂, ?_, hgo, ?_, ?_⟩
  · rw [← Verity.Named.entries_eq_iff hn₁ hn₂]
    constructor
    · rintro rfl
      exact libs.canonJson_inj hjson₁ hjson₂
    · intro heq
      rw [heq, hjson₂] at hjson₁
      exact (Except.ok.inj hjson₁).symm
  · rw [Verity.calculateMetadataHash, hdoc₁]
    rfl
  · rw [calculateMetadataHash, run_bind_of_ok hgo]
    rfl

end

/-! ## Libraries for examples -/

/-- A code for strings that can be read without knowing their length. -/
def frame (bytes : Bytes) : Bytes := bytes.flatMap (fun b => [1, b]) ++ [0]

theorem frame_append_inj {a b u v : Bytes} (h : frame a ++ u = frame b ++ v) : a = b ∧ u = v := by
  induction a generalizing b with
  | nil =>
    cases b with
    | nil => exact ⟨rfl, by simpa [frame] using h⟩
    | cons y b => simp [frame] at h
  | cons x a ih =>
    cases b with
    | nil => simp [frame] at h
    | cons y b =>
      simp only [frame, List.flatMap_cons, List.cons_append, List.nil_append, List.cons.injEq,
        true_and] at h
      obtain ⟨rfl, hrest⟩ := h
      obtain ⟨rfl, rfl⟩ := ih hrest
      exact ⟨rfl, rfl⟩

/-- A document in that code. -/
def frameEntries (entries : List FileHashEntry) : Bytes :=
  entries.flatMap fun entry => frame entry.descriptorHash ++ frame entry.path

theorem frameEntries_inj {entries entries' : List FileHashEntry}
    (h : frameEntries entries = frameEntries entries') : entries = entries' := by
  induction entries generalizing entries' with
  | nil =>
    cases entries' with
    | nil => rfl
    | cons e' entries' => simp [frameEntries, frame] at h
  | cons e entries ih =>
    cases entries' with
    | nil => simp [frameEntries, frame] at h
    | cons e' entries' =>
      simp only [frameEntries, List.flatMap_cons, List.append_assoc] at h
      obtain ⟨hhash, h⟩ := frame_append_inj h
      obtain ⟨hpath, h⟩ := frame_append_inj h
      have he : e = e' := by
        cases e
        cases e'
        simp_all
      rw [he, ih h]

theorem ofEntry_inj {entry entry' : Verity.FileHashJsonEntry} (h : ofEntry entry = ofEntry entry') :
    entry = entry' := by
  obtain ⟨hhash, hpath⟩ := FileHashEntry.mk.inj h
  cases entry
  cases entry'
  exact congrArg₂ _ (encodeUtf8_inj hhash) (encodeUtf8_inj hpath)

/-- Rust libraries that read given tables. -/
def framedLibs (C : Crypto) (tables : Bytes → Option Verity.MetadataTable) :
    Verity.Libs C.sha256 where
  __ := Verity.libsFor ⟨1, none, none⟩ []
  finish _ := none
  root bytes := (tables bytes).elim (.error "invalid") .ok
  root_finish := by
    intro table bytes table' hf
    cases hf
  canonJson entries := .ok (frameEntries (entries.map ofEntry))
  canonJson_inj := by
    intro entries entries' json hj hj'
    rw [← hj', Except.ok.injEq] at hj
    exact List.map_injective_iff.mpr (fun _ _ => ofEntry_inj) (frameEntries_inj hj)

/-- Go libraries that read the same tables. -/
def framedGo (tables : Bytes → Option Verity.MetadataTable) : Libs where
  finish _ := none
  getRootAsMetadata bytes := (tables bytes).map ofTable
  panicText _ := []
  marshal entries := .ok (frameEntries entries)
  sortSlice := sortByKey
  sortSlice_perm := sortByKey_perm
  sortSlice_sorted := sortByKey_sorted

theorem framed_sameFormat (C : Crypto) (tables : Bytes → Option Verity.MetadataTable) :
    SameFormat (framedLibs C tables) (framedGo tables) where
  read := by
    intro bytes table hread
    cases htable : tables bytes with
    | none => simp [framedLibs, htable] at hread
    | some table' =>
      simp only [framedLibs, htable, Option.elim_some, Except.ok.injEq] at hread
      simp [framedGo, htable, hread]
  encode entries := ⟨_, rfl, rfl⟩

/-- Two tables that name the same files, in another order and with other contents. -/
def abTable : Verity.MetadataTable :=
  ⟨1, some [⟨some "a", none, none, some "0"⟩, ⟨some "b", none, none, some "1"⟩], none⟩

@[inherit_doc abTable]
def baTable : Verity.MetadataTable :=
  ⟨1, some [⟨some "b", none, some [7], some "1"⟩, ⟨some "a", none, none, some "0"⟩], some []⟩

def abTables (bytes : Bytes) : Option Verity.MetadataTable :=
  if bytes = [1] then some abTable else if bytes = [2] then some baTable else none

theorem named_of_entryOf {table : Verity.MetadataTable}
    (hcomplete : ∀ t ∈ table.files.getD [], t.path = some (Verity.entryOf t).path ∧
      t.descriptorHash = some (Verity.entryOf t).descriptorHash)
    (hdistinct : ((table.files.getD []).map Verity.FileInfoTable.path).Nodup) :
    Verity.Named table :=
  ⟨fun t ht => ⟨Verity.entryOf t, hcomplete t ht⟩, hdistinct⟩

theorem metadataHashDoc_agrees_two_orders :
    ∃ json, Verity.metadataHashDoc (framedLibs lengthCrypto abTables) [1] = .ok json ∧
      Verity.metadataHashDoc (framedLibs lengthCrypto abTables) [2] = .ok json ∧
      (metadataHashDoc (framedGo abTables) [1]).run = some (.ok json) := by
  have hread₁ : (framedLibs lengthCrypto abTables).root [1] = .ok abTable := rfl
  have hread₂ : (framedLibs lengthCrypto abTables).root [2] = .ok baTable := rfl
  have hn₁ : Verity.Named abTable := named_of_entryOf (by decide) (by decide)
  have hn₂ : Verity.Named baTable := named_of_entryOf (by decide) (by decide)
  obtain ⟨json₁, json₂, hdoc₁, hdoc₂, hiff, hgo, -, -⟩ :=
    metadataHashDoc_agrees (framed_sameFormat lengthCrypto abTables) hread₁ hread₂ hn₁ hn₂
  have hsame : json₁ = json₂ := hiff.mpr (by simp [abTable, baTable, Names, or_comm])
  exact ⟨json₁, hdoc₁, hsame ▸ hdoc₂, hgo⟩

end CryptPilot.VerityGo
