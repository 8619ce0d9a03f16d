import CryptPilot.VerityFuse.FileHandleCache
import CryptPilot.VerityFuse.FileVerityInfo

/-!
# Files that can be verified

`file_verifier/mod.rs` and `verity_verifier.rs`. A `VerifiableFile` is what the file system needs to
know of a file: the trait of that name, as a record of its methods. `FsEntry` implements it for the
files and directories of the metadata, and `VerityVerifier` numbers them.

A method that panics is `none`.
-/

namespace CryptPilot.VerityFuse

open CryptPilot.Data CryptPilot.VerityCore

/-- The trait `VerifiableFile`. -/
structure VerifiableFile where
  ino : Nat
  path : RelativePath
  expectedSize : Option Nat
  blockSize : Option (Option Nat)
  verifyDataBlock : Nat → Bytes → Option (Except String Unit)

/-- The trait `FileVerifier`. -/
structure FileVerifier where
  lookupByIno : Nat → Option VerifiableFile
  lookupByPath : RelativePath → Option VerifiableFile

/-! ## Paths -/

namespace RelativePath

/-- The components of a path: what stands between slashes, if anything does. -/
def ofString (s : String) : RelativePath :=
  ((s.toList.splitOn '/').filter (· ≠ [])).map String.ofList

/-- `RelativePath::parent`: without the last component that is not a dot. -/
def parent : RelativePath → Option RelativePath
  | [] => none
  | components => some ((components.reverse.dropWhile (· = ".")).drop 1).reverse

def toString (path : RelativePath) : String := String.intercalate "/" path

end RelativePath

/-! ## Entries -/

variable {h : Bytes → List.Vector UInt8 32}

inductive EntryKind (h : Bytes → List.Vector UInt8 32) where
  | verityEnabled (info : FileVerityInfo h)
  | directory (path : RelativePath)

structure FsEntry (h : Bytes → List.Vector UInt8 32) where
  ino : Nat
  kind : EntryKind h

namespace FsEntry

def path (self : FsEntry h) : RelativePath :=
  match self.kind with
  | .verityEnabled info => RelativePath.ofString info.path
  | .directory path => path

def expectedSize (self : FsEntry h) : Option Nat :=
  match self.kind with
  | .verityEnabled info => some info.descriptor.dataSize.toNat
  | .directory _ => none

/-- `block_size`, cut to a `u32`. -/
def blockSize (self : FsEntry h) (p : Profile) : Option (Option Nat) :=
  match self.kind with
  | .verityEnabled info => do
    let blockSize ← info.descriptor.blockSize p
    return some (blockSize % 2 ^ 32)
  | .directory _ => some none

def verifyDataBlock (self : FsEntry h) (p : Profile) (blockIndex : Nat) (data : Bytes) :
    Option (Except String Unit) :=
  match self.kind with
  | .verityEnabled info => do
    let blockSize ← info.descriptor.blockSize p
    let isValid := info.merkleTree.verifyDataBlock blockIndex blockSize data
    if !isValid then
      return .error s!"Block verification failed for {info.path} (ino {self.ino}) block {blockIndex}"
    return .ok ()
  | .directory path =>
    some (.error s!"Cannot verify data block for directory {path.toString} (ino {self.ino})")

/-- The implementation of `VerifiableFile`. -/
def toVerifiableFile (self : FsEntry h) (p : Profile) : VerifiableFile where
  ino := self.ino
  path := self.path
  expectedSize := self.expectedSize
  blockSize := self.blockSize p
  verifyDataBlock := self.verifyDataBlock p

/-- The entry of a file verifies a block when its Merkle tree does. -/
theorem verifyDataBlock_iff {info : FileVerityInfo h} {ino B : Nat} {p : Profile} {i : Nat}
    {data : Bytes} (hB : info.descriptor.blockSize p = some B) :
    (FsEntry.mk ino (.verityEnabled info)).verifyDataBlock p i data = some (.ok ()) ↔
      info.merkleTree.verifyDataBlock i B data = true := by
  simp only [verifyDataBlock, hB, Option.bind_eq_bind, Option.bind_some]
  cases info.merkleTree.verifyDataBlock i B data <;> simp

/-- And always returns one way or the other. -/
theorem verifyDataBlock_total {info : FileVerityInfo h} {ino B : Nat} {p : Profile} (i : Nat)
    (data : Bytes) (hB : info.descriptor.blockSize p = some B) :
    ∃ r, (FsEntry.mk ino (.verityEnabled info)).verifyDataBlock p i data = some r := by
  simp only [verifyDataBlock, hB, Option.bind_eq_bind, Option.bind_some]
  cases info.merkleTree.verifyDataBlock i B data <;> exact ⟨_, rfl⟩

end FsEntry

/-! ## Blocks of measured files

A block is recorded under the salt and verified without it. -/

/-- The salt makes no difference to the digest of any block. -/
def SaltUnseen (H : InnerHash) (salt : Bytes) (B : Nat) (D : Bytes) : Prop :=
  salt = [] ∨ ∀ i, i * B < D.length →
    H.finalize (saltPad H salt ++ zeroPad B (dataBlock B D i)) =
      H.finalize (zeroPad B (dataBlock B D i))

theorem verifyDataBlock_merkleLevel1_iff {H : InnerHash} {salt : Bytes} {B : Nat} {D : Bytes}
    (hB : 0 < B) :
    (∀ i, i * B < D.length →
        MerkleTree.verifyDataBlock (H := H) ⟨merkleLevel1 H salt B D⟩ i B (dataBlock B D i) =
          true) ↔
      SaltUnseen H salt B D := by
  have hblock : ∀ i, i * B < D.length →
      (MerkleTree.verifyDataBlock (H := H) ⟨merkleLevel1 H salt B D⟩ i B (dataBlock B D i) = true ↔
        H.finalize (saltPad H salt ++ zeroPad B (dataBlock B D i)) =
          H.finalize (zeroPad B (dataBlock B D i))) := by
    intro i hi
    rw [MerkleTree.verifyDataBlock_iff, getElem?_merkleLevel1 hB, if_pos hi, Option.some_inj,
      and_iff_right (length_dataBlock_le B D i)]
    rfl
  constructor
  · intro hall
    exact Or.inr fun i hi => (hblock i hi).mp (hall i hi)
  · rintro (rfl | hsame) i hi
    · exact MerkleTree.verifyDataBlock_of_zeroPad hB hi (length_dataBlock_le B D i) rfl
    · exact (hblock i hi).mpr (hsame i hi)

/-- **The blocks of measured data verify exactly when the salt makes no difference.** Here a digest
is any number of bytes but none, by which the flush divides. For recorded files the same holds
through the verifier, whether or not they pass the self-check, which takes the salt into account. -/
theorem verifyDataBlock_run_iff {salt : Bytes} {B : Nat} {calls : List Bytes} :
    (∀ {H : InnerHash}, 0 < H.outputSize → ∀ {p : Profile} {desc : FsVerityDescriptor H}
        {tree : MerkleTree H},
      FsVerityDigest.run H p salt B calls = some (desc, tree) →
      ((∀ i, i * B < calls.flatten.length →
          tree.verifyDataBlock i B (dataBlock B calls.flatten i) = true) ↔
        SaltUnseen H salt B calls.flatten)) ∧
    ∀ {h : Bytes → List.Vector UInt8 32} {info : FileVerityInfo h} {p p' : Profile} (ino : Nat),
      FsVerityDigest.run (sha256 h) p' salt B calls =
        some (info.descriptor, info.merkleTree) →
      ((∀ i, i * B < calls.flatten.length →
          (FsEntry.mk ino (.verityEnabled info)).verifyDataBlock p i
            (dataBlock B calls.flatten i) = some (.ok ())) ↔
        SaltUnseen (sha256 h) salt B calls.flatten) := by
  constructor
  · intro H hpos p desc tree hrun
    obtain ⟨hB, -, htree⟩ := FsVerityDigest.run_tree hpos hrun
    dsimp only at htree
    rw [htree]
    exact verifyDataBlock_merkleLevel1_iff hB
  · intro h info p p' ino hrun
    obtain ⟨-, hB, hbs, htree⟩ := FileVerityInfo.genuine_inv hrun p
    simp only [FsEntry.verifyDataBlock_iff hbs, htree]
    exact verifyDataBlock_merkleLevel1_iff hB

/-- One byte, measured under the salt `[7]`. -/
def saltedInfo : FileVerityInfo FsVerityDigest.lengthHash :=
  let desc : FsVerityDescriptor (sha256 FsVerityDigest.lengthHash) :=
    ⟨1, 1, 6, 1, blockHash (sha256 FsVerityDigest.lengthHash) [7] 64 [1], [7]⟩
  ⟨"f", desc, ⟨[desc.rootHash]⟩,
    hexEncode (FsVerityDigest.lengthHash (saltPad (sha256 FsVerityDigest.lengthHash) [7] ++
      desc.structBytes)).toList⟩

theorem verifyDataBlock_run_iff_two_blocks :
    (∀ i, i * 64 < [FileVerityInfo.twoBlocks].flatten.length →
        (MerkleTree.mk FileVerityInfo.twoHashes).verifyDataBlock i 64
          (dataBlock 64 [FileVerityInfo.twoBlocks].flatten i) = true) ↔
      SaltUnseen (sha256 FsVerityDigest.lengthHash) [] 64 [FileVerityInfo.twoBlocks].flatten :=
  verifyDataBlock_run_iff.1 (by decide) FileVerityInfo.run_twoBlocks

/-- The record is genuine and passes the self-check, but the byte does not verify. -/
theorem verifyDataBlock_salted :
    FsVerityDigest.run (sha256 FsVerityDigest.lengthHash) .dev [7] 64 [[1]] =
        some (saltedInfo.descriptor, saltedInfo.merkleTree) ∧
      saltedInfo.verifySelf .dev = some (.ok ()) ∧
      saltedInfo.merkleTree.verifyDataBlock 0 64 (dataBlock 64 [1] 0) = false ∧
      (FsEntry.mk 2 (.verityEnabled saltedInfo)).verifyDataBlock .dev 0 (dataBlock 64 [1] 0) =
        some (.error "Block verification failed for f (ino 2) block 0") := by
  decide +kernel

/-! ## The verifier -/

def rootIno : Nat := 1
def rootPath : RelativePath := []

/-- `VerityVerifier`. The two hash maps are functions. -/
structure VerityVerifier (h : Bytes → List.Vector UInt8 32) where
  pathToIno : RelativePath → Option Nat
  inoToFile : Nat → Option (FsEntry h)
  nextIno : Nat

namespace VerityVerifier

/-- `register_entry`: the next inode number, whether or not the path has one. -/
def registerEntry (self : VerityVerifier h) (path : RelativePath) (kind : EntryKind h) :
    VerityVerifier h where
  pathToIno := Function.update self.pathToIno path (some self.nextIno)
  inoToFile := Function.update self.inoToFile self.nextIno (some ⟨self.nextIno, kind⟩)
  nextIno := self.nextIno + 1

/-- The directories above `current`, from the inside out: the loop over `parent`. Every step drops
a component, so as many steps as there are components are enough. -/
def parents : Nat → RelativePath → List RelativePath
  | 0, _ => []
  | steps + 1, current =>
    match current.parent with
    | none => []
    | some parent => if parent = [] then [] else parent :: parents steps parent

/-- Registers a directory unless its path is registered already. -/
def registerDirectory (self : VerityVerifier h) (parent : RelativePath) : VerityVerifier h :=
  if (self.pathToIno parent).isSome then self
  else self.registerEntry parent (.directory parent)

/-- The directories above a file, then the file. -/
def registerFile (self : VerityVerifier h) (info : FileVerityInfo h) : VerityVerifier h :=
  let path := RelativePath.ofString info.path
  ((parents path.length path).foldl registerDirectory self).registerEntry path
    (.verityEnabled info)

def new (fileInfos : List (FileVerityInfo h)) : VerityVerifier h :=
  let verifier : VerityVerifier h := ⟨fun _ => none, fun _ => none, rootIno⟩
  fileInfos.foldl registerFile (verifier.registerEntry rootPath (.directory rootPath))

/-- Entries are filed under their inode number, a registered path leads to an entry with that path,
and the next inode number is new. -/
structure Filed (v : VerityVerifier h) : Prop where
  ino_eq : ∀ i e, v.inoToFile i = some e → e.ino = i
  path_eq : ∀ q i, v.pathToIno q = some i → ∃ e, v.inoToFile i = some e ∧ e.path = q
  lt_next : ∀ i e, v.inoToFile i = some e → i < v.nextIno

theorem Filed.registerEntry {v : VerityVerifier h} (hv : v.Filed) {path : RelativePath}
    {kind : EntryKind h} (hpath : (FsEntry.mk v.nextIno kind).path = path) :
    (v.registerEntry path kind).Filed := by
  refine ⟨?_, ?_, ?_⟩
  · intro i e he
    by_cases hi : i = v.nextIno
    · subst hi
      simp only [VerityVerifier.registerEntry, Function.update_self, Option.some.injEq] at he
      rw [← he]
    · simp only [VerityVerifier.registerEntry, Function.update_of_ne hi] at he
      exact hv.ino_eq i e he
  · intro q i hq
    by_cases hqp : q = path
    · subst hqp
      simp only [VerityVerifier.registerEntry, Function.update_self, Option.some.injEq] at hq
      subst hq
      exact ⟨_, Function.update_self _ _ _, hpath⟩
    · simp only [VerityVerifier.registerEntry, Function.update_of_ne hqp] at hq
      obtain ⟨e, he, hep⟩ := hv.path_eq q i hq
      have hi : i ≠ v.nextIno := Nat.ne_of_lt (hv.lt_next i e he)
      exact ⟨e, (Function.update_of_ne hi _ _).trans he, hep⟩
  · intro i e he
    show i < v.nextIno + 1
    by_cases hi : i = v.nextIno
    · omega
    · simp only [VerityVerifier.registerEntry, Function.update_of_ne hi] at he
      exact Nat.lt_succ_of_lt (hv.lt_next i e he)

theorem Filed.registerDirectory {v : VerityVerifier h} (hv : v.Filed) (parent : RelativePath) :
    (v.registerDirectory parent).Filed := by
  unfold VerityVerifier.registerDirectory
  split
  · exact hv
  · exact hv.registerEntry rfl

theorem Filed.registerFile {v : VerityVerifier h} (hv : v.Filed) (info : FileVerityInfo h) :
    (v.registerFile info).Filed := by
  refine Filed.registerEntry ?_ rfl
  exact List.foldlRecOn _ _ hv fun v hv dir _ => hv.registerDirectory dir

/-- Whatever is registered, and however often. -/
theorem filed_new (fileInfos : List (FileVerityInfo h)) : (new fileInfos).Filed := by
  refine List.foldlRecOn _ _ ?_ fun v hv info _ => hv.registerFile info
  refine Filed.registerEntry ⟨?_, ?_, ?_⟩ rfl
  all_goals simp

def lookupByIno (self : VerityVerifier h) (ino : Nat) : Option (FsEntry h) := self.inoToFile ino

def lookupByPath (self : VerityVerifier h) (path : RelativePath) : Option (FsEntry h) := do
  let ino ← self.pathToIno path
  self.inoToFile ino

/-- What is found under a path has that path, and is filed under its own inode number. -/
theorem Filed.lookupByPath_eq_some {v : VerityVerifier h} (hv : v.Filed) {q : RelativePath}
    {e : FsEntry h} (he : v.lookupByPath q = some e) :
    e.path = q ∧ v.lookupByIno e.ino = some e := by
  obtain ⟨i, hi, he⟩ := Option.bind_eq_some_iff.mp he
  obtain ⟨e', he', hpath⟩ := hv.path_eq q i hi
  rw [he, Option.some.injEq] at he'
  subst he'
  refine ⟨hpath, ?_⟩
  rw [hv.ino_eq i e he]
  exact he

/-- The implementation of `FileVerifier`. -/
def toFileVerifier (self : VerityVerifier h) (p : Profile) : FileVerifier where
  lookupByIno ino := (self.lookupByIno ino).map fun e => e.toVerifiableFile p
  lookupByPath path := (self.lookupByPath path).map fun e => e.toVerifiableFile p

end VerityVerifier

end CryptPilot.VerityFuse
