import CryptPilot.VerityCore.Config

/-!
# The fs-verity hasher

`verity-core`'s `digest.rs`, `descriptor.rs` and `tree.rs`: the streaming hasher with its hierarchy
of partially filled blocks, the descriptor it produces, and the Merkle tree of level-1 hashes.

A `FixedSizeBlock` remembers the state of its hash and how many bytes still fit, not the data. The
loop of `update` over the levels is `updateLevels`; a `break` is a branch that returns the levels
above it unchanged. The loop of the final flush is `flushLevels`.
-/

namespace CryptPilot.VerityCore

open CryptPilot.Data

/-- `salt_to_digest`: a digest that has been fed the salt, every piece of it padded to the hash's
own block size. -/
def saltToDigest (H : InnerHash) (salt : Bytes) : Option Bytes :=
  (chunks H.blockSize salt).foldlM (fun s chunk => updatePadded s chunk H.blockSize) []

/-- `FsVerityConfig`. What `FsVerityConfig::new` asserts is carried along. -/
structure FsVerityConfig (H : InnerHash) where
  blockSize : Nat
  salt : Bytes
  saltedDigest : Bytes
  salt_le : salt.length ≤ maxSaltSize
  blockSize_pow : IsPowerOfTwo blockSize
  two_digests_le : H.outputSize * 2 ≤ blockSize
  outputSize_le : H.outputSize ≤ maxDigestSize
  saltedDigest_eq : saltToDigest H salt = some saltedDigest

/-- `FsVerityConfig::new`. -/
def FsVerityConfig.new (H : InnerHash) (blockSize : Nat) (salt : Bytes) :
    Option (FsVerityConfig H) :=
  if h : salt.length ≤ maxSaltSize ∧ IsPowerOfTwo blockSize ∧ H.outputSize * 2 ≤ blockSize ∧
      H.outputSize ≤ maxDigestSize then
    match hs : saltToDigest H salt with
    | some saltedDigest =>
      some ⟨blockSize, salt, saltedDigest, h.1, h.2.1, h.2.2.1, h.2.2.2, hs⟩
    | none => none
  else none

/-! ## Blocks -/

structure FixedSizeBlock where
  inner : Bytes
  remaining : Nat
  deriving DecidableEq

namespace FixedSizeBlock

variable {H : InnerHash}

def new (config : FsVerityConfig H) : FixedSizeBlock :=
  ⟨config.saltedDigest, config.blockSize⟩

/-- Appends data to the block; panics if it does not fit. -/
def append (self : FixedSizeBlock) (data : Bytes) : Option FixedSizeBlock :=
  if data.length ≤ self.remaining then
    some ⟨self.inner ++ data, self.remaining - data.length⟩
  else none

def fillToEnd (self : FixedSizeBlock) : FixedSizeBlock :=
  ⟨updateZeroes self.inner self.remaining, 0⟩

/-- Appends as much as possible, returning what does not fit. -/
def overflowingAppend (self : FixedSizeBlock) (data : Bytes) : Option (FixedSizeBlock × Bytes) := do
  let n := min self.remaining data.length
  let self ← self.append (data.take n)
  return (self, data.drop n)

variable (H) in
def finalizeInto (self : FixedSizeBlock) : Output H :=
  H.finalize self.fillToEnd.inner

/-- The hash of the block, and the block reset to an empty one. -/
def finalizeIntoAndReset (self : FixedSizeBlock) (config : FsVerityConfig H) :
    Output H × FixedSizeBlock :=
  (H.finalize self.fillToEnd.inner, new config)

end FixedSizeBlock

/-! ## The Merkle tree: level-1 hashes -/

/-- `MerkleTree<D>`: the hashes of the data blocks, in order. -/
structure MerkleTree (H : InnerHash) where
  level1 : List (Output H)
  deriving DecidableEq

namespace MerkleTree

variable {H : InnerHash}

def appendLevel1Hash (self : MerkleTree H) (hash : Output H) : MerkleTree H :=
  ⟨self.level1 ++ [hash]⟩

def level1AsBytes (self : MerkleTree H) : Bytes := self.level1.flatMap List.Vector.toList

def fromLevel1Hashes (hashes : List (Output H)) : MerkleTree H := ⟨hashes⟩

/-- `verify_data_block`. The padded update cannot panic: the data was just checked to fit. -/
def verifyDataBlock (self : MerkleTree H) (blockIndex blockSize : Nat) (data : Bytes) : Bool :=
  if data.length > blockSize then false
  else match self.level1[blockIndex]? with
    | none => false
    | some expected => (updatePadded [] data blockSize).map H.finalize = some expected

end MerkleTree

/-! ## The descriptor -/

@[ext]
structure FsVerityDescriptor (H : InnerHash) where
  version : UInt8
  hashAlgorithm : UInt8
  logBlocksize : UInt8
  dataSize : UInt64
  rootHash : Output H
  salt : Bytes
  deriving DecidableEq

/-- `u64::to_le_bytes`. -/
def toLeBytes (n : UInt64) : Bytes :=
  (List.range 8).map fun i => UInt8.ofNat (n.toNat / 256 ^ i)

namespace FsVerityDescriptor

variable {H : InnerHash}

def blockSize (self : FsVerityDescriptor H) (p : Profile) : Option Nat :=
  p.usizeShl self.logBlocksize.toNat

/-- What `to_descriptor_hash` feeds to the hash: the padded salt, then the 256-byte structure. -/
def descriptorBytes (self : FsVerityDescriptor H) : Option Bytes := do
  let digest ← saltToDigest H self.salt
  let digest := digest ++ [self.version]
  let digest := digest ++ [self.hashAlgorithm]
  let digest := digest ++ [self.logBlocksize]
  let digest := digest ++ [UInt8.ofNat self.salt.length]
  let digest := updateZeroes digest 4
  let digest := digest ++ toLeBytes self.dataSize
  let digest ← updatePadded digest self.rootHash.toList 64
  let digest ← updatePadded digest self.salt 32
  return updateZeroes digest 144

/-- `to_descriptor_hash`. -/
def toDescriptorHash (self : FsVerityDescriptor H) : Option (Output H) :=
  self.descriptorBytes.map H.finalize

end FsVerityDescriptor

/-! ## The streaming hasher -/

structure FsVerityDigest (H : InnerHash) where
  config : FsVerityConfig H
  levels : List FixedSizeBlock
  merkleTree : MerkleTree H

namespace FsVerityDigest

variable {H : InnerHash}

variable (H) in
def newWithSaltAndBlockSize (salt : Bytes) (blockSize : Nat) : Option (FsVerityDigest H) :=
  (FsVerityConfig.new H blockSize salt).map fun config => ⟨config, [], ⟨[]⟩⟩

/-- The loop of `update` over the levels, from `levelIndex` on: the levels after it, what is left
for a new top level, and the tree. `keep` is `keep_space_for_one_digest`. -/
def updateLevels (config : FsVerityConfig H) (levelIndex : Nat) (keep : Bool) (overflow : Bytes)
    (tree : MerkleTree H) : List FixedSizeBlock →
      Option (List FixedSizeBlock × Bytes × MerkleTree H)
  | [] => some ([], overflow, tree)
  | level :: rest => do
    let (level, overflow) ← level.overflowingAppend overflow
    if keep && decide (H.outputSize ≤ level.remaining) then
      -- done: there is room for one more digest; `assert!(overflow.is_empty())`
      if overflow = [] then return (level :: rest, overflow, tree) else none
    else if !keep && decide (overflow = []) then
      -- done: the data fitted, even if the block is now full
      return (level :: rest, overflow, tree)
    else
      let (tmp, level) := level.finalizeIntoAndReset config
      let level ← level.append overflow
      let tree := if levelIndex = 0 then tree.appendLevel1Hash tmp else tree
      let (rest, overflow, tree) ←
        updateLevels config (levelIndex + 1) true tmp.toList tree rest
      return (level :: rest, overflow, tree)

/-- One chunk of at most a block: through the levels, then a new top level for what is left.
Panics if there are `MAX_LEVELS` of them already. -/
def updateChunk (self : FsVerityDigest H) (chunk : Bytes) : Option (FsVerityDigest H) := do
  let (levels, overflow, tree) ←
    updateLevels self.config 0 false chunk self.merkleTree self.levels
  if overflow ≠ [] then
    if levels.length < maxLevels then
      let level ← (FixedSizeBlock.new self.config).append overflow
      return ⟨self.config, levels ++ [level], tree⟩
    else none
  else return ⟨self.config, levels, tree⟩

/-- `Update::update`. -/
def update (self : FsVerityDigest H) (data : Bytes) : Option (FsVerityDigest H) :=
  (chunks self.config.blockSize data).foldlM updateChunk self

/-- The variables of the final flush. -/
structure FlushState (H : InnerHash) where
  lastDigest : Output H
  overflow : Bytes
  totalSize : Nat
  scale : Nat
  merkleTree : MerkleTree H

/-- The loop of the final flush over the levels, from `levelIndex` on. -/
def flushLevels (p : Profile) (blockSize compressionFactor : Nat) (levelIndex : Nat)
    (st : FlushState H) : List FixedSizeBlock → Option (FlushState H)
  | [] => some st
  | level :: rest => do
    let filled ← p.usizeSub blockSize level.remaining
    let scaled ← p.usize (st.scale * filled)
    let totalSize ← p.usize (st.totalSize + scaled)
    let level ← level.append st.overflow
    let lastDigest := level.finalizeInto H
    let merkleTree :=
      if levelIndex = 0 then st.merkleTree.appendLevel1Hash lastDigest else st.merkleTree
    let scale ← p.usize (st.scale * compressionFactor)
    flushLevels p blockSize compressionFactor (levelIndex + 1)
      ⟨lastDigest, lastDigest.toList, totalSize, scale, merkleTree⟩ rest

/-- `finalize_into_fs_verity_stuffs`. -/
def finalizeIntoFsVerityStuffs (self : FsVerityDigest H) (p : Profile) :
    Option (FsVerityDescriptor H × MerkleTree H) := do
  let compressionFactor := self.config.blockSize / H.outputSize
  let st ← flushLevels p self.config.blockSize compressionFactor 0
    ⟨List.Vector.replicate _ 0, [], 0, 1, self.merkleTree⟩ self.levels
  return (⟨1, H.innerHashAlgorithm.toU8, UInt8.ofNat (trailingZeros self.config.blockSize),
    UInt64.ofNat st.totalSize, st.lastDigest, self.config.salt⟩, st.merkleTree)

/-- `FixedOutput::finalize_into`: the descriptor hash. -/
def finalizeInto (self : FsVerityDigest H) (p : Profile) : Option (Output H) := do
  let (descriptor, _) ← self.finalizeIntoFsVerityStuffs p
  descriptor.toDescriptorHash

variable (H) in
/-- A whole use of the hasher: a fresh one, one `update` for every entry of `calls`, and the
final flush. -/
def run (p : Profile) (salt : Bytes) (blockSize : Nat) (calls : List Bytes) :
    Option (FsVerityDescriptor H × MerkleTree H) := do
  let digest ← newWithSaltAndBlockSize H salt blockSize
  let digest ← calls.foldlM update digest
  digest.finalizeIntoFsVerityStuffs p

variable (H) in
/-- The same for the fs-verity measurement, the descriptor hash. -/
def measure (p : Profile) (salt : Bytes) (blockSize : Nat) (calls : List Bytes) :
    Option (Output H) := do
  let digest ← newWithSaltAndBlockSize H salt blockSize
  let digest ← calls.foldlM update digest
  digest.finalizeInto p

theorem measure_eq (p : Profile) (salt : Bytes) (blockSize : Nat) (calls : List Bytes) :
    measure H p salt blockSize calls =
      (run H p salt blockSize calls).bind fun r => r.1.toDescriptorHash := by
  simp only [measure, run, finalizeInto, Option.bind_eq_bind, Option.bind_assoc]

end FsVerityDigest

/-- `vec![0u8; n]`. A process that can have at most `limit` bytes at once is aborted for more. -/
def zeroVec (limit : Option Nat) (n : Nat) : Option Bytes :=
  match limit with
  | none => some (List.replicate n 0)
  | some limit => if n ≤ limit then some (List.replicate n 0) else none

/-- `MerkleTree::rebuild_root_hash`, where allocations have a limit. A `Vec` holds at most
`isize::MAX` bytes, so the byte count of the hashes does not overflow. -/
def MerkleTree.rebuildRootHashWithin {H : InnerHash} (limit : Option Nat) (self : MerkleTree H)
    (p : Profile) (salt : Bytes) (blockSize : Nat) : Option (Output H) :=
  match self.level1 with
  | [hash] => some hash
  | level1 => do
    let digest ← FsVerityDigest.newWithSaltAndBlockSize H salt blockSize
    let digest ← level1.foldlM (fun digest hash => digest.update hash.toList) digest
    let padding := (blockSize - (level1.length * H.outputSize) % blockSize) % blockSize
    let zeroes ← zeroVec limit padding
    let digest ← digest.update zeroes
    let (descriptor, _) ← digest.finalizeIntoFsVerityStuffs p
    return descriptor.rootHash

/-- The same where there is memory for everything. -/
def MerkleTree.rebuildRootHash {H : InnerHash} (self : MerkleTree H) (p : Profile) (salt : Bytes)
    (blockSize : Nat) : Option (Output H) :=
  self.rebuildRootHashWithin none p salt blockSize

end CryptPilot.VerityCore
