import CryptPilot.VerityCore.Config

/-!
# The Go implementation of the hasher

`verity-go`'s `verity.go`, `digest.go` and `tree.go`. The code follows the Rust crate but asserts
nothing: there is no limit on levels, no check of the parameters, a block may be overfilled (then
`remaining` is negative), and digests are slices of any length.

As in the Rust model, `none` is a panic or a loop that does not end. An `int` has 64 bits. The two
counters of `Finalize` wrap and are `Int64`; the other numbers are lengths of slices in memory, or
differences of them, which do not. Block sizes are natural numbers: a negative one panics at the
first slice expression.
-/

namespace CryptPilot.VerityGo

open CryptPilot.Data
open CryptPilot.VerityCore (Bytes trailingZerosAux)

/-- The packages `crypto/sha256` and `crypto/sha512`: two arbitrary functions. -/
structure Crypto where
  sha256 : Bytes → List.Vector UInt8 32
  sha512 : Bytes → List.Vector UInt8 64

/-- A running `hash.Hash`: the bytes written to it. -/
inductive Hash where
  | sha256 (written : Bytes)
  | sha512 (written : Bytes)
  deriving DecidableEq

namespace Hash

def write (data : Bytes) : Hash → Hash
  | sha256 written => sha256 (written ++ data)
  | sha512 written => sha512 (written ++ data)

def sum (C : Crypto) : Hash → Bytes
  | sha256 written => (C.sha256 written).toList
  | sha512 written => (C.sha512 written).toList

end Hash

/-- `make([]byte, n)`. -/
def zeros (n : Nat) : Bytes := List.replicate n 0

/-- `HashAlgorithm`, a `uint8` with two values that have a name. -/
structure HashAlgorithm where
  val : UInt8
  deriving DecidableEq

namespace HashAlgorithm

def hashSHA256 : HashAlgorithm := ⟨1⟩
def hashSHA512 : HashAlgorithm := ⟨2⟩

def digestSize (self : HashAlgorithm) : Nat :=
  if self = hashSHA256 then 32 else if self = hashSHA512 then 64 else 0

def blockSize (self : HashAlgorithm) : Nat :=
  if self = hashSHA256 then 64 else if self = hashSHA512 then 128 else 0

/-- `newHash`. Other values have a nil hash; it is written to wherever one is made, and that
panics. -/
def newHash (self : HashAlgorithm) : Option Hash :=
  if self = hashSHA256 then some (.sha256 []) else if self = hashSHA512 then some (.sha512 [])
  else none

end HashAlgorithm

/-- The loop over a salt in `newSaltedHash` and `saltToDigest`: every piece is padded to the block
size of the hash. -/
def writeSalt (blockSize : Nat) (salt : Bytes) (h : Hash) : Hash :=
  (chunks blockSize salt).foldl (fun h piece =>
    let h := h.write piece
    let padding := blockSize - piece.length
    if padding < blockSize then h.write (zeros padding) else h) h

def newSaltedHash (algo : HashAlgorithm) (salt : Bytes) : Option Hash :=
  algo.newHash.map (writeSalt algo.blockSize salt)

def saltToDigest (algo : HashAlgorithm) (salt : Bytes) : Option Hash :=
  algo.newHash.map (writeSalt algo.blockSize salt)

/-! ## Blocks -/

/-- `fixedSizeBlock`. -/
structure FixedSizeBlock where
  h : Hash
  remaining : Int
  algo : HashAlgorithm
  salt : Bytes
  blockSize : Nat
  deriving DecidableEq

def newFixedSizeBlock (algo : HashAlgorithm) (salt : Bytes) (blockSize : Nat) :
    Option FixedSizeBlock :=
  (newSaltedHash algo salt).map fun h => ⟨h, blockSize, algo, salt, blockSize⟩

namespace FixedSizeBlock

def append (self : FixedSizeBlock) (data : Bytes) : FixedSizeBlock :=
  { self with h := self.h.write data, remaining := self.remaining - data.length }

/-- Pads with zeroes to the block size, and returns the hash. -/
def fillToEnd (C : Crypto) (self : FixedSizeBlock) : Bytes × FixedSizeBlock :=
  let self := if self.remaining > 0 then
    { self with h := self.h.write (zeros self.remaining.toNat), remaining := 0 } else self
  (self.h.sum C, self)

/-- Appends as much as possible, returning the overflow. A block that is overfilled already panics:
`data[:n]` with a negative `n`. -/
def overflowingAppend (self : FixedSizeBlock) (data : Bytes) : Option (FixedSizeBlock × Bytes) :=
  let n := if (data.length : Int) < self.remaining then (data.length : Int) else self.remaining
  if n < 0 then none else some (self.append (data.take n.toNat), data.drop n.toNat)

/-- The hash of the block, and the block reset to an empty one. -/
def finalizeAndReset (C : Crypto) (self : FixedSizeBlock) : Option (Bytes × FixedSizeBlock) := do
  let (out, self) := self.fillToEnd C
  let h ← newSaltedHash self.algo self.salt
  return (out, { self with h := h, remaining := self.blockSize })

end FixedSizeBlock

/-! ## The Merkle tree and the descriptor -/

structure MerkleTree where
  level1 : List Bytes
  algo : HashAlgorithm
  deriving DecidableEq

structure FsVerityDescriptor where
  version : UInt8
  hashAlgorithm : HashAlgorithm
  logBlocksize : UInt8
  dataSize : UInt64
  rootHash : Bytes
  salt : Bytes
  deriving DecidableEq

/-- `hashPadded`. -/
def hashPadded (h : Hash) (data : Bytes) (targetSize : Nat) : Hash :=
  let h := h.write data
  if data.length < targetSize then h.write (zeros (targetSize - data.length)) else h

namespace FsVerityDescriptor

/-- `DataSizeToBytes`. -/
def dataSizeToBytes (self : FsVerityDescriptor) : Bytes :=
  [self.dataSize.toUInt8, (self.dataSize >>> 8).toUInt8, (self.dataSize >>> 16).toUInt8,
    (self.dataSize >>> 24).toUInt8, (self.dataSize >>> 32).toUInt8, (self.dataSize >>> 40).toUInt8,
    (self.dataSize >>> 48).toUInt8, (self.dataSize >>> 56).toUInt8]

/-- `ToDescriptorHash`. -/
def toDescriptorHash (C : Crypto) (self : FsVerityDescriptor) : Option Bytes := do
  let h ← saltToDigest self.hashAlgorithm self.salt
  let h := h.write [self.version]
  let h := h.write [self.hashAlgorithm.val]
  let h := h.write [self.logBlocksize]
  let h := h.write [UInt8.ofNat self.salt.length]
  let h := h.write (zeros 4)
  let h := h.write self.dataSizeToBytes
  let h := hashPadded h self.rootHash 64
  let h := hashPadded h self.salt 32
  let h := h.write (zeros 144)
  return h.sum C

end FsVerityDescriptor

/-! ## The streaming hasher -/

structure FsVerityConfig where
  blockSize : Nat
  salt : Bytes
  algo : HashAlgorithm
  deriving DecidableEq

structure FsVerityDigest where
  config : FsVerityConfig
  levels : List FixedSizeBlock
  merkleTree : MerkleTree
  deriving DecidableEq

def newFsVerityWithSaltAndBlockSize (algo : HashAlgorithm) (salt : Bytes) (blockSize : Nat) :
    FsVerityDigest :=
  ⟨⟨blockSize, salt, algo⟩, [], ⟨[], algo⟩⟩

/-- `trailingZeros`. -/
def trailingZeros (n : Nat) : Nat := if n = 0 then 0 else trailingZerosAux 64 n

namespace FsVerityDigest

variable (C : Crypto)

/-- The loop of `update` over the levels, from `levelIdx` on: the levels after it, what is left for
a new top level, and the tree. -/
def updateLevels (digestSize : Nat) (levelIdx : Nat) (keepSpace : Bool) (overflow : Bytes)
    (tree : MerkleTree) : List FixedSizeBlock → Option (List FixedSizeBlock × Bytes × MerkleTree)
  | [] => some ([], overflow, tree)
  | level :: rest => do
    let (level, overflow) ← level.overflowingAppend overflow
    let stop :=
      if keepSpace then decide (level.remaining ≥ digestSize) && decide (overflow.length = 0)
      else decide (overflow.length = 0)
    if stop then return (level :: rest, overflow, tree)
    else
      let (hash, level) ← level.finalizeAndReset C
      let tree := if levelIdx = 0 then { tree with level1 := tree.level1 ++ [hash] } else tree
      let level := level.append overflow
      let (rest, overflow, tree) ← updateLevels digestSize (levelIdx + 1) true hash tree rest
      return (level :: rest, overflow, tree)

/-- One round of the outer loop of `update`. -/
def updateChunk (self : FsVerityDigest) (chunk : Bytes) : Option FsVerityDigest := do
  let (levels, overflow, tree) ←
    updateLevels C self.config.algo.digestSize 0 false chunk self.merkleTree self.levels
  if overflow.length > 0 then
    let level ← newFixedSizeBlock self.config.algo self.config.salt self.config.blockSize
    return ⟨self.config, levels ++ [level.append overflow], tree⟩
  else return ⟨self.config, levels, tree⟩

/-- `update`. With a block size of zero the outer loop does not end. -/
def update (self : FsVerityDigest) (data : Bytes) : Option FsVerityDigest :=
  if self.config.blockSize = 0 ∧ data ≠ [] then none
  else (chunks self.config.blockSize data).foldlM (updateChunk C) self

/-- `Write`. -/
def write (self : FsVerityDigest) (data : Bytes) : Option FsVerityDigest := update C self data

/-- The variables of `Finalize`; `lastHash` is nil at first. -/
structure FlushState where
  lastHash : Option Bytes
  overflow : Bytes
  totalSize : Int64
  scale : Int64
  merkleTree : MerkleTree

/-- The loop of `Finalize`, from `levelIdx` on. -/
def flushLevels (blockSize compressionFactor : Nat) (levelIdx : Nat) (st : FlushState) :
    List FixedSizeBlock → FlushState
  | [] => st
  | level :: rest =>
    let totalSize := st.totalSize + st.scale * Int64.ofInt (blockSize - level.remaining)
    let level := level.append st.overflow
    let (lastHash, _) := level.fillToEnd C
    let merkleTree := if levelIdx = 0 then
      { st.merkleTree with level1 := st.merkleTree.level1 ++ [lastHash] } else st.merkleTree
    flushLevels blockSize compressionFactor (levelIdx + 1)
      ⟨some lastHash, lastHash, totalSize, st.scale * Int64.ofNat compressionFactor, merkleTree⟩ rest

/-- `Finalize`. Without a digest size the division panics. -/
def finalize (self : FsVerityDigest) : Option (FsVerityDescriptor × MerkleTree) :=
  let digestSize := self.config.algo.digestSize
  if digestSize = 0 then none
  else
    let compressionFactor := self.config.blockSize / digestSize
    let st := flushLevels C self.config.blockSize compressionFactor 0
      ⟨none, [], 0, 1, self.merkleTree⟩ self.levels
    some (⟨1, self.config.algo, UInt8.ofNat (trailingZeros self.config.blockSize),
      st.totalSize.toUInt64, st.lastHash.getD (zeros digestSize), self.config.salt⟩, st.merkleTree)

/-- A whole use of the hasher: a fresh one, one `Write` for every entry of `calls`, `Finalize`. -/
def run (algo : HashAlgorithm) (salt : Bytes) (blockSize : Nat) (calls : List Bytes) :
    Option (FsVerityDescriptor × MerkleTree) := do
  let digest ← calls.foldlM (write C) (newFsVerityWithSaltAndBlockSize algo salt blockSize)
  digest.finalize C

end FsVerityDigest

namespace MerkleTree

/-- `RebuildRootHash`. -/
def rebuildRootHash (C : Crypto) (self : MerkleTree) (salt : Bytes) (blockSize : Nat) :
    Option Bytes :=
  match self.level1 with
  | [] => some (zeros self.algo.digestSize)
  | [hash] => some hash
  | level1 => do
    let digest := newFsVerityWithSaltAndBlockSize self.algo salt blockSize
    let digest ← level1.foldlM (FsVerityDigest.write C) digest
    let totalBytes := level1.length * self.algo.digestSize
    -- division by zero
    if blockSize = 0 then none
    else
      let padding := (blockSize - totalBytes % blockSize) % blockSize
      let digest ← (if padding > 0 then digest.write C (zeros padding) else some digest)
      let (desc, _) ← digest.finalize C
      return desc.rootHash

/-- `equalBytes`. -/
def equalBytes (a b : Bytes) : Bool :=
  if a.length ≠ b.length then false else (a.zip b).all fun (x, y) => x = y

/-- `VerifyDataBlock`. A negative index panics. -/
def verifyDataBlock (C : Crypto) (self : MerkleTree) (blockIndex : Int) (blockSize : Nat)
    (data : Bytes) : Option Bool :=
  if data.length > blockSize then some false
  else if blockIndex ≥ self.level1.length then some false
  else if blockIndex < 0 then none
  else do
    let expected ← self.level1[blockIndex.toNat]?
    let h ← self.algo.newHash
    let h := h.write data
    let h := if data.length < blockSize then h.write (zeros (blockSize - data.length)) else h
    let actual := h.sum C
    return equalBytes actual expected

end MerkleTree

end CryptPilot.VerityGo
