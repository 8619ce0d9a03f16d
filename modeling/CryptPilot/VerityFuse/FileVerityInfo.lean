import CryptPilot.Data.Hex
import CryptPilot.VerityCore.Rebuild

/-!
# Recorded files and their self-check

`file_verity_info.rs`. What the metadata records of a file is a descriptor, the level-1 hashes of
its Merkle tree, and the hash of the descriptor in hexadecimal. Only the descriptor hash is pinned
from outside; `verify_self` has to tie the rest to it.

It recomputes the descriptor hash, which pins the descriptor, and rebuilds the root hash from the
level-1 hashes. The number of level-1 hashes is not compared with the size in the descriptor. With
one hash for every block of the data, what verifies against the list is the data
(`verifySelf_binds`); but the list of any higher level of the tree has the same root, and passes too
(`verifySelf_levelTwo`).
-/

namespace CryptPilot.VerityFuse

open CryptPilot.Data CryptPilot.VerityCore

variable {h : Bytes → List.Vector UInt8 32}

structure FileVerityInfo (h : Bytes → List.Vector UInt8 32) where
  path : String
  descriptor : FsVerityDescriptor (sha256 h)
  merkleTree : MerkleTree (sha256 h)
  descriptorHash : String

namespace FileVerityInfo

/-- `FileVerityInfo::verify_self`, where allocations have a limit. -/
def verifySelfWithin (limit : Option Nat) (self : FileVerityInfo h) (p : Profile) :
    Option (Except String Unit) := do
  let hash ← self.descriptor.toDescriptorHash
  let calculatedDescriptorHash := hexEncode hash.toList
  if calculatedDescriptorHash ≠ self.descriptorHash then
    return .error s!"Descriptor hash mismatch for {self.path}, expected {self.descriptorHash}, got {calculatedDescriptorHash}"
  let blockSize ← self.descriptor.blockSize p
  let rootHash ← self.merkleTree.rebuildRootHashWithin limit p self.descriptor.salt blockSize
  if rootHash ≠ self.descriptor.rootHash then
    return .error (s!"Merkle tree root hash mismatch for {self.path}, expected " ++
      hexEncode self.descriptor.rootHash.toList ++ ", got " ++ hexEncode rootHash.toList)
  return .ok ()

/-- The same where there is memory for everything. -/
def verifySelf (self : FileVerityInfo h) (p : Profile) : Option (Except String Unit) :=
  self.verifySelfWithin none p

/-- What is hashed when the self-check runs and a block `b` is verified. -/
def verifyInputs (self : FileVerityInfo h) (blockSize : Nat) (b : Bytes) : List Bytes :=
  self.descriptor.descriptorBytes.toList ++
    nodeInputs (sha256 h) self.descriptor.salt blockSize self.merkleTree.level1 ++
      [zeroPad blockSize b]

/-- The self-check passes when both hashes come out as recorded. -/
theorem verifySelf_ok_iff {self : FileVerityInfo h} {p : Profile} :
    self.verifySelf p = some (.ok ()) ↔
      ∃ hash blockSize, self.descriptor.toDescriptorHash = some hash ∧
        hexEncode hash.toList = self.descriptorHash ∧
        self.descriptor.blockSize p = some blockSize ∧
        self.merkleTree.rebuildRootHash p self.descriptor.salt blockSize =
          some self.descriptor.rootHash := by
  constructor
  · intro hok
    obtain ⟨hash, hhash, hok⟩ := Option.bind_eq_some_iff.mp hok
    dsimp only at hok
    split at hok
    · cases hok
    · next heq =>
      obtain ⟨blockSize, hB, hok⟩ := Option.bind_eq_some_iff.mp hok
      obtain ⟨rootHash, hroot, hok⟩ := Option.bind_eq_some_iff.mp hok
      split at hok
      · cases hok
      · next heq' =>
        rw [not_not] at heq heq'
        exact ⟨hash, blockSize, hhash, heq, hB, heq' ▸ hroot⟩
  · rintro ⟨hash, blockSize, hhash, heq, hB, hroot⟩
    rw [MerkleTree.rebuildRootHash] at hroot
    simp [verifySelf, verifySelfWithin, hhash, heq, hB, hroot]

/-- When the self-check neither panics nor is aborted. The salt fits in its field of the descriptor;
and, if the descriptor hash is as recorded, the block size can be shifted to, and the number of
level-1 hashes is one or one that the hasher can take. -/
def Checkable (limit : Option Nat) (self : FileVerityInfo h) (p : Profile) : Prop :=
  self.descriptor.salt.length ≤ 32 ∧
    (hexEncode (h (saltPad (sha256 h) self.descriptor.salt ++
        self.descriptor.structBytes)).toList = self.descriptorHash →
      (p = .dev → self.descriptor.logBlocksize.toNat < 64) ∧
        (self.merkleTree.level1.length = 1 ∨
          MerkleTree.Rebuildable limit p (2 ^ (self.descriptor.logBlocksize.toNat % 64)) 32
            self.merkleTree.level1.length))

/-- The shift panics under `dev` only, and for 64 or more only. -/
theorem blockSize_isSome_iff {self : FileVerityInfo h} {p : Profile} :
    (∃ B, self.descriptor.blockSize p = some B) ↔
      (p = .dev → self.descriptor.logBlocksize.toNat < 64) := by
  unfold FsVerityDescriptor.blockSize Profile.usizeShl
  split
  · next hlt => exact iff_of_true ⟨_, rfl⟩ fun _ => hlt
  · next hge => cases p <;> simp [hge]

theorem blockSize_eq_some {self : FileVerityInfo h} {p : Profile} {B : Nat}
    (hB : self.descriptor.blockSize p = some B) :
    B = 2 ^ (self.descriptor.logBlocksize.toNat % 64) := by
  unfold FsVerityDescriptor.blockSize Profile.usizeShl at hB
  split at hB
  · next hlt =>
    cases hB
    rw [Nat.mod_eq_of_lt hlt]
  · cases p <;> cases hB
    rfl

theorem toDescriptorHash_eq (self : FileVerityInfo h) :
    self.descriptor.toDescriptorHash =
      if self.descriptor.salt.length ≤ 32 then
        some (h (saltPad (sha256 h) self.descriptor.salt ++ self.descriptor.structBytes))
      else none := by
  have hout : (sha256 h).outputSize ≤ 64 := show 32 ≤ 64 by decide
  rw [FsVerityDescriptor.toDescriptorHash, FsVerityDescriptor.descriptorBytes_eq]
  simp only [hout, and_true]
  split <;> rfl

/-- The self-check returns when each of its steps does that it comes to. -/
theorem verifySelfWithin_isSome_iff_steps {limit : Option Nat} {self : FileVerityInfo h}
    {p : Profile} :
    (∃ r, self.verifySelfWithin limit p = some r) ↔
      ∃ hash, self.descriptor.toDescriptorHash = some hash ∧
        (hexEncode hash.toList = self.descriptorHash →
          ∃ B, self.descriptor.blockSize p = some B ∧
            ∃ root, self.merkleTree.rebuildRootHashWithin limit p self.descriptor.salt B =
              some root) := by
  constructor
  · rintro ⟨r, hr⟩
    obtain ⟨hash, hhash, hr⟩ := Option.bind_eq_some_iff.mp hr
    refine ⟨hash, hhash, fun heq => ?_⟩
    dsimp only at hr
    rw [if_neg (not_not.mpr heq)] at hr
    obtain ⟨B, hB, hr⟩ := Option.bind_eq_some_iff.mp hr
    obtain ⟨root, hroot, -⟩ := Option.bind_eq_some_iff.mp hr
    exact ⟨B, hB, root, hroot⟩
  · rintro ⟨hash, hhash, hsteps⟩
    by_cases heq : hexEncode hash.toList = self.descriptorHash
    · obtain ⟨B, hB, root, hroot⟩ := hsteps heq
      by_cases hsame : root = self.descriptor.rootHash
      · exact ⟨.ok (), by simp [verifySelfWithin, hhash, heq, hB, hroot, hsame]⟩
      · simp [verifySelfWithin, hhash, heq, hB, hroot, hsame]
    · simp [verifySelfWithin, hhash, heq]

/-- The self-check returns, one way or the other, exactly on those records. -/
theorem verifySelfWithin_isSome_iff {limit : Option Nat} {self : FileVerityInfo h} {p : Profile} :
    (∃ r, self.verifySelfWithin limit p = some r) ↔ self.Checkable limit p := by
  rw [verifySelfWithin_isSome_iff_steps, toDescriptorHash_eq, Checkable]
  by_cases hsalt : self.descriptor.salt.length ≤ 32
  · have hpow : IsPowerOfTwo (2 ^ (self.descriptor.logBlocksize.toNat % 64)) :=
      ⟨_, Nat.mod_lt _ (by decide), rfl⟩
    have hrebuild := MerkleTree.rebuildRootHashWithin_isSome_iff (outputSize_sha256 h) limit
      self.merkleTree p self.descriptor.salt (2 ^ (self.descriptor.logBlocksize.toNat % 64))
    have hmax : self.descriptor.salt.length ≤ maxSaltSize := hsalt
    rw [and_iff_right hmax, and_iff_right hpow] at hrebuild
    rw [if_pos hsalt, and_iff_right hsalt, ← blockSize_isSome_iff]
    constructor
    · rintro ⟨hash, hhash, hsteps⟩ heq
      cases hhash
      obtain ⟨B, hB, hroot⟩ := hsteps heq
      rw [blockSize_eq_some hB] at hroot
      exact ⟨⟨B, hB⟩, hrebuild.mp hroot⟩
    · intro hsteps
      refine ⟨_, rfl, fun heq => ?_⟩
      obtain ⟨⟨B, hB⟩, hcount⟩ := hsteps heq
      refine ⟨B, hB, ?_⟩
      rw [blockSize_eq_some hB]
      exact hrebuild.mpr hcount
  · rw [if_neg hsalt]
    exact iff_of_false (fun ⟨_, hnone, _⟩ => nomatch hnone) fun h => hsalt h.1

/-- The record of measured data: its block size, and the hashes of its blocks. -/
theorem genuine_inv {p' : Profile} {salt : Bytes} {B : Nat} {calls : List Bytes}
    {self : FileVerityInfo h}
    (hgen : FsVerityDigest.run (sha256 h) p' salt B calls =
      some (self.descriptor, self.merkleTree)) (p : Profile) :
    IsPowerOfTwo B ∧ 0 < B ∧ self.descriptor.blockSize p = some B ∧
      self.merkleTree = ⟨merkleLevel1 (sha256 h) salt B calls.flatten⟩ := by
  have hd := outputSize_sha256 h
  obtain ⟨⟨cfg, hB, -, -⟩, hr⟩ := FsVerityDigest.run_inv hd hgen
  obtain ⟨hdesc, htree⟩ := Prod.mk.inj hr
  have hpow : IsPowerOfTwo B := hB ▸ cfg.blockSize_pow
  refine ⟨hpow, hB ▸ cfg.blockSize_pos, ?_, htree⟩
  rw [hdesc]
  exact FsVerityDigest.blockSize_descriptorOf hpow p

/-- The record of measured data passes, as long as rebuilding the root does not overflow. -/
theorem verifySelf_genuine {p p' : Profile} {salt : Bytes} {B : Nat} {calls : List Bytes}
    {self : FileVerityInfo h} {m : Output (sha256 h)}
    (hgen : FsVerityDigest.run (sha256 h) p' salt B calls =
      some (self.descriptor, self.merkleTree))
    (hm : self.descriptor.toDescriptorHash = some m)
    (hpin : self.descriptorHash = hexEncode m.toList)
    (hsize : p = .release ∨
      B * (chunks (B / 32) self.merkleTree.level1).length * B < 2 ^ 64) :
    self.verifySelf p = some (.ok ()) := by
  have hd := outputSize_sha256 h
  obtain ⟨hpow, hpos, hbs, htree⟩ := genuine_inv hgen p
  obtain ⟨⟨cfg, rfl, rfl, hcap⟩, hr⟩ := FsVerityDigest.run_inv hd hgen
  obtain ⟨hdesc, -⟩ := Prod.mk.inj hr
  have hlevels : self.merkleTree.level1.length ≤ (cfg.blockSize / (sha256 h).outputSize) ^ 8 := by
    rw [htree]
    exact (length_merkleLevel1_le hpos hcap).trans (Nat.pow_le_pow_right
      (cfg.fanout_pos (FsVerityConfig.outputSize_pos hd)) (by decide))
  have hrebuild := MerkleTree.rebuildRootHash_eq_some hd self.merkleTree cfg.salt_le hpow
    cfg.two_digests_le hlevels hsize
  refine verifySelf_ok_iff.mpr ⟨m, cfg.blockSize, hm, hpin.symm, hbs, ?_⟩
  rw [show self.descriptor.salt = cfg.salt by rw [hdesc]; rfl, hrebuild, htree, hdesc]
  rfl

/-- **Rebuilding the root agrees with hashing.** A run of the hasher over data within the limits
returns, and the root rebuilt from the level-1 hashes it returns is the root it returns. So the
record of such data passes the self-check. -/
theorem rebuildRootHash_run :
    (∀ {H : InnerHash}, H.outputSize = 32 ∨ H.outputSize = 64 → ∀ (p p' : Profile) {salt : Bytes}
        {B : Nat} {calls : List Bytes}, Admissible H salt B calls.flatten →
      ∃ desc tree, FsVerityDigest.run H p' salt B calls = some (desc, tree) ∧
        ∃ blockSize, desc.blockSize p = some blockSize ∧
          tree.rebuildRootHash p desc.salt blockSize = some desc.rootHash) ∧
    ∀ (h : Bytes → List.Vector UInt8 32) (p p' : Profile) {salt : Bytes} {B : Nat}
        {calls : List Bytes}, Admissible (sha256 h) salt B calls.flatten →
      ∃ desc tree hash, FsVerityDigest.run (sha256 h) p' salt B calls = some (desc, tree) ∧
        desc.toDescriptorHash = some hash ∧
        ∀ path, (FileVerityInfo.mk path desc tree (hexEncode hash.toList)).verifySelf p =
          some (.ok ()) := by
  have hroot : ∀ {H : InnerHash}, H.outputSize = 32 ∨ H.outputSize = 64 → ∀ (p : Profile)
      {salt : Bytes} {B : Nat} {D : Bytes}, Admissible H salt B D →
      MerkleTree.rebuildRootHash ⟨merkleLevel1 H salt B D⟩ p salt B =
        some (descriptorOf H salt B D).rootHash :=
    fun hd p _ _ _ ha => MerkleTree.rebuildRootHash_of_admissible hd _ p ha (Nat.le_refl _)
  constructor
  · intro H hd p p' salt B calls ha
    exact ⟨_, _, FsVerityDigest.run_of_admissible hd p' ha, B,
      FsVerityDigest.blockSize_descriptorOf ha.blockSize_pow p, hroot hd p ha⟩
  · intro h p p' salt B calls ha
    have hd := outputSize_sha256 h
    obtain ⟨hash, hhash⟩ := toDescriptorHash_descriptorOf hd ha.salt_le B calls.flatten
    refine ⟨_, _, hash, FsVerityDigest.run_of_admissible hd p' ha, hhash, fun path => ?_⟩
    exact verifySelf_ok_iff.mpr ⟨hash, B, hhash, rfl,
      FsVerityDigest.blockSize_descriptorOf ha.blockSize_pow p, hroot hd p ha⟩

/-- Five blocks, so that there are two levels of hashes above the first. -/
theorem rebuildRootHash_run_five_blocks :
    let calls : List Bytes := [List.replicate 300 1, [2]]
    (∃ desc tree, FsVerityDigest.run (sha256 FsVerityDigest.lengthHash) .dev [7] 64 calls =
        some (desc, tree) ∧
      ∃ blockSize, desc.blockSize .dev = some blockSize ∧
        tree.rebuildRootHash .dev desc.salt blockSize = some desc.rootHash) ∧
    ∃ desc tree hash, FsVerityDigest.run (sha256 FsVerityDigest.lengthHash) .dev [7] 64 calls =
        some (desc, tree) ∧ desc.toDescriptorHash = some hash ∧
      ∀ path, (FileVerityInfo.mk path desc tree (hexEncode hash.toList)).verifySelf .dev =
        some (.ok ()) := by
  intro calls
  have ha : Admissible (sha256 FsVerityDigest.lengthHash) [7] 64 calls.flatten :=
    ⟨by decide, by decide, by decide, by decide +kernel, by decide +kernel⟩
  exact ⟨rebuildRootHash_run.1 (Or.inl rfl) .dev .dev ha,
    rebuildRootHash_run.2 FsVerityDigest.lengthHash .dev .dev ha⟩

/-! ## What the self-check establishes -/

/-- A recorded file with the descriptor hash of `D` that passes the self-check has the descriptor
of `D`, and level-1 hashes with the root of `D`; or two of the strings hashed collide. -/
theorem verifySelf_root {p p' : Profile} {B : Nat} {calls : List Bytes} {m : Output (sha256 h)}
    (hm : FsVerityDigest.measure (sha256 h) p [] B calls = some m) {self : FileVerityInfo h}
    (hpin : self.descriptorHash = hexEncode m.toList)
    (hok : self.verifySelf p' = some (.ok ())) :
    (IsPowerOfTwo B ∧ 64 ≤ B ∧ self.descriptor = descriptorOf (sha256 h) [] B calls.flatten ∧
        rootOf (sha256 h) [] B self.merkleTree.level1 =
          merkleRoot (sha256 h) [] B calls.flatten) ∨
      Collides h (descriptorOf (sha256 h) [] B calls.flatten).descriptorBytes.toList
        self.descriptor.descriptorBytes.toList := by
  have hd := outputSize_sha256 h
  rw [FsVerityDigest.measure_eq] at hm
  obtain ⟨r, hrun, hhash⟩ := Option.bind_eq_some_iff.mp hm
  obtain ⟨⟨cfg, hB, -, -⟩, rfl⟩ := FsVerityDigest.run_inv hd hrun
  have hpow : IsPowerOfTwo B := hB ▸ cfg.blockSize_pow
  obtain ⟨hash, blockSize, hself, hhex, hbs, hroot⟩ := verifySelf_ok_iff.mp hok
  -- the hexadecimal strings agree, so the hashes do
  have hsame : hash = m := List.Vector.toList_injective (hexEncode_inj (hhex.trans hpin))
  subst hsame
  rcases descriptorHash_binding hhash hself with hdesc | hcol
  · rw [← hdesc] at hbs hroot
    rw [FsVerityDigest.blockSize_descriptorOf hpow] at hbs
    cases hbs
    exact Or.inl ⟨hpow, hB ▸ cfg.two_digests_le, hdesc.symm,
      (MerkleTree.rebuildRootHash_inv hd hroot).symm⟩
  · exact Or.inr hcol

/-- **Blocks that verify are blocks of the data.** A recorded file is pinned to `D` by its
descriptor hash, passes the self-check, and lists one hash for every block of `D`. Then whatever
verifies as block `i` is block `i` of `D`, up to trailing zeroes; or two of the strings hashed for
`D`, for the self-check and for the block collide. -/
theorem verifySelf_binds {p p' : Profile} {B : Nat} {calls : List Bytes} {m : Output (sha256 h)}
    (hm : FsVerityDigest.measure (sha256 h) p [] B calls = some m) {self : FileVerityInfo h}
    (hpin : self.descriptorHash = hexEncode m.toList)
    (hok : self.verifySelf p' = some (.ok ()))
    (hcount : self.merkleTree.level1.length = (calls.flatten.length + B - 1) / B)
    {i : Nat} {b : Bytes} (hv : self.merkleTree.verifyDataBlock i B b = true) :
    (i * B < calls.flatten.length ∧
        zeroPad B b = zeroPad B (dataBlock B calls.flatten i)) ∨
      Collides h (measureInputs (sha256 h) [] B calls.flatten) (self.verifyInputs B b) := by
  rcases verifySelf_root hm hpin hok with ⟨-, hle, hdesc, hroot⟩ | hcol
  · have hB : 0 < B := by omega
    have hfan : 2 ≤ B / (sha256 h).outputSize := by
      show 2 ≤ B / 32
      omega
    have hsalt : self.descriptor.salt = [] := by rw [hdesc]; rfl
    rcases rootOf_binding hfan ((length_merkleLevel1 hB _).trans hcount.symm) hroot.symm with
      hlevel1 | hcol
    · -- the list is the genuine one, so a block that verifies has a genuine hash
      obtain ⟨level1, heq⟩ : ∃ level1, self.merkleTree = ⟨level1⟩ := ⟨_, rfl⟩
      rw [heq] at hlevel1 hv
      dsimp only at hlevel1
      subst hlevel1
      rcases MerkleTree.verifyDataBlock_binds hB hv with hblock | hcol
      · exact Or.inl hblock
      · refine Or.inr (hcol.mono ?_ (List.subset_append_right _ _))
        exact List.Subset.trans (List.subset_append_left _ _) (List.subset_append_left _ _)
    · refine Or.inr (hcol.mono ?_ ?_)
      · exact List.Subset.trans (List.subset_append_right _ _) (List.subset_append_left _ _)
      · rw [verifyInputs, hsalt]
        exact List.Subset.trans (List.subset_append_right _ _) (List.subset_append_left _ _)
  · refine Or.inr (hcol.mono (List.subset_append_right _ _) ?_)
    exact List.Subset.trans (List.subset_append_left _ _) (List.subset_append_left _ _)

/-! ## Level confusion -/

/-- Metadata for `D` with the hashes of level two in place of those of level one. -/
def levelTwo (path : String) (B : Nat) (D : Bytes) (m : Output (sha256 h)) : FileVerityInfo h where
  path := path
  descriptor := descriptorOf (sha256 h) [] B D
  merkleTree := ⟨parents (B / 32) (nodeHash (sha256 h) [] B) (merkleLevel1 (sha256 h) [] B D)⟩
  descriptorHash := hexEncode m.toList

/-- Such metadata passes the self-check for all data of at least two blocks, and the hash blocks of
level one verify as if they were data. -/
theorem verifySelf_levelTwo (p : Profile) (path : String) {B : Nat} {D : Bytes}
    {m : Output (sha256 h)} (ha : Admissible (sha256 h) [] B D)
    (hblocks : 2 ≤ (merkleLevel1 (sha256 h) [] B D).length)
    (hm : (descriptorOf (sha256 h) [] B D).toDescriptorHash = some m) :
    (levelTwo path B D m).verifySelf p = some (.ok ()) ∧
      ∀ i g, (chunks (B / 32) (merkleLevel1 (sha256 h) [] B D))[i]? = some g →
        (levelTwo path B D m).merkleTree.verifyDataBlock i B (digestBytes g) = true := by
  have hd := outputSize_sha256 h
  have hB : 64 ≤ B := ha.two_digests_le
  have hfan : 2 ≤ B / 32 := by omega
  have hgroups : (chunks (B / 32) (merkleLevel1 (sha256 h) [] B D)).length <
      (merkleLevel1 (sha256 h) [] B D).length := length_chunks_lt hfan hblocks
  constructor
  · refine verifySelf_ok_iff.mpr ⟨m, B, hm, rfl,
      FsVerityDigest.blockSize_descriptorOf ha.blockSize_pow p, ?_⟩
    have hlen : (levelTwo path B D m).merkleTree.level1.length =
        (chunks (B / 32) (merkleLevel1 (sha256 h) [] B D)).length := List.length_map _
    have hrebuild := MerkleTree.rebuildRootHash_of_admissible hd
      (levelTwo path B D m).merkleTree p ha (by omega)
    refine hrebuild.trans (congrArg some ?_)
    exact (root_step hfan _ hblocks).symm
  · intro i g hg
    have hmem := List.mem_of_getElem? hg
    refine MerkleTree.verifyDataBlock_iff.mpr ⟨?_, ?_⟩
    · have hlen := length_le_of_mem_chunks (by omega) _ _ hmem
      rw [length_digestBytes]
      show 32 * g.length ≤ B
      omega
    · show (parents (B / 32) (nodeHash (sha256 h) [] B) (merkleLevel1 (sha256 h) [] B D))[i]? = _
      rw [parents, List.getElem?_map, hg, Option.map_some, nodeHash, blockHash, saltPad_nil,
        List.nil_append]

/-- Two blocks of data for examples. -/
def twoBlocks : Bytes := List.replicate 64 1 ++ List.replicate 64 2

/-- The level-1 hashes of `twoBlocks`. -/
def twoHashes : List (Output (sha256 FsVerityDigest.lengthHash)) :=
  [FsVerityDigest.lengthHash (List.replicate 64 1), FsVerityDigest.lengthHash (List.replicate 64 2)]

/-- The descriptor of `twoBlocks`. -/
def twoDescriptor : FsVerityDescriptor (sha256 FsVerityDigest.lengthHash) :=
  ⟨1, 1, 6, 128, FsVerityDigest.lengthHash (digestBytes twoHashes), []⟩

/-- The measurement of `twoBlocks`. -/
def twoMeasure : Output (sha256 FsVerityDigest.lengthHash) :=
  FsVerityDigest.lengthHash twoDescriptor.structBytes

theorem run_twoBlocks :
    FsVerityDigest.run (sha256 FsVerityDigest.lengthHash) .dev [] 64 [twoBlocks] =
      some (twoDescriptor, ⟨twoHashes⟩) := by
  decide +kernel

/-- What is hashed for `twoBlocks`: the blocks, the level-1 hashes, and the descriptor. -/
theorem measureInputs_twoBlocks :
    measureInputs (sha256 FsVerityDigest.lengthHash) [] 64 twoBlocks =
      [List.replicate 64 1, List.replicate 64 2, digestBytes twoHashes,
        twoDescriptor.structBytes] := by
  obtain ⟨-, hr⟩ := FsVerityDigest.run_inv (Or.inl rfl) run_twoBlocks
  obtain ⟨hdesc, htree⟩ := Prod.mk.inj hr
  have hflat : [twoBlocks].flatten = twoBlocks := List.flatten_singleton
  rw [hflat] at hdesc htree
  rw [measureInputs, treeInputs, ← hdesc, ← (MerkleTree.mk.inj htree),
    nodeInputs_of_length_le_fanout (by decide) (by decide)]
  decide +kernel

/-- Genuine metadata for `twoBlocks`. -/
def twoInfo : FileVerityInfo FsVerityDigest.lengthHash :=
  ⟨"f", twoDescriptor, ⟨twoHashes⟩, hexEncode twoMeasure.toList⟩

theorem verifySelf_binds_two_blocks :
    (1 * 64 < [twoBlocks].flatten.length ∧
        zeroPad 64 (List.replicate 64 2) = zeroPad 64 (dataBlock 64 [twoBlocks].flatten 1)) ∨
      Collides FsVerityDigest.lengthHash
        (measureInputs (sha256 FsVerityDigest.lengthHash) [] 64 [twoBlocks].flatten)
        (twoInfo.verifyInputs 64 (List.replicate 64 2)) := by
  have hm : FsVerityDigest.measure (sha256 FsVerityDigest.lengthHash) .dev [] 64 [twoBlocks] =
      some twoMeasure := by
    decide +kernel
  have hok : twoInfo.verifySelf .dev = some (.ok ()) := by
    decide +kernel
  have hcount : twoInfo.merkleTree.level1.length = ([twoBlocks].flatten.length + 64 - 1) / 64 := by
    decide +kernel
  have hv : twoInfo.merkleTree.verifyDataBlock 1 64 (List.replicate 64 2) = true := by
    decide +kernel
  have hpin : twoInfo.descriptorHash = hexEncode twoMeasure.toList := rfl
  exact verifySelf_binds hm hpin hok hcount hv

/-- Metadata that records the root hash of `twoBlocks` as its only level-1 hash. -/
def rootAsLevel1 : FileVerityInfo FsVerityDigest.lengthHash :=
  ⟨"f", twoDescriptor, ⟨[twoDescriptor.rootHash]⟩, hexEncode twoMeasure.toList⟩

theorem verifySelf_level_confusion :
    FsVerityDigest.measure (sha256 FsVerityDigest.lengthHash) .dev [] 64 [twoBlocks] =
        some twoMeasure ∧
      rootAsLevel1.descriptorHash = hexEncode twoMeasure.toList ∧
      rootAsLevel1.verifySelf .dev = some (.ok ()) ∧
      (digestBytes twoHashes).length ≤ 64 ∧
      rootAsLevel1.merkleTree.verifyDataBlock 0 64 (digestBytes twoHashes) = true ∧
      zeroPad 64 (digestBytes twoHashes) ≠ zeroPad 64 (dataBlock 64 twoBlocks 0) ∧
      ¬ Collides FsVerityDigest.lengthHash
          (measureInputs (sha256 FsVerityDigest.lengthHash) [] 64 twoBlocks)
          (rootAsLevel1.verifyInputs 64 (digestBytes twoHashes)) := by
  refine ⟨by decide +kernel, rfl, by decide +kernel, by decide, by decide +kernel,
    by decide +kernel, ?_⟩
  rw [measureInputs_twoBlocks, verifyInputs, nodeInputs_of_length_le_one (by decide)]
  decide +kernel

end FileVerityInfo

end CryptPilot.VerityFuse
