import CryptPilot.VerityFuse.ReadFile

/-!
# Reads from untrusted storage

A file was measured, and its descriptor and tree are the genuine ones. Nothing is assumed of the
storage. Whatever `read_file` accepts as block `i` hashes to the recorded hash of block `i`, so it is
block `i` up to trailing zeroes, or collides with it.

Up to trailing zeroes is not enough. The answer is put together from the blocks as they were read:
a block without some of its trailing zeroes shortens the answer and moves the blocks after it, and a
last block with zeroes added lengthens it (`run_short_block`). As long as no accepted block differs
from the genuine one in this way, every answer is the requested part of the data (`run_sound`).
-/

namespace CryptPilot.VerityFuse

open CryptPilot.Data CryptPilot.VerityCore

variable {h : Bytes → List.Vector UInt8 32} {σ η : Type}

/-- The block size of a measured file, where it is a `u32`. -/
theorem FsEntry.blockSize_genuine {info : FileVerityInfo h} (ino : Nat) {B B' : Nat} {p : Profile}
    (hpow : IsPowerOfTwo B) (hdesc : info.descriptor.blockSize p = some B) (hpos : 0 < B')
    (hbs : (FsEntry.mk ino (.verityEnabled info)).blockSize p = some (some B')) : B' = B := by
  simp only [FsEntry.blockSize, hdesc, Option.bind_eq_bind, Option.bind_some, Option.pure_def,
    Option.some.injEq] at hbs
  subst hbs
  obtain ⟨k, -, rfl⟩ := hpow
  rcases Nat.lt_or_ge k 32 with hk | hk
  · exact Nat.mod_eq_of_lt (Nat.pow_lt_pow_right (by decide) hk)
  · -- cut to a `u32`, larger powers of two are zero
    rw [Nat.mod_eq_zero_of_dvd (Nat.pow_dvd_pow 2 hk)] at hpos
    exact absurd hpos (Nat.lt_irrefl 0)

/-- **Reads return the data.** A file is measured, and then read any number of times from storage
that answers as it likes, through caches of any capacity. If no block that was accepted differs from
the genuine block only in trailing zeroes, every answer is the requested part of the data; or an
accepted block collides with a genuine one. -/
theorem run_sound {p p' : Profile} {salt : Bytes} {B : Nat} {calls : List Bytes}
    {info : FileVerityInfo h} {ino : Nat}
    (hgen : FsVerityDigest.run (sha256 h) p' salt B calls =
      some (info.descriptor, info.merkleTree))
    {S : Storage σ η} {fuel : Nat} {s : σ} {blockCap handleCap : Nat}
    {reqs : List (Int64 × UInt32)} {answers : List (Except Errno Bytes)} {fs' : VerityFS σ η}
    (hrun : VerityFS.run S fuel
      (reqs.map fun r => ⟨(FsEntry.mk ino (.verityEnabled info)).toVerifiableFile p, r.1, r.2⟩)
      (VerityFS.new s blockCap handleCap) = some (answers, fs'))
    (hexact : ∀ e ∈ fs'.verified,
      zeroPad B e.2 = zeroPad B (dataBlock B calls.flatten e.1.blockIndex) →
        e.2 = dataBlock B calls.flatten e.1.blockIndex)
    {k : Nat} {offset : Int64} {size : UInt32} {out : Bytes}
    (hreq : reqs[k]? = some (offset, size)) (hans : answers[k]? = some (.ok out)) :
    out = slice offset.toInt.toNat (offset.toInt.toNat + size.toNat) calls.flatten ∨
      Collides h (leafInputs (sha256 h) salt B calls.flatten)
        (fs'.verified.map fun e => zeroPad B e.2) := by
  obtain ⟨hpow, hpos, hbs, htree⟩ := FileVerityInfo.genuine_inv hgen p
  -- every accepted block was verified against the genuine hashes
  obtain ⟨hinv, -, hout⟩ := VerityFS.run_inv
    (P := fun key raw => info.merkleTree.verifyDataBlock key.blockIndex B raw = true)
    (D := fun _ => calls.flatten)
    (fun r hr i raw hok => by
      obtain ⟨_, -, rfl⟩ := List.mem_map.mp hr
      exact (FsEntry.verifyDataBlock_iff hbs).mp hok)
    (VerityFS.inv_new s blockCap handleCap) hrun
  by_cases hcol : Collides h (leafInputs (sha256 h) salt B calls.flatten)
      (fs'.verified.map fun e => zeroPad B e.2)
  · exact Or.inr hcol
  · have hdata : ∀ e ∈ fs'.verified, e.2 = dataBlock B calls.flatten e.1.blockIndex := by
      intro e he
      have hv := hinv.checked e he
      rw [htree] at hv
      rcases MerkleTree.verifyDataBlock_binds hpos hv with ⟨-, hpad⟩ | hcol'
      · exact hexact e he hpad
      · refine absurd (hcol'.mono (List.Subset.refl _) ?_) hcol
        intro x hx
        rw [List.mem_singleton.mp hx]
        exact List.mem_map_of_mem he
    refine Or.inl (hout ?_ k _ out (by rw [List.getElem?_map, hreq]; rfl) hans)
    intro r hr B' hpos' hbs' i v hv
    obtain ⟨_, -, rfl⟩ := List.mem_map.mp hr
    rw [FsEntry.blockSize_genuine ino hpow hbs hpos' hbs']
    exact hdata _ hv

/-! ## Trailing zeroes -/

/-- Two blocks of data, the first one with trailing zeroes. -/
def zeroTail : Bytes := 1 :: List.replicate 63 0 ++ List.replicate 64 2

/-- The genuine record of `zeroTail`. -/
def zeroTailInfo : FileVerityInfo FsVerityDigest.lengthHash where
  path := "f"
  descriptor :=
    ⟨1, 1, 6, 128, FsVerityDigest.lengthHash
      ((FsVerityDigest.lengthHash (1 :: List.replicate 63 0)).toList ++
        (FsVerityDigest.lengthHash (List.replicate 64 2)).toList), []⟩
  merkleTree :=
    ⟨[FsVerityDigest.lengthHash (1 :: List.replicate 63 0),
      FsVerityDigest.lengthHash (List.replicate 64 2)]⟩
  descriptorHash := ""

def zeroTailFile : VerifiableFile :=
  (FsEntry.mk 2 (.verityEnabled zeroTailInfo)).toVerifiableFile .dev

/-- Storage that holds the first block of `zeroTail` without its zeroes, and the second block in its
place. -/
def shortStorage : Storage Unit Unit where
  openFile s _ := (.ok (), s)
  pread s _ len offset :=
    if offset = 0 then (.ok (([1] : Bytes).take len), s)
    else if offset = 64 then (.ok ((List.replicate 64 2 : Bytes).take len), s)
    else (.ok [], s)
  pread_le s fd len offset data s' h := by
    split at h
    · cases h; exact List.length_take_le _ _
    · split at h
      · cases h; exact List.length_take_le _ _
      · cases h; exact Nat.zero_le _

/-- Storage that holds `zeroTail` as it is. -/
def wholeStorage : Storage Unit Unit where
  openFile s _ := (.ok (), s)
  pread s _ len offset := (.ok ((zeroTail.drop offset.toNat).take len), s)
  pread_le s fd len offset data s' h := by
    cases h
    exact List.length_take_le _ _

/-- The end of reading `zeroTail` from it. -/
def wholeRead : Option (List (Except Errno Bytes) × VerityFS Unit Unit) :=
  VerityFS.run wholeStorage 2
    ([((0 : Int64), (128 : UInt32))].map fun r =>
      ⟨(FsEntry.mk 2 (.verityEnabled zeroTailInfo)).toVerifiableFile .dev, r.1, r.2⟩)
    (VerityFS.new () 8 8)

theorem run_sound_whole_blocks :
    ∃ fs', wholeRead = some ([.ok zeroTail], fs') ∧
      (zeroTail = slice (0 : Int64).toInt.toNat ((0 : Int64).toInt.toNat + (128 : UInt32).toNat)
          [zeroTail].flatten ∨
        Collides FsVerityDigest.lengthHash
          (leafInputs (sha256 FsVerityDigest.lengthHash) [] 64 [zeroTail].flatten)
          (fs'.verified.map fun e => zeroPad 64 e.2)) := by
  have hgen : FsVerityDigest.run (sha256 FsVerityDigest.lengthHash) .dev [] 64 [zeroTail] =
      some (zeroTailInfo.descriptor, zeroTailInfo.merkleTree) := by
    decide +kernel
  have hread : wholeRead.map (fun r => (r.1, r.2.verified)) =
      some ([.ok zeroTail],
        [(⟨2, 1⟩, List.replicate 64 2), (⟨2, 0⟩, 1 :: List.replicate 63 0)]) := by
    decide +kernel
  obtain ⟨⟨answers, fs'⟩, hrun, heq⟩ := Option.map_eq_some_iff.mp hread
  obtain ⟨rfl, hver⟩ := Prod.mk.inj heq
  refine ⟨fs', hrun, run_sound hgen hrun ?_ (List.getElem?_cons_zero) (List.getElem?_cons_zero)⟩
  rw [hver]
  decide +kernel

theorem run_short_block :
    FsVerityDigest.run (sha256 FsVerityDigest.lengthHash) .dev [] 64 [zeroTail] =
        some (zeroTailInfo.descriptor, zeroTailInfo.merkleTree) ∧
      (VerityFS.run shortStorage 3 [⟨zeroTailFile, 0, 128⟩] (VerityFS.new () 8 8)).map
          (fun r => (r.1, r.2.verified)) =
        some ([.ok (1 :: List.replicate 64 2)],
          [(⟨2, 1⟩, List.replicate 64 2), (⟨2, 0⟩, [1])]) ∧
      (1 :: List.replicate 64 2 : Bytes) ≠ slice 0 (0 + 128) zeroTail ∧
      ¬ Collides FsVerityDigest.lengthHash
        (leafInputs (sha256 FsVerityDigest.lengthHash) [] 64 zeroTail)
        [zeroPad 64 (List.replicate 64 2), zeroPad 64 [1]] := by
  refine ⟨by decide +kernel, by decide +kernel, by decide +kernel, by decide +kernel⟩

end CryptPilot.VerityFuse
