import CryptPilot.VerityCore.Binding

/-!
# Rebuilding the root from level-1 hashes, and verifying blocks against them

`rebuild_root_hash` runs the hasher over the hashes as if they were data, padded to whole blocks.
The blocks of that data are the hash blocks of the tree, so the root of the run is the root over
the hashes (`rebuildRootHash_inv`). One hash is its own root, and does not go through the hasher.

`verify_data_block` compares one unsalted block hash. Against the hashes of unsalted data, only the
data verifies, up to trailing zeroes (`verifyDataBlock_binds`).
-/

namespace CryptPilot.VerityCore

open CryptPilot.Data

variable {H : InnerHash}

/-- The zero bytes after `n` bytes that complete the last block. -/
def padding (blockSize n : Nat) : Nat := (blockSize - n % blockSize) % blockSize

theorem dvd_add_padding {B : Nat} (hB : 0 < B) (n : Nat) : B ∣ n + padding B n := by
  have hdm := Nat.div_add_mod n B
  have hlt := Nat.mod_lt n hB
  rw [padding]
  rcases Nat.eq_zero_or_pos (n % B) with h0 | hpos
  · rw [h0, Nat.sub_zero, Nat.mod_self]
    exact Nat.dvd_of_mod_eq_zero h0
  · rw [Nat.mod_eq_of_lt (by omega : B - n % B < B)]
    refine ⟨n / B + 1, ?_⟩
    rw [Nat.mul_add]
    omega

theorem zeroPad_append_replicate {n k : Nat} {data : Bytes} (h : data.length + k ≤ n) :
    zeroPad n (data ++ List.replicate k 0) = zeroPad n data := by
  rw [zeroPad, zeroPad, List.append_assoc, List.replicate_append_replicate, List.length_append,
    List.length_replicate]
  congr 2
  omega

theorem blockHash_append_replicate {salt : Bytes} {B k : Nat} {data : Bytes}
    (h : data.length + k ≤ B) :
    blockHash H salt B (data ++ List.replicate k 0) = blockHash H salt B data := by
  rw [blockHash, blockHash, zeroPad_append_replicate h]

/-- The blocks of padded hashes are the hash blocks over them. -/
theorem merkleLevel1_digestBytes {salt : Bytes} {B c : Nat} (hc : 0 < c) (hpos : 0 < H.outputSize)
    (hB : H.outputSize * c = B) (hs : List (Output H)) :
    merkleLevel1 H salt B
        (digestBytes hs ++ List.replicate (padding B (H.outputSize * hs.length)) 0) =
      parents c (nodeHash H salt B) hs := by
  have hBpos : 0 < B := hB ▸ Nat.mul_pos hpos hc
  induction hs using chunks_induction hc with
  | nil => simp [digestBytes, merkleLevel1, parents, padding]
  | step hs h ih =>
    have hlenpos := List.length_pos_of_ne_nil h
    have hbytes := length_digestBytes hs
    rw [parents, chunks_of_ne_nil hc h, List.map_cons]
    rcases Nat.lt_or_ge hs.length c with hlt | hge
    · -- the last group: padded to exactly one block
      have hltB : H.outputSize * hs.length < B := by
        rw [← hB]
        exact Nat.mul_lt_mul_of_pos_left hlt hpos
      have hne : 0 < H.outputSize * hs.length := Nat.mul_pos hpos hlenpos
      have hpad : padding B (H.outputSize * hs.length) = B - H.outputSize * hs.length := by
        rw [padding, Nat.mod_eq_of_lt hltB, Nat.mod_eq_of_lt (by omega)]
      have hchunk : chunks B (digestBytes hs ++
          List.replicate (B - H.outputSize * hs.length) 0) =
            [digestBytes hs ++ List.replicate (B - H.outputSize * hs.length) 0] := by
        apply chunks_of_length_le
        · intro hnil
          have := congrArg List.length hnil
          rw [List.length_append, hbytes, List.length_nil] at this
          omega
        · rw [List.length_append, List.length_replicate, hbytes]; omega
      rw [hpad, merkleLevel1, hchunk, List.map_singleton,
        blockHash_append_replicate (by rw [hbytes]; omega), List.take_of_length_le (by omega),
        List.drop_eq_nil_of_le (by omega)]
      rfl
    · -- a whole group is a whole block
      have hsplit : digestBytes hs = digestBytes (hs.take c) ++ digestBytes (hs.drop c) := by
        rw [← digestBytes_append, List.take_append_drop]
      have hfirst : (digestBytes (hs.take c)).length = B := by
        rw [length_digestBytes, List.length_take, Nat.min_eq_left hge, hB]
      have hpad : padding B (H.outputSize * hs.length) =
          padding B (H.outputSize * (hs.drop c).length) := by
        have hle : B ≤ H.outputSize * hs.length := by
          rw [← hB]
          exact Nat.mul_le_mul_left _ hge
        rw [padding, padding, List.length_drop, Nat.mul_sub, hB, ← Nat.mod_eq_sub_mod hle]
      have hchunk : chunks B (digestBytes (hs.take c)) = [digestBytes (hs.take c)] := by
        apply chunks_of_length_le
        · intro hnil
          rw [hnil, List.length_nil] at hfirst
          omega
        · omega
      rw [hpad, hsplit, List.append_assoc, merkleLevel1,
        chunks_append hBpos _ _ (by rw [hfirst]), hchunk, List.map_append, List.map_singleton]
      exact congrArg (nodeHash H salt B (hs.take c) :: ·) ih

/-- The data that `rebuild_root_hash` feeds to the hasher. -/
def rebuildCalls (blockSize : Nat) (hs : List (Output H)) : List Bytes :=
  hs.map List.Vector.toList ++
    [List.replicate (padding blockSize (H.outputSize * hs.length)) 0]

theorem flatten_rebuildCalls (B : Nat) (hs : List (Output H)) :
    (rebuildCalls B hs).flatten =
      digestBytes hs ++ List.replicate (padding B (H.outputSize * hs.length)) 0 := by
  rw [rebuildCalls, List.flatten_append, ← List.flatMap_def, List.flatten_singleton]
  rfl

/-- The root over padded hashes is the root over the hashes, unless there is only one. -/
theorem merkleRoot_rebuildCalls (hd : H.outputSize = 32 ∨ H.outputSize = 64)
    (cfg : FsVerityConfig H) {hs : List (Output H)} (h1 : hs.length ≠ 1) :
    merkleRoot H cfg.salt cfg.blockSize (rebuildCalls cfg.blockSize hs).flatten =
      rootOf H cfg.salt cfg.blockSize hs := by
  have hc := cfg.two_le_fanout (FsVerityConfig.outputSize_pos hd)
  rw [flatten_rebuildCalls, merkleRoot, merkleLevel1_digestBytes (by omega)
    (FsVerityConfig.outputSize_pos hd) (cfg.outputSize_mul_fanout hd)]
  rcases hs with _ | ⟨h, _ | ⟨h', hs⟩⟩
  · rfl
  · exact absurd rfl h1
  · exact (root_step hc (zeroDigest H) (by simp)).symm

/-- There is a whole block of that data for every hash block. -/
theorem length_rebuildCalls (hd : H.outputSize = 32 ∨ H.outputSize = 64)
    (cfg : FsVerityConfig H) (hs : List (Output H)) :
    (rebuildCalls cfg.blockSize hs).flatten.length =
      cfg.blockSize * (chunks cfg.fanout hs).length := by
  have hB := cfg.blockSize_pos
  have hc := cfg.two_le_fanout (FsVerityConfig.outputSize_pos hd)
  have hdvd : cfg.blockSize ∣ (rebuildCalls cfg.blockSize hs).flatten.length := by
    rw [flatten_rebuildCalls, List.length_append, length_digestBytes, List.length_replicate]
    exact dvd_add_padding hB _
  obtain ⟨k, hk⟩ := hdvd
  have hcount : (merkleLevel1 H cfg.salt cfg.blockSize
      (rebuildCalls cfg.blockSize hs).flatten).length = (chunks cfg.fanout hs).length := by
    rw [flatten_rebuildCalls, merkleLevel1_digestBytes (by omega)
      (FsVerityConfig.outputSize_pos hd) (cfg.outputSize_mul_fanout hd), parents, List.length_map]
  rw [length_merkleLevel1 hB, hk, Nat.add_sub_assoc hB, Nat.mul_add_div hB,
    Nat.div_eq_of_lt (by omega), Nat.add_zero] at hcount
  rw [hk, hcount]

namespace MerkleTree

theorem zeroVec_of_fits {limit : Option Nat} {n : Nat} (h : ∀ l ∈ limit, n ≤ l) :
    zeroVec limit n = zeroVec none n := by
  cases limit with
  | none => rfl
  | some limit => exact if_pos (h limit rfl)

theorem zeroVec_of_not_fits {limit : Option Nat} {n : Nat} (h : ¬∀ l ∈ limit, n ≤ l) :
    zeroVec limit n = none := by
  cases limit with
  | none => exact absurd nofun h
  | some limit =>
    refine if_neg fun hle => h fun l hl => ?_
    cases hl
    exact hle

/-- A limit matters only if the padding is allocated. -/
theorem rebuildRootHashWithin_eq (limit : Option Nat) (self : MerkleTree H) (p : Profile)
    (salt : Bytes) (B : Nat) :
    self.rebuildRootHashWithin limit p salt B =
      if self.level1.length = 1 ∨ ∀ l ∈ limit, padding B (H.outputSize * self.level1.length) ≤ l then
        self.rebuildRootHash p salt B
      else none := by
  rw [rebuildRootHash, rebuildRootHashWithin, rebuildRootHashWithin]
  split
  · next hash heq => rw [heq, if_pos (.inl rfl)]
  · next hne =>
    have h1 : self.level1.length ≠ 1 := fun h1 => by
      obtain ⟨hash, hsingle⟩ := List.length_eq_one_iff.mp h1
      exact hne hash hsingle
    have hpad : (B - self.level1.length * H.outputSize % B) % B =
        padding B (H.outputSize * self.level1.length) := by
      rw [padding, Nat.mul_comm]
    dsimp only
    rw [hpad]
    by_cases hfits : ∀ l ∈ limit, padding B (H.outputSize * self.level1.length) ≤ l
    · rw [if_pos (.inr hfits), zeroVec_of_fits hfits]
    · rw [if_neg (not_or.mpr ⟨h1, hfits⟩), zeroVec_of_not_fits hfits]
      simp

/-- One hash is its own root. -/
@[simp] theorem rebuildRootHash_singleton (hash : Output H) (p : Profile) (salt : Bytes) (B : Nat) :
    rebuildRootHash ⟨[hash]⟩ p salt B = some hash :=
  rfl

/-- But for one hash, rebuilding is a run of the hasher. -/
theorem rebuildRootHash_eq_run {self : MerkleTree H} (h1 : self.level1.length ≠ 1) (p : Profile)
    (salt : Bytes) (B : Nat) :
    self.rebuildRootHash p salt B =
      (FsVerityDigest.run H p salt B (rebuildCalls B self.level1)).map (·.1.rootHash) := by
  rw [rebuildRootHash, rebuildRootHashWithin]
  split
  · next hash heq => simp [heq] at h1
  · simp only [zeroVec, FsVerityDigest.run, rebuildCalls, padding, List.foldlM_append, List.foldlM_map,
      Option.bind_eq_bind, Option.map_eq_bind, Option.bind_assoc, Nat.mul_comm, List.foldlM_cons,
      List.foldlM_nil, Option.pure_def]
    rfl

/-- Whatever rebuilding returns is the root over the level-1 hashes. -/
theorem rebuildRootHash_inv (hd : H.outputSize = 32 ∨ H.outputSize = 64) {self : MerkleTree H}
    {p : Profile} {salt : Bytes} {B : Nat} {r : Output H}
    (h : self.rebuildRootHash p salt B = some r) : r = rootOf H salt B self.level1 := by
  by_cases h1 : self.level1.length = 1
  · obtain ⟨level1⟩ := self
    obtain ⟨hash, rfl⟩ := List.length_eq_one_iff.mp h1
    rw [rebuildRootHash_singleton] at h
    cases h
    rw [rootOf, root_singleton]
  · rw [rebuildRootHash_eq_run h1] at h
    obtain ⟨⟨desc, tree⟩, hrun, rfl⟩ := Option.map_eq_some_iff.mp h
    obtain ⟨⟨cfg, rfl, rfl, -⟩, hr⟩ := FsVerityDigest.run_inv hd hrun
    cases hr
    exact merkleRoot_rebuildCalls hd cfg h1

/-- When the run over `n` hashes other than one neither panics nor is aborted: a block has room for
two digests, eight levels of blocks are enough, under `dev` neither the number of bytes overflows nor
the scale after the top level, and the padding can be allocated. -/
def Rebuildable (limit : Option Nat) (p : Profile) (B d n : Nat) : Prop :=
  d * 2 ≤ B ∧ n ≤ (B / d) ^ 8 ∧
    (p = .dev → B * ((n + B / d - 1) / (B / d)) < 2 ^ 64 ∧
      ∃ k, n ≤ (B / d) ^ (k + 1) ∧ (B / d) ^ (k + 1) < 2 ^ 64) ∧
    ∀ l ∈ limit, padding B (d * n) ≤ l

/-- Rebuilding returns exactly for one hash, and for as many as the hasher can take. -/
theorem rebuildRootHashWithin_isSome_iff (hd : H.outputSize = 32 ∨ H.outputSize = 64)
    (limit : Option Nat) (self : MerkleTree H) (p : Profile) (salt : Bytes) (B : Nat) :
    (∃ r, self.rebuildRootHashWithin limit p salt B = some r) ↔
      self.level1.length = 1 ∨ salt.length ≤ maxSaltSize ∧ IsPowerOfTwo B ∧
        Rebuildable limit p B H.outputSize self.level1.length := by
  by_cases h1 : self.level1.length = 1
  · obtain ⟨level1⟩ := self
    obtain ⟨hash, rfl⟩ := List.length_eq_one_iff.mp h1
    exact iff_of_true ⟨hash, rfl⟩ (Or.inl rfl)
  · have hpos := FsVerityConfig.outputSize_pos hd
    have hout : H.outputSize ≤ maxDigestSize := by
      rcases hd with h | h <;> rw [h] <;> decide
    have hmap : (∃ r, self.rebuildRootHashWithin limit p salt B = some r) ↔
        (∃ r, FsVerityDigest.run H p salt B (rebuildCalls B self.level1) = some r) ∧
          ∀ l ∈ limit, padding B (H.outputSize * self.level1.length) ≤ l := by
      rw [rebuildRootHashWithin_eq, rebuildRootHash_eq_run h1]
      by_cases hfits : ∀ l ∈ limit, padding B (H.outputSize * self.level1.length) ≤ l
      · rw [if_pos (.inr hfits), and_iff_left hfits]
        simp
      · rw [if_neg (not_or.mpr ⟨h1, hfits⟩)]
        exact iff_of_false nofun fun h => hfits h.2
    rw [or_iff_right h1, hmap, FsVerityDigest.run_isSome_iff hd, Rebuildable]
    simp only [and_assoc]
    refine and_congr_right fun hsalt => and_congr_right fun hpow => and_congr_right fun htwo => ?_
    rw [← and_assoc, ← and_assoc]
    refine and_congr_left fun _ => ?_
    obtain ⟨cfg, -, rfl, rfl⟩ := FsVerityConfig.new_eq_some hsalt hpow htwo hout
    have hfan := cfg.fanout_pos hpos
    -- whole blocks, so lengths compare as numbers of hash blocks
    have hlevels : ∀ k, cfg.blockSize * (chunks cfg.fanout self.level1).length ≤
        cfg.blockSize * cfg.fanout ^ k ↔ self.level1.length ≤ cfg.fanout ^ (k + 1) := by
      intro k
      rw [Nat.mul_le_mul_left_iff cfg.blockSize_pos, length_chunks_le_iff hfan]
    rw [length_rebuildCalls hd cfg self.level1]
    show _ ≤ cfg.blockSize * cfg.fanout ^ 7 ∧ (p = .dev → _ ∧ ∃ k,
      _ ≤ cfg.blockSize * cfg.fanout ^ k ∧ cfg.fanout ^ (k + 1) < 2 ^ 64) ↔ _
    simp only [hlevels]
    rw [length_chunks hfan]
    rfl

/-- Whatever can be rebuilt fits in eight levels. -/
theorem length_level1_of_rebuildRootHash (hd : H.outputSize = 32 ∨ H.outputSize = 64)
    {self : MerkleTree H} {p : Profile} {salt : Bytes} {B : Nat} {r : Output H}
    (htwo : H.outputSize * 2 ≤ B) (h : self.rebuildRootHash p salt B = some r) :
    self.level1.length ≤ (B / H.outputSize) ^ 8 := by
  rcases (rebuildRootHashWithin_isSome_iff hd none _ _ _ _).mp ⟨r, h⟩ with
    h1 | ⟨-, -, -, hlevels, -⟩
  · have hpos := FsVerityConfig.outputSize_pos hd
    rw [h1]
    exact Nat.one_le_pow _ _ (Nat.div_pos (by omega) hpos)
  · exact hlevels

/-- Rebuilding returns the root over the level-1 hashes, as long as eight levels are enough and
nothing overflows. -/
theorem rebuildRootHash_eq_some (hd : H.outputSize = 32 ∨ H.outputSize = 64) (self : MerkleTree H)
    {p : Profile} {salt : Bytes} {B : Nat} (hsalt : salt.length ≤ maxSaltSize)
    (hpow : IsPowerOfTwo B) (htwo : H.outputSize * 2 ≤ B)
    (hlevels : self.level1.length ≤ (B / H.outputSize) ^ 8)
    (hsize : p = .release ∨
      B * (chunks (B / H.outputSize) self.level1).length * B < 2 ^ 64) :
    self.rebuildRootHash p salt B = some (rootOf H salt B self.level1) := by
  have hout : H.outputSize ≤ maxDigestSize := by
    rcases hd with h | h <;> rw [h] <;> decide
  obtain ⟨cfg, -, rfl, rfl⟩ := FsVerityConfig.new_eq_some hsalt hpow htwo hout
  obtain ⟨r, hr⟩ : ∃ r, self.rebuildRootHash p cfg.salt cfg.blockSize = some r := by
    by_cases h1 : self.level1.length = 1
    · obtain ⟨level1⟩ := self
      obtain ⟨hash, rfl⟩ := List.length_eq_one_iff.mp h1
      exact ⟨hash, rebuildRootHash_singleton hash p _ _⟩
    · have hlen := length_rebuildCalls hd cfg self.level1
      rw [rebuildRootHash_eq_run h1,
        FsVerityDigest.run_of_levels hd hsalt hpow htwo ?_ (by rw [hlen]; exact hsize)]
      · exact ⟨_, rfl⟩
      · rw [hlen]
        apply Nat.mul_le_mul_left
        have hfan := cfg.fanout_pos (FsVerityConfig.outputSize_pos hd)
        exact (length_chunks_le_iff hfan).mpr hlevels
  rw [hr, rebuildRootHash_inv hd hr]

/-- With no more hashes than data within the limits has blocks, rebuilding returns. One hash is its
own root, of blocks of any size; else the hash blocks are fewer than the data blocks. -/
theorem rebuildRootHash_of_admissible (hd : H.outputSize = 32 ∨ H.outputSize = 64)
    (self : MerkleTree H) (p : Profile) {salt : Bytes} {B : Nat} {D : Bytes}
    (ha : Admissible H salt B D)
    (hlen : self.level1.length ≤ (merkleLevel1 H salt B D).length) :
    self.rebuildRootHash p salt B = some (rootOf H salt B self.level1) := by
  by_cases h1 : self.level1.length = 1
  · obtain ⟨level1⟩ := self
    obtain ⟨hash, rfl⟩ := List.length_eq_one_iff.mp h1
    rw [rebuildRootHash_singleton, rootOf, root_singleton]
  · have hpos := FsVerityConfig.outputSize_pos hd
    have htwo := ha.two_digests_le
    have hB : 0 < B := by omega
    have hfan : 2 ≤ B / H.outputSize := by
      rw [Nat.le_div_iff_mul_le hpos]
      omega
    have hseven : (merkleLevel1 H salt B D).length ≤ _ := length_merkleLevel1_le hB ha.levels
    refine rebuildRootHash_eq_some hd self ha.salt_le ha.blockSize_pow htwo ?_ (Or.inr ?_)
    · exact (hlen.trans hseven).trans (Nat.pow_le_pow_right (by omega) (by decide))
    · refine Nat.lt_of_le_of_lt (Nat.mul_le_mul_right B ?_) ha.size
      rcases Nat.eq_zero_or_pos self.level1.length with h0 | hne
      · rw [List.length_eq_zero_iff.mp h0]
        simp
      · have hfewer := length_chunks_lt hfan (by omega : 2 ≤ self.level1.length)
        have hlast : B * (merkleLevel1 H salt B D).length < D.length + B :=
          mul_length_merkleLevel1_lt hB D
        refine Nat.le_trans (Nat.mul_le_mul_left B
          (Nat.le_sub_one_of_lt (Nat.lt_of_lt_of_le hfewer hlen))) ?_
        rw [Nat.mul_sub]
        omega

/-- `verify_data_block` accepts what hashes to the entry, filled up with zeroes. -/
theorem verifyDataBlock_iff {self : MerkleTree H} {i B : Nat} {b : Bytes} :
    self.verifyDataBlock i B b = true ↔
      b.length ≤ B ∧ self.level1[i]? = some (H.finalize (zeroPad B b)) := by
  unfold verifyDataBlock
  split
  · next hlong => simp [Nat.not_le.mpr hlong]
  · next hfit =>
    rw [Nat.not_lt] at hfit
    rw [updatePadded_of_le hfit, List.nil_append, Option.map_some]
    cases self.level1[i]? with
    | none => simp
    | some expected => simp [hfit, eq_comm]

end MerkleTree

/-! ## Blocks of data -/

/-- The `i`-th block of `D`; empty when there is none. -/
def dataBlock (blockSize : Nat) (D : Bytes) (i : Nat) : Bytes :=
  (D.drop (i * blockSize)).take blockSize

theorem length_dataBlock_le (B : Nat) (D : Bytes) (i : Nat) : (dataBlock B D i).length ≤ B :=
  List.length_take_le _ _

theorem getElem?_merkleLevel1 {salt : Bytes} {B : Nat} (hB : 0 < B) (D : Bytes) (i : Nat) :
    (merkleLevel1 H salt B D)[i]? =
      if i * B < D.length then some (blockHash H salt B (dataBlock B D i)) else none := by
  rw [merkleLevel1, List.getElem?_map]
  split
  · next hi => rw [getElem?_chunks hB D i hi]; rfl
  · next hi => rw [getElem?_chunks_none hB D (Nat.le_of_not_lt hi)]; rfl

/-- No salt, no padding. -/
@[simp] theorem saltPad_nil : saltPad H [] = [] := by
  simp [saltPad]

/-- Every block of the data verifies against the hashes of the data, under any number of its
trailing zeroes. -/
theorem MerkleTree.verifyDataBlock_of_zeroPad {B : Nat} {D b : Bytes} {i : Nat} (hB : 0 < B)
    (hi : i * B < D.length) (hb : b.length ≤ B) (hpad : zeroPad B b = zeroPad B (dataBlock B D i)) :
    MerkleTree.verifyDataBlock (H := H) ⟨merkleLevel1 H [] B D⟩ i B b = true := by
  rw [verifyDataBlock_iff, getElem?_merkleLevel1 hB, if_pos hi, blockHash, saltPad_nil, hpad]
  exact ⟨hb, rfl⟩

/-- And nothing else does, unless two blocks collide. This also holds of salted hashes: salt in
front of a block makes it longer than what is hashed here. -/
theorem MerkleTree.verifyDataBlock_binds {salt : Bytes} {B : Nat} {D b : Bytes} {i : Nat}
    (hB : 0 < B)
    (hv : MerkleTree.verifyDataBlock (H := H) ⟨merkleLevel1 H salt B D⟩ i B b = true) :
    (i * B < D.length ∧ zeroPad B b = zeroPad B (dataBlock B D i)) ∨
      Collides H.finalize (leafInputs H salt B D) [zeroPad B b] := by
  obtain ⟨hb, hentry⟩ := verifyDataBlock_iff.mp hv
  rw [getElem?_merkleLevel1 hB] at hentry
  split at hentry
  · next hi =>
    have hmem : blockInput H salt B (dataBlock B D i) ∈ leafInputs H salt B D :=
      List.mem_map_of_mem (List.mem_of_getElem? (getElem?_chunks hB D i hi))
    rcases eq_or_collides hmem (List.mem_singleton_self _) (Option.some.inj hentry) with heq | hcol
    · have heq' : saltPad H salt ++ zeroPad B (dataBlock B D i) = [] ++ zeroPad B b := heq
      refine Or.inl ⟨hi, (List.append_inj_right' heq' ?_).symm⟩
      rw [length_zeroPad (length_dataBlock_le B D i), length_zeroPad hb]
    · exact Or.inr hcol
  · cases hentry

end CryptPilot.VerityCore
