import CryptPilot.VerityCore.Correct

/-!
# The measurement is binding

Nothing is assumed about the hash function, so nothing can be said about two inputs with one
measurement except that the two computations collide somewhere. `measureInputs` lists what is
hashed when a measurement is computed: every data block, every hash block of the tree, and the
descriptor. The results say that equal measurements come from equal configurations and equal data,
or that the two lists hold different strings with one digest.

A root hash alone does not determine the data: a hash block and a data block are hashed alike, and
padding hides trailing zeroes. It is the length in the descriptor that fixes the shape of the tree
and the length of its last block; with equal lengths, every level of the two trees is compared
group by group (`Data.root_inj`).
-/

namespace CryptPilot.VerityCore

open CryptPilot.Data

/-! ## What is hashed -/

section
variable (H : InnerHash) (salt : Bytes) (blockSize : Nat)

/-- The string hashed for one block. -/
def blockInput (data : Bytes) : Bytes := saltPad H salt ++ zeroPad blockSize data

/-- The strings hashed for the data blocks. -/
def leafInputs (D : Bytes) : List Bytes := (chunks blockSize D).map (blockInput H salt blockSize)

/-- The strings hashed on the way from level-1 digests to the root. -/
def nodeInputs (hs : List (Output H)) : List Bytes :=
  (inputs (blockSize / H.outputSize) (nodeHash H salt blockSize) hs).map
    fun g => blockInput H salt blockSize (digestBytes g)

/-- The strings hashed for the tree over `D`. -/
def treeInputs (D : Bytes) : List Bytes :=
  leafInputs H salt blockSize D ++ nodeInputs H salt blockSize (merkleLevel1 H salt blockSize D)

/-- The strings hashed for the measurement of `D`. -/
def measureInputs (D : Bytes) : List Bytes :=
  treeInputs H salt blockSize D ++ (descriptorOf H salt blockSize D).descriptorBytes.toList

end

variable {H : InnerHash}

/-! ## The tree -/

/-- Digests have a fixed length, so a group can be read off its bytes. -/
theorem digestBytes_inj (g : List (Output H)) :
    ∀ g' : List (Output H), g.length = g'.length → digestBytes g = digestBytes g' → g = g' := by
  induction g with
  | nil =>
    intro g' hlen _
    exact (List.length_eq_zero_iff.mp hlen.symm).symm
  | cons h g ih =>
    intro g' hlen hbytes
    cases g' with
    | nil => simp at hlen
    | cons h' g' =>
      simp only [digestBytes, List.flatMap_cons] at hbytes
      obtain ⟨hhead, htail⟩ := List.append_inj hbytes (by simp)
      rw [List.Vector.toList_injective hhead, ih g' (by simpa using hlen) htail]

/-- Equally long blocks are told apart after salting and padding. -/
theorem blockInput_inj {salt : Bytes} {B : Nat} {a b : Bytes} (hlen : a.length = b.length)
    (h : blockInput H salt B a = blockInput H salt B b) : a = b :=
  zeroPad_inj hlen (List.append_cancel_left h)

/-- At most one digest is a root already. -/
theorem nodeInputs_of_length_le_one {salt : Bytes} {B : Nat} {hs : List (Output H)}
    (h : hs.length ≤ 1) : nodeInputs H salt B hs = [] := by
  rw [nodeInputs, inputs_of_length_le_one h, List.map_nil]

/-- A few digests make up a single hash block. -/
theorem nodeInputs_of_length_le_fanout {salt : Bytes} {B : Nat} {hs : List (Output H)}
    (h2 : 2 ≤ hs.length) (h : hs.length ≤ B / H.outputSize) :
    nodeInputs H salt B hs = [blockInput H salt B (digestBytes hs)] := by
  have hchunk : chunks (B / H.outputSize) hs = [hs] :=
    chunks_of_length_le (List.ne_nil_of_length_pos (by omega)) h
  rw [nodeInputs, inputs_step (by omega) h2, parents, hchunk, List.map_singleton,
    inputs_of_length_le_one (by simp), List.append_nil, List.map_singleton]

/-- Equally many level-1 digests with one root are equal, or two hash blocks collide. -/
theorem rootOf_binding {salt : Bytes} {B : Nat} (hfan : 2 ≤ B / H.outputSize)
    {hs hs' : List (Output H)} (hlen : hs.length = hs'.length)
    (h : rootOf H salt B hs = rootOf H salt B hs') :
    hs = hs' ∨ Collides H.finalize (nodeInputs H salt B hs) (nodeInputs H salt B hs') := by
  rcases root_inj hfan (zeroDigest H) hs hs' hlen h with heq | ⟨g, hg, g', hg', hne, hl, hcol⟩
  · exact Or.inl heq
  · refine Or.inr ⟨_, List.mem_map_of_mem hg, _, List.mem_map_of_mem hg', ?_, hcol⟩
    intro hin
    have hbytes : digestBytes g = digestBytes g' :=
      blockInput_inj (by rw [length_digestBytes, length_digestBytes, hl]) hin
    exact hne (digestBytes_inj g g' hl hbytes)

/-- Equally long data with one list of level-1 digests is equal, or two data blocks collide. -/
theorem merkleLevel1_binding {salt : Bytes} {B : Nat} (hB : 0 < B) {D D' : Bytes}
    (hlen : D.length = D'.length)
    (h : merkleLevel1 H salt B D = merkleLevel1 H salt B D') :
    D = D' ∨ Collides H.finalize (leafInputs H salt B D) (leafInputs H salt B D') := by
  rcases eq_or_of_map_chunks_eq hB (blockHash H salt B) D D' hlen h with
    heq | ⟨g, hg, g', hg', hne, hl, hcol⟩
  · exact Or.inl heq
  · exact Or.inr ⟨_, List.mem_map_of_mem hg, _, List.mem_map_of_mem hg',
      fun hin => hne (blockInput_inj hl hin), hcol⟩

theorem length_merkleLevel1 {salt : Bytes} {B : Nat} (hB : 0 < B) (D : Bytes) :
    (merkleLevel1 H salt B D).length = (D.length + B - 1) / B := by
  rw [merkleLevel1, List.length_map, length_chunks hB]

theorem mul_length_merkleLevel1_lt {salt : Bytes} {B : Nat} (hB : 0 < B) (D : Bytes) :
    B * (merkleLevel1 H salt B D).length < D.length + B := by
  rw [length_merkleLevel1 hB]
  have := Nat.mul_div_le (D.length + B - 1) B
  omega

theorem length_merkleLevel1_le {salt : Bytes} {B k : Nat} (hB : 0 < B) {D : Bytes}
    (h : D.length ≤ B * k) : (merkleLevel1 H salt B D).length ≤ k := by
  rw [length_merkleLevel1 hB]
  apply Nat.le_of_lt_succ
  apply (Nat.div_lt_iff_lt_mul hB).mpr
  rw [Nat.succ_mul, Nat.mul_comm]
  omega

/-- Equally long data with one root hash is equal, or the two trees collide. -/
theorem merkleRoot_binding {salt : Bytes} {B : Nat} (hB : 0 < B) (hfan : 2 ≤ B / H.outputSize)
    {D D' : Bytes} (hlen : D.length = D'.length)
    (h : merkleRoot H salt B D = merkleRoot H salt B D') :
    D = D' ∨ Collides H.finalize (treeInputs H salt B D) (treeInputs H salt B D') := by
  have hlen1 : (merkleLevel1 H salt B D).length = (merkleLevel1 H salt B D').length := by
    rw [length_merkleLevel1 hB, length_merkleLevel1 hB, hlen]
  rcases rootOf_binding hfan hlen1 h with hlevel1 | hcol
  · rcases merkleLevel1_binding hB hlen hlevel1 with heq | hcol
    · exact Or.inl heq
    · exact Or.inr (hcol.mono (List.subset_append_left _ _) (List.subset_append_left _ _))
  · exact Or.inr (hcol.mono (List.subset_append_right _ _) (List.subset_append_right _ _))

/-! ## The descriptor -/

/-- The lowest digits to the base 256 determine the remainder. -/
theorem mod_eq_of_digits {n m k : Nat} (h : ∀ i < k, n / 256 ^ i % 256 = m / 256 ^ i % 256) :
    n % 256 ^ k = m % 256 ^ k := by
  induction k with
  | zero => rw [Nat.pow_zero, Nat.mod_one, Nat.mod_one]
  | succ k ih =>
    rw [Nat.mod_pow_succ, Nat.mod_pow_succ, ih fun i hi => h i (Nat.lt_succ_of_lt hi),
      h k (Nat.lt_succ_self k)]

/-- Eight little-endian bytes determine the number. -/
theorem toLeBytes_inj {n m : UInt64} (h : toLeBytes n = toLeBytes m) : n = m := by
  have hbyte : ∀ i < 8, n.toNat / 256 ^ i % 256 = m.toNat / 256 ^ i % 256 := by
    intro i hi
    have hi' := congrArg (·[i]?) h
    simp only [toLeBytes, List.getElem?_map, List.getElem?_range hi, Option.map_some,
      Option.some.injEq] at hi'
    simpa using congrArg UInt8.toNat hi'
  have hmod := mod_eq_of_digits hbyte
  rw [show 256 ^ 8 = 2 ^ 64 by decide, Nat.mod_eq_of_lt n.toNat_lt,
    Nat.mod_eq_of_lt m.toNat_lt] at hmod
  exact UInt64.toNat_inj.mp hmod

theorem length_toLeBytes (n : UInt64) : (toLeBytes n).length = 8 := by
  simp [toLeBytes]

namespace FsVerityDescriptor

/-- The 256-byte structure. -/
def structBytes (self : FsVerityDescriptor H) : Bytes :=
  [self.version, self.hashAlgorithm, self.logBlocksize, UInt8.ofNat self.salt.length] ++
    (List.replicate 4 0 ++ (toLeBytes self.dataSize ++ (zeroPad 64 self.rootHash.toList ++
      (zeroPad 32 self.salt ++ List.replicate 144 0))))

theorem length_structBytes {self : FsVerityDescriptor H} (hsalt : self.salt.length ≤ 32)
    (hout : H.outputSize ≤ 64) : self.structBytes.length = 256 := by
  simp only [structBytes, List.length_append, List.length_cons, List.length_nil,
    List.length_replicate, length_toLeBytes, length_zeroPad hsalt,
    length_zeroPad (show self.rootHash.toList.length ≤ 64 by rw [self.rootHash.toList_length]; exact hout)]

/-- What is fed to the hash, if nothing panics: it does when the salt or a digest does not fit in
its field. -/
theorem descriptorBytes_eq (self : FsVerityDescriptor H) :
    self.descriptorBytes =
      if self.salt.length ≤ 32 ∧ H.outputSize ≤ 64 then
        some (saltPad H self.salt ++ self.structBytes)
      else none := by
  have hroot : self.rootHash.toList.length = H.outputSize := self.rootHash.toList_length
  simp only [descriptorBytes, saltToDigest_eq, Option.bind_eq_bind, Option.bind_some,
    updateZeroes_eq]
  by_cases hout : H.outputSize ≤ 64
  · rw [updatePadded_of_le (by omega), Option.bind_some]
    by_cases hsalt : self.salt.length ≤ 32
    · rw [updatePadded_of_le hsalt, Option.bind_some, if_pos ⟨hsalt, hout⟩]
      simp [structBytes]
    · rw [if_neg (fun h => hsalt h.1), updatePadded, if_neg hsalt]
      rfl
  · rw [if_neg (fun h => hout h.2), updatePadded, if_neg (by omega)]
    rfl

theorem descriptorBytes_eq_some {self : FsVerityDescriptor H} {bs : Bytes}
    (h : self.descriptorBytes = some bs) :
    (self.salt.length ≤ 32 ∧ H.outputSize ≤ 64) ∧ bs = saltPad H self.salt ++ self.structBytes := by
  rw [descriptorBytes_eq] at h
  split at h
  · next hle => exact ⟨hle, (Option.some.inj h).symm⟩
  · cases h

/-- The structure determines the descriptor: every field has a fixed place, and the salt is cut
to the length stored in front of it. -/
theorem structBytes_inj {a b : FsVerityDescriptor H} (ha : a.salt.length ≤ 32)
    (hb : b.salt.length ≤ 32) (h : a.structBytes = b.structBytes) : a = b := by
  obtain ⟨hhead, h⟩ := List.append_inj h rfl
  obtain ⟨-, h⟩ := List.append_inj h rfl
  obtain ⟨hsize, h⟩ := List.append_inj h (by rw [length_toLeBytes, length_toLeBytes])
  obtain ⟨hroot, h⟩ := List.append_inj h (by simp [zeroPad])
  simp only [List.cons.injEq, and_true] at hhead
  obtain ⟨hversion, halg, hlog, hlen⟩ := hhead
  have hsaltlen : a.salt.length = b.salt.length := by
    have := congrArg UInt8.toNat hlen
    rwa [UInt8.toNat_ofNat_of_lt' (Nat.lt_of_le_of_lt ha (by decide)),
      UInt8.toNat_ofNat_of_lt' (Nat.lt_of_le_of_lt hb (by decide))] at this
  obtain ⟨hsalt, -⟩ := List.append_inj h (by simp [zeroPad, hsaltlen])
  have hroot' : a.rootHash = b.rootHash :=
    List.Vector.toList_injective (zeroPad_inj (by simp) hroot)
  have hsalt' : a.salt = b.salt := zeroPad_inj hsaltlen hsalt
  exact FsVerityDescriptor.ext hversion halg hlog (toLeBytes_inj hsize) hroot' hsalt'

/-- What is fed to the hash determines the descriptor. The length of the structure is fixed, so
the padded salts in front of it are equally long. -/
theorem descriptorBytes_inj {a b : FsVerityDescriptor H} {bs : Bytes}
    (ha : a.descriptorBytes = some bs) (hb : b.descriptorBytes = some bs) : a = b := by
  obtain ⟨⟨hsa, hout⟩, rfl⟩ := descriptorBytes_eq_some ha
  obtain ⟨⟨hsb, -⟩, heq⟩ := descriptorBytes_eq_some hb
  have hlen := congrArg List.length heq
  rw [List.length_append, List.length_append, length_structBytes hsa hout,
    length_structBytes hsb hout] at hlen
  exact structBytes_inj hsa hsb (List.append_inj heq (by omega)).2

theorem exists_descriptorBytes (self : FsVerityDescriptor H) (hout : H.outputSize ≤ 64)
    (hsalt : self.salt.length ≤ 32) : ∃ bs, self.descriptorBytes = some bs := by
  rw [descriptorBytes_eq, if_pos ⟨hsalt, hout⟩]
  exact ⟨_, rfl⟩

/-- **The encoding is injective.** Two descriptors whose salts and digests fit in their fields are
encoded without a panic, and different ones differently. The size of the blocks to which the hash
has the salt padded is arbitrary. -/
theorem descriptorBytes_injective (hout : H.outputSize ≤ 64) (a b : FsVerityDescriptor H)
    (ha : a.salt.length ≤ 32) (hb : b.salt.length ≤ 32) :
    ∃ bs bs', a.descriptorBytes = some bs ∧ b.descriptorBytes = some bs' ∧ (bs = bs' → a = b) := by
  obtain ⟨bs, hbs⟩ := exists_descriptorBytes a hout ha
  obtain ⟨bs', hbs'⟩ := exists_descriptorBytes b hout hb
  refine ⟨bs, bs', hbs, hbs', ?_⟩
  rintro rfl
  exact descriptorBytes_inj hbs hbs'

/-- No salt, and a salt that is a zero byte. -/
theorem descriptorBytes_injective_zero :
    let H := sha256 fun _ => List.Vector.replicate 32 0
    let unsalted : FsVerityDescriptor H := ⟨1, 1, 12, 0, List.Vector.replicate 32 0, []⟩
    let salted : FsVerityDescriptor H := ⟨1, 1, 12, 0, List.Vector.replicate 32 0, [0]⟩
    ∃ bs bs', unsalted.descriptorBytes = some bs ∧ salted.descriptorBytes = some bs' ∧
      (bs = bs' → unsalted = salted) :=
  descriptorBytes_injective (by decide) _ _ (by decide) (by decide)

end FsVerityDescriptor

/-! ## The measurement -/

/-- Reference descriptors that are equal come from one configuration and equally long data. -/
theorem descriptorOf_inj {salt salt' : Bytes} {B B' : Nat} {D D' : Bytes}
    (hB : IsPowerOfTwo B) (hB' : IsPowerOfTwo B') (hD : D.length < 2 ^ 64)
    (hD' : D'.length < 2 ^ 64) (h : descriptorOf H salt B D = descriptorOf H salt' B' D') :
    salt = salt' ∧ B = B' ∧ D.length = D'.length ∧
      merkleRoot H salt B D = merkleRoot H salt' B' D' := by
  refine ⟨congrArg FsVerityDescriptor.salt h, ?_, ?_, congrArg FsVerityDescriptor.rootHash h⟩
  · have hlog := congrArg (fun d => d.logBlocksize.toNat) h
    simp only [FsVerityDigest.toNat_logBlocksize hB, FsVerityDigest.toNat_logBlocksize hB'] at hlog
    obtain ⟨k, -, rfl⟩ := hB
    obtain ⟨k', -, rfl⟩ := hB'
    rw [Nat.log2_two_pow, Nat.log2_two_pow] at hlog
    rw [hlog]
  · have hsize := congrArg (fun d => d.dataSize.toNat) h
    simpa only [FsVerityDigest.toNat_dataSize hD, FsVerityDigest.toNat_dataSize hD'] using hsize

/-- Descriptors with one hash are equal, or their encodings collide. -/
theorem descriptorHash_binding {a b : FsVerityDescriptor H} {h : Output H}
    (ha : a.toDescriptorHash = some h) (hb : b.toDescriptorHash = some h) :
    a = b ∨ Collides H.finalize a.descriptorBytes.toList b.descriptorBytes.toList := by
  obtain ⟨bs, hbs, rfl⟩ := Option.map_eq_some_iff.mp ha
  obtain ⟨bs', hbs', heq⟩ := Option.map_eq_some_iff.mp hb
  have hmem : bs ∈ a.descriptorBytes.toList := by rw [hbs]; simp
  have hmem' : bs' ∈ b.descriptorBytes.toList := by rw [hbs']; simp
  rcases eq_or_collides hmem hmem' heq.symm with rfl | hcol
  · exact Or.inl (FsVerityDescriptor.descriptorBytes_inj hbs hbs')
  · exact Or.inr hcol

/-- Data with one descriptor hash under possibly different configurations. -/
theorem measure_binding_of_hash (hd : H.outputSize = 32 ∨ H.outputSize = 64)
    {salt salt' : Bytes} {B B' : Nat} {D D' : Bytes}
    (hB : IsPowerOfTwo B) (hB' : IsPowerOfTwo B') (htwo : H.outputSize * 2 ≤ B)
    (hD : D.length < 2 ^ 64) (hD' : D'.length < 2 ^ 64) {h : Output H}
    (hm : (descriptorOf H salt B D).toDescriptorHash = some h)
    (hm' : (descriptorOf H salt' B' D').toDescriptorHash = some h) :
    (salt = salt' ∧ B = B' ∧ D = D') ∨
      Collides H.finalize (measureInputs H salt B D) (measureInputs H salt' B' D') := by
  have hpos := FsVerityConfig.outputSize_pos hd
  rcases descriptorHash_binding hm hm' with hdesc | hcol
  · obtain ⟨rfl, rfl, hlen, hroot⟩ := descriptorOf_inj hB hB' hD hD' hdesc
    have hfan : 2 ≤ B / H.outputSize := by
      rw [Nat.le_div_iff_mul_le hpos, Nat.mul_comm]
      exact htwo
    rcases merkleRoot_binding (by omega) hfan hlen hroot with rfl | hcol
    · exact Or.inl ⟨rfl, rfl, rfl⟩
    · exact Or.inr (hcol.mono (List.subset_append_left _ _) (List.subset_append_left _ _))
  · exact Or.inr (hcol.mono (List.subset_append_right _ _) (List.subset_append_right _ _))

theorem toDescriptorHash_descriptorOf (hd : H.outputSize = 32 ∨ H.outputSize = 64) {salt : Bytes}
    (hsalt : salt.length ≤ maxSaltSize) (B : Nat) (D : Bytes) :
    ∃ h, (descriptorOf H salt B D).toDescriptorHash = some h := by
  have hout : H.outputSize ≤ 64 := by
    rcases hd with h | h <;> omega
  obtain ⟨bs, hbs⟩ := (descriptorOf H salt B D).exists_descriptorBytes hout hsalt
  rw [FsVerityDescriptor.toDescriptorHash, hbs]
  exact ⟨_, rfl⟩

/-- **The measurement is binding.** Two runs of the hasher that end in one descriptor hash ran with
the same salt and block size over the same data, or what they hashed contains two different
strings with the same digest. -/
theorem measure_binding (hd : H.outputSize = 32 ∨ H.outputSize = 64) (p p' : Profile)
    {salt salt' : Bytes} {B B' : Nat} {calls calls' : List Bytes}
    (ha : Admissible H salt B calls.flatten) (ha' : Admissible H salt' B' calls'.flatten)
    (h : FsVerityDigest.measure H p salt B calls = FsVerityDigest.measure H p' salt' B' calls') :
    (salt = salt' ∧ B = B' ∧ calls.flatten = calls'.flatten) ∨
      Collides H.finalize (measureInputs H salt B calls.flatten)
        (measureInputs H salt' B' calls'.flatten) := by
  rw [FsVerityDigest.measure_eq, FsVerityDigest.measure_eq,
    FsVerityDigest.run_of_admissible hd p ha, FsVerityDigest.run_of_admissible hd p' ha',
    Option.bind_some, Option.bind_some] at h
  obtain ⟨m, hm⟩ := toDescriptorHash_descriptorOf hd ha.salt_le B calls.flatten
  have hm' := h.symm.trans hm
  exact measure_binding_of_hash hd ha.blockSize_pow ha'.blockSize_pow ha.two_digests_le
    (ha.length_lt hd) (ha'.length_lt hd) hm hm'

/-- Two blocks that differ at their ends, where the hash for examples does not look. -/
theorem measure_binding_two_blocks :
    let calls : List Bytes := [List.replicate 63 1, [2], List.replicate 16 3]
    let calls' : List Bytes := [List.replicate 64 1, List.replicate 16 3]
    calls.flatten ≠ calls'.flatten ∧
      Collides (sha256 FsVerityDigest.lengthHash).finalize
        (measureInputs (sha256 FsVerityDigest.lengthHash) [] 64 calls.flatten)
        (measureInputs (sha256 FsVerityDigest.lengthHash) [] 64 calls'.flatten) := by
  intro calls calls'
  have hne : calls.flatten ≠ calls'.flatten := by decide
  have hbinding := measure_binding (H := sha256 FsVerityDigest.lengthHash) (Or.inl rfl) .dev .dev
    (show Admissible _ [] 64 calls.flatten from
      ⟨by decide, by decide, by decide, by decide, by decide⟩)
    (show Admissible _ [] 64 calls'.flatten from
      ⟨by decide, by decide, by decide, by decide, by decide⟩)
    (by decide +kernel)
  exact ⟨hne, hbinding.resolve_left fun h => hne h.2.2⟩

end CryptPilot.VerityCore
