import CryptPilot.VerityCore.Streaming
import Mathlib.Data.Nat.ModEq

/-!
# The final flush, and the hasher as a whole

`finalize_into_fs_verity_stuffs` closes every level with the digest of the level below it, and
recovers the number of bytes written from how full the levels are. The result is described twice:

* by inversion (`finalize_inv`, `run_inv`): whatever a run returns is the reference. This needs no
  bound on the input, and holds in both Cargo profiles; sizes are then meant modulo `2 ^ 64`;
* by progress (`run_of_levels`): below the level limit, and where the scale of the top level cannot
  overflow or may wrap, a run does return.
-/

namespace CryptPilot.VerityCore

open CryptPilot.Data

variable {H : InnerHash}

/-- The descriptor of `D`. -/
def descriptorOf (H : InnerHash) (salt : Bytes) (blockSize : Nat) (D : Bytes) :
    FsVerityDescriptor H :=
  ⟨1, H.innerHashAlgorithm.toU8, UInt8.ofNat (Nat.log2 blockSize), UInt64.ofNat D.length,
    merkleRoot H salt blockSize D, salt⟩

/-- A salt and a block size that `FsVerityConfig::new` accepts, and data within the level limit for
which `usize` arithmetic cannot wrap. -/
structure Admissible (H : InnerHash) (salt : Bytes) (blockSize : Nat) (D : Bytes) : Prop where
  salt_le : salt.length ≤ maxSaltSize
  blockSize_pow : IsPowerOfTwo blockSize
  two_digests_le : H.outputSize * 2 ≤ blockSize
  levels : D.length ≤ blockSize * (blockSize / H.outputSize) ^ 7
  size : D.length * blockSize < 2 ^ 64

theorem Admissible.length_lt (hd : H.outputSize = 32 ∨ H.outputSize = 64) {salt : Bytes} {B : Nat}
    {D : Bytes} (h : Admissible H salt B D) : D.length < 2 ^ 64 := by
  have hpos := FsVerityConfig.outputSize_pos hd
  have htwo := h.two_digests_le
  exact Nat.lt_of_le_of_lt (Nat.le_mul_of_pos_right _ (by omega)) h.size

theorem Profile.usize_modEq {p : Profile} {n m : Nat} (h : p.usize n = some m) :
    m ≡ n [MOD 2 ^ 64] := by
  unfold Profile.usize at h
  split at h
  · cases h; rfl
  · cases p with
    | dev => cases h
    | release => cases h; exact Nat.mod_modEq n (2 ^ 64)

/-- Under `dev` a computation goes on where a result does not overflow. -/
theorem Profile.usize_dev_bind {α : Type} {n : Nat} {f : Nat → Option α} :
    (∃ a, (Profile.dev.usize n).bind f = some a) ↔ n < 2 ^ 64 ∧ ∃ a, f n = some a := by
  by_cases h : n < 2 ^ 64
  · rw [Profile.usize_of_lt _ h, Option.bind_some]
    exact (and_iff_right h).symm
  · have hnone : Profile.dev.usize n = none := if_neg h
    rw [hnone]
    exact iff_of_false (fun ⟨_, ha⟩ => nomatch ha) fun ⟨hlt, _⟩ => h hlt

theorem uint64_ofNat_eq_of_modEq {n m : Nat} (h : m ≡ n [MOD 2 ^ 64]) :
    UInt64.ofNat m = UInt64.ofNat n := by
  rw [← UInt64.ofNat_mod_size, h, UInt64.ofNat_mod_size]

namespace FsVerityDigest

variable {cfg : FsVerityConfig H} {p : Profile}

/-! ## Flushing the levels -/

/-- What a level was filled with. -/
theorem usizeSub_holding {data : Bytes} (h : data.length ≤ cfg.blockSize) :
    p.usizeSub cfg.blockSize (FixedSizeBlock.holding cfg data).remaining = some data.length := by
  show p.usizeSub cfg.blockSize (cfg.blockSize - data.length) = _
  rw [Profile.usizeSub_of_le _ (Nat.sub_le _ _), Nat.sub_sub_self h]

theorem append_groupBlock (hpos : 0 < H.outputSize) {g : List (Output H)}
    (hg : g.length < cfg.fanout) (h : Output H) :
    (groupBlock cfg g).append h.toList = some (groupBlock cfg (g ++ [h])) := by
  have hroom := length_digestBytes_add_le hpos hg
  rw [groupBlock, FixedSizeBlock.append_holding (by rw [h.toList_length]; exact hroom), groupBlock,
    digestBytes_append]
  simp [digestBytes]

/-- Flushing open groups closes them bottom up; the sizes add up to what the groups weigh. The
scale and the total are followed modulo `2 ^ 64`, by exact numbers `s` and `t`. -/
theorem flushLevels_groups_inv (hpos : 0 < H.outputSize)
    (gs : List (List (Output H))) :
    (∀ g ∈ gs, g.length < cfg.fanout) →
    ∀ {levelIndex s t : Nat} {st st' : FlushState H}, 0 < levelIndex →
      st.overflow = st.lastDigest.toList → st.scale ≡ s [MOD 2 ^ 64] →
      st.totalSize ≡ t [MOD 2 ^ 64] →
      flushLevels p cfg.blockSize cfg.fanout levelIndex st (gs.map (groupBlock cfg)) = some st' →
      st'.lastDigest = flush (nodeHash H cfg.salt cfg.blockSize) st.lastDigest gs ∧
        st'.merkleTree = st.merkleTree ∧
        st'.totalSize ≡ t + H.outputSize * weight cfg.fanout s gs [MOD 2 ^ 64] := by
  induction gs with
  | nil =>
    intro _ levelIndex s t st st' _ _ _ ht h
    cases h
    exact ⟨rfl, rfl, by simpa [weight] using ht⟩
  | cons g gs ih =>
    intro hlt levelIndex s t st st' hidx hov hs ht h
    have hg := hlt g List.mem_cons_self
    have hroom := length_digestBytes_add_le hpos hg
    rw [List.map_cons, flushLevels] at h
    obtain ⟨filled, hfilled, h⟩ := Option.bind_eq_some_iff.mp h
    obtain ⟨scaled, hscaled, h⟩ := Option.bind_eq_some_iff.mp h
    obtain ⟨total, htotal, h⟩ := Option.bind_eq_some_iff.mp h
    obtain ⟨level, hlevel, h⟩ := Option.bind_eq_some_iff.mp h
    obtain ⟨scale, hscale, h⟩ := Option.bind_eq_some_iff.mp h
    rw [groupBlock, usizeSub_holding (by omega), length_digestBytes] at hfilled
    cases hfilled
    rw [hov, append_groupBlock hpos hg] at hlevel
    cases hlevel
    have hs' : scale ≡ s * cfg.fanout [MOD 2 ^ 64] :=
      (Profile.usize_modEq hscale).trans (hs.mul_right _)
    have ht' : total ≡ t + s * (H.outputSize * g.length) [MOD 2 ^ 64] :=
      (Profile.usize_modEq htotal).trans
        (ht.add ((Profile.usize_modEq hscaled).trans (hs.mul_right _)))
    obtain ⟨hlast, htree, hsize⟩ := ih (fun g' hg' => hlt g' (List.mem_cons_of_mem _ hg'))
      (by omega) rfl hs' ht' h
    refine ⟨?_, ?_, ?_⟩
    · rw [hlast, flush]
      congr 1
      exact FixedSizeBlock.finalizeInto_holding _
    · rw [htree, if_neg (by omega)]
    · have hsum : t + s * (H.outputSize * g.length) +
          H.outputSize * weight cfg.fanout (s * cfg.fanout) gs =
            t + H.outputSize * weight cfg.fanout s (g :: gs) := by
        rw [weight, Nat.mul_add, Nat.add_assoc, Nat.mul_left_comm]
      rw [← hsum]
      exact hsize

/-- Under `dev`, flushing open groups returns exactly when neither the total nor the scale after
the last group overflows: the intermediate values are smaller. -/
theorem flushLevels_groups_dev (hpos : 0 < H.outputSize) (gs : List (List (Output H))) :
    (∀ g ∈ gs, g.length < cfg.fanout) →
    ∀ (levelIndex : Nat) (st : FlushState H), st.overflow = st.lastDigest.toList →
      st.totalSize < 2 ^ 64 → st.scale < 2 ^ 64 →
      ((∃ st', flushLevels .dev cfg.blockSize cfg.fanout levelIndex st
          (gs.map (groupBlock cfg)) = some st') ↔
        st.totalSize + H.outputSize * weight cfg.fanout st.scale gs < 2 ^ 64 ∧
          st.scale * cfg.fanout ^ gs.length < 2 ^ 64) := by
  induction gs with
  | nil =>
    intro _ levelIndex st _ htotal hscale
    exact iff_of_true ⟨st, rfl⟩ ⟨by simpa [weight] using htotal, by simpa using hscale⟩
  | cons g gs ih =>
    intro hlt levelIndex st hov htotal hscale
    have hg := hlt g List.mem_cons_self
    have hroom := length_digestBytes_add_le hpos hg
    have hsub : Profile.dev.usizeSub cfg.blockSize (groupBlock cfg g).remaining =
        some (H.outputSize * g.length) := by
      rw [groupBlock, usizeSub_holding (by omega), length_digestBytes]
    have hrest := ih (fun g' hg' => hlt g' (List.mem_cons_of_mem _ hg')) (levelIndex + 1)
    have hpow : 0 < cfg.fanout ^ gs.length :=
      Nat.pow_pos (cfg.fanout_pos hpos)
    have hfan : st.scale * cfg.fanout ≤ st.scale * cfg.fanout * cfg.fanout ^ gs.length :=
      Nat.le_mul_of_pos_right _ hpow
    have hscales : st.scale * cfg.fanout ^ (g :: gs).length =
        st.scale * cfg.fanout * cfg.fanout ^ gs.length := by
      rw [List.length_cons, Nat.pow_succ', Nat.mul_assoc]
    rw [List.map_cons, flushLevels, hsub, weight, Nat.mul_add, ← Nat.add_assoc,
      Nat.mul_left_comm H.outputSize, hscales]
    simp only [Option.bind_eq_bind, Option.bind_some, Profile.usize_dev_bind, hov,
      append_groupBlock hpos hg]
    constructor
    · rintro ⟨-, htotal', hscale', hflush⟩
      exact (hrest _ rfl htotal' hscale').mp hflush
    · rintro ⟨hsum, hprod⟩
      have htotal' : st.totalSize + st.scale * (H.outputSize * g.length) < 2 ^ 64 := by omega
      have hscale' : st.scale * cfg.fanout < 2 ^ 64 := by omega
      exact ⟨by omega, htotal', hscale', (hrest _ rfl htotal' hscale').mpr ⟨hsum, hprod⟩⟩

/-- Under `release` it returns as long as every level has room for the digest of the one below. -/
theorem flushLevels_release {B c : Nat} (levels : List FixedSizeBlock) :
    ∀ (levelIndex : Nat) (st : FlushState H),
      (∀ level ∈ levels.head?, st.overflow.length ≤ level.remaining) →
      (∀ level ∈ levels.tail, H.outputSize ≤ level.remaining) →
      ∃ st', flushLevels .release B c levelIndex st levels = some st' := by
  induction levels with
  | nil =>
    intro levelIndex st _ _
    exact ⟨st, rfl⟩
  | cons level rest ih =>
    intro levelIndex st hfirst hrest
    obtain ⟨filled, hfilled⟩ := Profile.usizeSub_release B level.remaining
    rw [flushLevels, hfilled, FixedSizeBlock.append, if_pos (hfirst level rfl)]
    simp only [Profile.usize_release, Option.bind_eq_bind, Option.bind_some]
    apply ih
    · intro next hnext
      rw [List.Vector.toList_length]
      exact hrest next (List.mem_of_mem_head? hnext)
    · intro next hnext
      exact hrest next (List.mem_of_mem_tail hnext)

/-! ## The whole flush -/

/-- Level 0 is flushed first, where nothing can overflow yet. Its digest is the last level-1
hash. -/
theorem flushLevels_stateOf {D pre last : Bytes} (hs : Split cfg.blockSize D pre last) :
    flushLevels p cfg.blockSize cfg.fanout 0
        ⟨zeroDigest H, [], 0, 1, (stateOf cfg D).merkleTree⟩ (stateOf cfg D).levels =
      flushLevels p cfg.blockSize cfg.fanout 1
        ⟨blockHash H cfg.salt cfg.blockSize last,
          (blockHash H cfg.salt cfg.blockSize last).toList, last.length, cfg.fanout,
          ⟨merkleLevel1 H cfg.salt cfg.blockSize D⟩⟩
        ((frontier cfg.fanout (nodeHash H cfg.salt cfg.blockSize)
          (merkleLevel1 H cfg.salt cfg.blockSize pre)).map (groupBlock cfg)) := by
  have hle := hs.le
  have hlast : last.length < 2 ^ 64 := Nat.lt_of_le_of_lt hle cfg.blockSize_lt
  rw [hs.stateOf_eq, flushLevels, usizeSub_holding hle, hs.merkleLevel1_eq cfg.blockSize_pos]
  simp only [Option.bind_eq_bind, Option.bind_some, Nat.one_mul, Nat.zero_add,
    Profile.usize_of_lt _ hlast, Profile.usize_of_lt _ cfg.fanout_lt]
  rw [FixedSizeBlock.append_holding (by simpa using hle), List.append_nil, Option.bind_some,
    FixedSizeBlock.finalizeInto_holding]
  rfl

theorem flushLevels_stateOf_inv (hpos : 0 < H.outputSize) {D pre last : Bytes}
    (hs : Split cfg.blockSize D pre last) {st' : FlushState H}
    (h : flushLevels p cfg.blockSize cfg.fanout 0
      ⟨zeroDigest H, [], 0, 1, (stateOf cfg D).merkleTree⟩ (stateOf cfg D).levels = some st') :
    st'.lastDigest = merkleRoot H cfg.salt cfg.blockSize D ∧
      st'.merkleTree = ⟨merkleLevel1 H cfg.salt cfg.blockSize D⟩ ∧
      st'.totalSize ≡ last.length + H.outputSize * (cfg.fanout *
        (merkleLevel1 H cfg.salt cfg.blockSize pre).length) [MOD 2 ^ 64] := by
  have hc := cfg.two_le_fanout hpos
  rw [flushLevels_stateOf hs] at h
  obtain ⟨hlast, htree, hsize⟩ := flushLevels_groups_inv hpos _
    (length_lt_of_mem_frontier hc (merkleLevel1 H cfg.salt cfg.blockSize pre))
    Nat.one_pos rfl rfl rfl h
  refine ⟨?_, htree, ?_⟩
  · rw [hlast, flush_frontier hc (zeroDigest H), merkleRoot, rootOf,
      hs.merkleLevel1_eq cfg.blockSize_pos]
    rfl
  · rwa [weight_frontier hc] at hsize

/-- `d * (c * n) = B * n` for the closed blocks, and the last block on top. -/
theorem Split.length_eq (hd : H.outputSize = 32 ∨ H.outputSize = 64) {D pre last : Bytes}
    (hs : Split cfg.blockSize D pre last) :
    last.length + H.outputSize * (cfg.fanout *
      (merkleLevel1 H cfg.salt cfg.blockSize pre).length) = D.length := by
  rw [← Nat.mul_assoc, cfg.outputSize_mul_fanout hd, hs.length_merkleLevel1 cfg.blockSize_pos,
    hs.eq, List.length_append, Nat.add_comm]

/-- The tree that the flush returns after the bytes `D`. -/
theorem finalize_tree (hpos : 0 < H.outputSize) {D : Bytes}
    {r : FsVerityDescriptor H × MerkleTree H}
    (h : (stateOf cfg D).finalizeIntoFsVerityStuffs p = some r) :
    r.1.salt = cfg.salt ∧ r.2 = ⟨merkleLevel1 H cfg.salt cfg.blockSize D⟩ := by
  obtain ⟨st', hflush, h⟩ := Option.bind_eq_some_iff.mp h
  rw [config_stateOf] at hflush h
  cases h
  refine ⟨rfl, ?_⟩
  by_cases hD : D = []
  · subst hD
    cases hflush
    simp [merkleLevel1, stateOf]
  · obtain ⟨pre, last, hs⟩ := exists_split cfg.blockSize_pos hD
    exact (flushLevels_stateOf_inv hpos hs hflush).2.1

/-- Whatever the flush returns after the bytes `D` is the reference descriptor and tree. -/
theorem finalize_inv (hd : H.outputSize = 32 ∨ H.outputSize = 64) {D : Bytes}
    {r : FsVerityDescriptor H × MerkleTree H}
    (h : (stateOf cfg D).finalizeIntoFsVerityStuffs p = some r) :
    r = (descriptorOf H cfg.salt cfg.blockSize D,
      ⟨merkleLevel1 H cfg.salt cfg.blockSize D⟩) := by
  have hlog : UInt8.ofNat (trailingZeros cfg.blockSize) = UInt8.ofNat (Nat.log2 cfg.blockSize) := by
    obtain ⟨k, hk, hpow⟩ := cfg.blockSize_pow
    rw [hpow, trailingZeros_two_pow hk, Nat.log2_two_pow]
  by_cases hD : D = []
  · subst hD
    cases h
    simp [descriptorOf, merkleRoot, rootOf, merkleLevel1, zeroDigest, stateOf, hlog]
  · obtain ⟨pre, last, hs⟩ := exists_split cfg.blockSize_pos hD
    obtain ⟨st', hflush, h⟩ := Option.bind_eq_some_iff.mp h
    rw [config_stateOf] at hflush h
    obtain ⟨hlast, htree, hsize⟩ :=
      flushLevels_stateOf_inv (FsVerityConfig.outputSize_pos hd) hs hflush
    rw [hs.length_eq hd] at hsize
    cases h
    rw [hlast, htree, hlog, uint64_ofNat_eq_of_modEq hsize, descriptorOf]

/-- With `n` digests below the top, `B * n < N`, the scale after the top level stays below `N * B`. -/
theorem scale_lt {c B N : Nat} (hc : 2 ≤ c) (hcB : c ≤ B) (hN : 0 < N)
    (hsize : N * B < 2 ^ 64) (hs : List (Output H)) (node : List (Output H) → Output H)
    (hn : B * hs.length < N) :
    c * c ^ (frontier c node hs).length < 2 ^ 64 := by
  rcases Nat.eq_zero_or_pos (frontier c node hs).length with hzero | hpos
  · rw [hzero, Nat.pow_zero, Nat.mul_one]
    exact Nat.lt_of_le_of_lt (Nat.le_trans hcB (Nat.le_mul_of_pos_left B hN)) hsize
  · -- a level of its own needs `c ^ (levels - 1)` digests
    have hmany : c ^ ((frontier c node hs).length - 1) ≤ hs.length := by
      by_contra hlt
      have hfew : (frontier c node hs).length ≤ (frontier c node hs).length - 1 :=
        (length_frontier_le_iff hc _ hs).mpr (Nat.lt_of_not_le hlt)
      omega
    generalize (frontier c node hs).length = k at *
    obtain ⟨j, rfl⟩ : ∃ j, k = j + 1 := ⟨k - 1, by omega⟩
    rw [Nat.add_sub_cancel] at hmany
    calc c * c ^ (j + 1) = c * (c ^ j * c) := by rw [Nat.pow_succ]
      _ ≤ B * (hs.length * B) := Nat.mul_le_mul hcB (Nat.mul_le_mul hmany hcB)
      _ = B * hs.length * B := by rw [Nat.mul_assoc]
      _ ≤ N * B := Nat.mul_le_mul_right B (Nat.le_of_lt hn)
      _ < 2 ^ 64 := hsize

/-- Under `release` the flush always returns. -/
theorem finalize_release (hpos : 0 < H.outputSize) (D : Bytes) :
    ∃ r, (stateOf cfg D).finalizeIntoFsVerityStuffs .release = some r := by
  have hlevels : (∀ level ∈ (stateOf cfg D).levels.head?, 0 ≤ level.remaining) ∧
      ∀ level ∈ (stateOf cfg D).levels.tail, H.outputSize ≤ level.remaining := by
    refine ⟨fun _ _ => Nat.zero_le _, ?_⟩
    by_cases hD : D = []
    · subst hD
      simp [stateOf]
    · obtain ⟨pre, last, hs⟩ := exists_split cfg.blockSize_pos hD
      rw [hs.stateOf_eq, List.tail_cons]
      intro level hlevel
      obtain ⟨g, hg, rfl⟩ := List.mem_map.mp hlevel
      have hroom := length_digestBytes_add_le hpos
        (length_lt_of_mem_frontier (cfg.two_le_fanout hpos) _ g hg)
      show H.outputSize ≤ cfg.blockSize - (digestBytes g).length
      omega
  obtain ⟨st', hst'⟩ := flushLevels_release (stateOf cfg D).levels 0
    ⟨zeroDigest H, [], 0, 1, (stateOf cfg D).merkleTree⟩ hlevels.1 hlevels.2
  exact ⟨_, Option.bind_eq_some_iff.mpr ⟨st', hst', rfl⟩⟩

/-- The flush returns when its loop does. -/
theorem finalize_isSome_iff (D : Bytes) :
    (∃ r, (stateOf cfg D).finalizeIntoFsVerityStuffs p = some r) ↔
      ∃ st', flushLevels p cfg.blockSize cfg.fanout 0
        ⟨zeroDigest H, [], 0, 1, (stateOf cfg D).merkleTree⟩ (stateOf cfg D).levels =
          some st' := by
  rw [finalizeIntoFsVerityStuffs, config_stateOf]
  constructor
  · rintro ⟨r, hr⟩
    obtain ⟨st', hst', -⟩ := Option.bind_eq_some_iff.mp hr
    exact ⟨st', hst'⟩
  · rintro ⟨st', hst'⟩
    exact ⟨_, Option.bind_eq_some_iff.mpr ⟨st', hst', rfl⟩⟩

/-- Under `dev` the flush returns exactly when neither the number of bytes overflows nor the scale
after the top level. -/
theorem finalize_dev_iff (hd : H.outputSize = 32 ∨ H.outputSize = 64) (D : Bytes) :
    (∃ r, (stateOf cfg D).finalizeIntoFsVerityStuffs .dev = some r) ↔
      D.length < 2 ^ 64 ∧
        ∃ k, D.length ≤ cfg.blockSize * cfg.fanout ^ k ∧ cfg.fanout ^ (k + 1) < 2 ^ 64 := by
  have hpos := FsVerityConfig.outputSize_pos hd
  have hc := cfg.two_le_fanout hpos
  rw [finalize_isSome_iff]
  by_cases hD : D = []
  · subst hD
    have hfan := cfg.fanout_lt
    exact iff_of_true ⟨_, rfl⟩ ⟨by decide, 0, Nat.zero_le _, by simpa using hfan⟩
  · obtain ⟨pre, last, hs⟩ := exists_split cfg.blockSize_pos hD
    have hlast : last.length < 2 ^ 64 := Nat.lt_of_le_of_lt hs.le cfg.blockSize_lt
    rw [flushLevels_stateOf hs, flushLevels_groups_dev hpos _ (length_lt_of_mem_frontier hc _) 1 _
      rfl hlast cfg.fanout_lt, weight_frontier hc, hs.length_eq hd]
    refine and_congr_right fun _ => ?_
    rw [← Nat.pow_succ']
    constructor
    · intro hscale
      exact ⟨_, (hs.length_le_iff hpos _).mpr (Nat.le_refl _), hscale⟩
    · rintro ⟨k, hk, hscale⟩
      -- fewer levels, a smaller scale
      have hlevels := Nat.succ_le_succ ((hs.length_le_iff hpos k).mp hk)
      exact Nat.lt_of_le_of_lt
        (Nat.pow_le_pow_right (Nat.lt_of_lt_of_le Nat.zero_lt_two hc) hlevels) hscale

/-- Where `|D| * B` is a `usize`, the flush returns: the scale of the top level is at most
`|D| * B`. -/
theorem finalize_isSome (hd : H.outputSize = 32 ∨ H.outputSize = 64) {D : Bytes}
    (hsize : D.length * cfg.blockSize < 2 ^ 64) :
    ∃ r, (stateOf cfg D).finalizeIntoFsVerityStuffs p = some r := by
  have hpos := FsVerityConfig.outputSize_pos hd
  cases p with
  | release => exact finalize_release hpos D
  | dev =>
    by_cases hD : D = []
    · subst hD
      exact ⟨_, rfl⟩
    · obtain ⟨pre, last, hs⟩ := exists_split cfg.blockSize_pos hD
      have hlast := List.length_pos_of_ne_nil hs.ne_nil
      have hlen1 := hs.length_merkleLevel1 (H := H) cfg.blockSize_pos
      have hlenD : D.length = pre.length + last.length := by rw [hs.eq, List.length_append]
      have hDB : D.length ≤ D.length * cfg.blockSize :=
        Nat.le_mul_of_pos_right _ cfg.blockSize_pos
      refine (finalize_dev_iff hd D).mpr ⟨by omega, _,
        (hs.length_le_iff hpos _).mpr (Nat.le_refl _), ?_⟩
      rw [Nat.pow_succ']
      exact scale_lt (cfg.two_le_fanout hpos) (Nat.div_le_self _ _) (by omega) hsize
        (merkleLevel1 H cfg.salt cfg.blockSize pre) (nodeHash H cfg.salt cfg.blockSize)
        (by rw [hlen1]; omega)

/-! ## A whole run -/

/-- A run is the flush of the state of all bytes written, if they fit in the levels. -/
theorem run_eq (hpos : 0 < H.outputSize) {salt : Bytes} {B : Nat}
    {cfg : FsVerityConfig H} (hnew : FsVerityConfig.new H B salt = some cfg)
    (calls : List Bytes) :
    run H p salt B calls =
      if calls.flatten.length ≤ capacity cfg then
        (stateOf cfg calls.flatten).finalizeIntoFsVerityStuffs p
      else none := by
  rw [run, newWithSaltAndBlockSize_eq hnew]
  simp only [Option.bind_eq_bind, Option.bind_some]
  rw [foldlM_update_stateOf hpos calls [] (Nat.zero_le _), List.nil_append]
  split <;> rfl

/-- What a run returns names its salt and lists the digests of the data blocks, whatever the size
of a digest. -/
theorem run_tree (hpos : 0 < H.outputSize) {salt : Bytes} {B : Nat} {calls : List Bytes}
    {r : FsVerityDescriptor H × MerkleTree H} (h : run H p salt B calls = some r) :
    0 < B ∧ r.1.salt = salt ∧ r.2 = ⟨merkleLevel1 H salt B calls.flatten⟩ := by
  obtain ⟨digest, hdigest, -⟩ := Option.bind_eq_some_iff.mp h
  obtain ⟨cfg, hnew, -⟩ := Option.map_eq_some_iff.mp hdigest
  obtain ⟨rfl, rfl⟩ := FsVerityConfig.new_inv hnew
  rw [run_eq hpos hnew] at h
  split at h
  · exact ⟨cfg.blockSize_pos, finalize_tree hpos h⟩
  · cases h

/-- Whatever a run returns is the reference, and its configuration was admissible. -/
theorem run_inv (hd : H.outputSize = 32 ∨ H.outputSize = 64) {salt : Bytes} {B : Nat}
    {calls : List Bytes} {r : FsVerityDescriptor H × MerkleTree H}
    (h : run H p salt B calls = some r) :
    (∃ cfg : FsVerityConfig H, cfg.blockSize = B ∧ cfg.salt = salt ∧
        calls.flatten.length ≤ capacity cfg) ∧
      r = (descriptorOf H salt B calls.flatten, ⟨merkleLevel1 H salt B calls.flatten⟩) := by
  obtain ⟨digest, hdigest, -⟩ := Option.bind_eq_some_iff.mp h
  obtain ⟨cfg, hnew, -⟩ := Option.map_eq_some_iff.mp hdigest
  obtain ⟨hB, hsalt⟩ := FsVerityConfig.new_inv hnew
  rw [run_eq (FsVerityConfig.outputSize_pos hd) hnew] at h
  split at h
  · next hcap =>
    have hr := finalize_inv hd h
    rw [hB, hsalt] at hr
    exact ⟨⟨cfg, hB, hsalt, hcap⟩, hr⟩
  · cases h

/-- A run returns exactly when the constructor accepts its parameters, the input fits in the levels
and, under `dev`, the arithmetic of the flush does not overflow. -/
theorem run_isSome_iff (hd : H.outputSize = 32 ∨ H.outputSize = 64) {salt : Bytes} {B : Nat}
    {calls : List Bytes} :
    (∃ r, run H p salt B calls = some r) ↔
      salt.length ≤ maxSaltSize ∧ IsPowerOfTwo B ∧ H.outputSize * 2 ≤ B ∧
        calls.flatten.length ≤ B * (B / H.outputSize) ^ 7 ∧
        (p = .dev → calls.flatten.length < 2 ^ 64 ∧
          ∃ k, calls.flatten.length ≤ B * (B / H.outputSize) ^ k ∧
            (B / H.outputSize) ^ (k + 1) < 2 ^ 64) := by
  have hpos := FsVerityConfig.outputSize_pos hd
  constructor
  · rintro ⟨r, hr⟩
    obtain ⟨digest, hdigest, -⟩ := Option.bind_eq_some_iff.mp hr
    obtain ⟨cfg, hnew, -⟩ := Option.map_eq_some_iff.mp hdigest
    obtain ⟨rfl, rfl⟩ := FsVerityConfig.new_inv hnew
    rw [run_eq hpos hnew] at hr
    split at hr
    · next hcap =>
      refine ⟨cfg.salt_le, cfg.blockSize_pow, cfg.two_digests_le, hcap, ?_⟩
      rintro rfl
      exact (finalize_dev_iff hd _).mp ⟨r, hr⟩
    · cases hr
  · rintro ⟨hsalt, hpow, htwo, hlevels, hsize⟩
    have hout : H.outputSize ≤ maxDigestSize := by
      rcases hd with h | h <;> rw [h] <;> decide
    obtain ⟨cfg, hnew, rfl, rfl⟩ := FsVerityConfig.new_eq_some hsalt hpow htwo hout
    have hcap : calls.flatten.length ≤ capacity cfg := hlevels
    rw [run_eq hpos hnew, if_pos hcap]
    cases p with
    | dev => exact (finalize_dev_iff hd _).mpr (hsize rfl)
    | release => exact finalize_release hpos _

/-- Below the level limit, and where the scale cannot overflow, a run returns the reference. -/
theorem run_of_levels (hd : H.outputSize = 32 ∨ H.outputSize = 64) {salt : Bytes} {B : Nat}
    {calls : List Bytes} (hsalt : salt.length ≤ maxSaltSize) (hpow : IsPowerOfTwo B)
    (htwo : H.outputSize * 2 ≤ B) (hlevels : calls.flatten.length ≤ B * (B / H.outputSize) ^ 7)
    (hsize : p = .release ∨ calls.flatten.length * B < 2 ^ 64) :
    run H p salt B calls =
      some (descriptorOf H salt B calls.flatten, ⟨merkleLevel1 H salt B calls.flatten⟩) := by
  have hout : H.outputSize ≤ maxDigestSize := by
    rcases hd with h | h <;> rw [h] <;> decide
  obtain ⟨cfg, hnew, rfl, rfl⟩ := FsVerityConfig.new_eq_some hsalt hpow htwo hout
  have hcap : calls.flatten.length ≤ capacity cfg := hlevels
  obtain ⟨r, hr⟩ : ∃ r, (stateOf cfg calls.flatten).finalizeIntoFsVerityStuffs p = some r := by
    rcases hsize with rfl | hsize
    · exact finalize_release (FsVerityConfig.outputSize_pos hd) _
    · exact finalize_isSome hd hsize
  have hrun : run H p cfg.salt cfg.blockSize calls = some r := by
    rw [run_eq (FsVerityConfig.outputSize_pos hd) hnew, if_pos hcap, hr]
  rw [hrun, (run_inv hd hrun).2]

theorem run_of_admissible (hd : H.outputSize = 32 ∨ H.outputSize = 64) (p : Profile)
    {salt : Bytes} {B : Nat} {calls : List Bytes} (ha : Admissible H salt B calls.flatten) :
    run H p salt B calls =
      some (descriptorOf H salt B calls.flatten, ⟨merkleLevel1 H salt B calls.flatten⟩) :=
  run_of_levels hd ha.salt_le ha.blockSize_pow ha.two_digests_le ha.levels (Or.inr ha.size)

/-- The sizes in the reference descriptor are exact where they fit. -/
theorem toNat_logBlocksize {salt : Bytes} {B : Nat} {D : Bytes} (hpow : IsPowerOfTwo B) :
    (descriptorOf H salt B D).logBlocksize.toNat = Nat.log2 B := by
  obtain ⟨k, hk, rfl⟩ := hpow
  show (UInt8.ofNat (Nat.log2 (2 ^ k))).toNat = _
  rw [Nat.log2_two_pow]
  exact UInt8.toNat_ofNat_of_lt' (Nat.lt_trans hk (by decide))

theorem blockSize_descriptorOf {salt : Bytes} {B : Nat} {D : Bytes} (hpow : IsPowerOfTwo B)
    (p : Profile) : (descriptorOf H salt B D).blockSize p = some B := by
  rw [FsVerityDescriptor.blockSize, toNat_logBlocksize hpow]
  obtain ⟨k, hk, rfl⟩ := hpow
  rw [Nat.log2_two_pow, Profile.usizeShl_of_lt p hk]

theorem toNat_dataSize {salt : Bytes} {B : Nat} {D : Bytes} (h : D.length < 2 ^ 64) :
    (descriptorOf H salt B D).dataSize.toNat = D.length :=
  UInt64.toNat_ofNat_of_lt' h

/-- **The streaming hasher computes the Merkle tree.** For an admissible salt and block size, an
input within the level limit and any cut of it into `update` calls, a run of the hasher returns,
and what it returns is the descriptor and the level-1 hashes of the reference. -/
theorem run_eq_merkle (hd : H.outputSize = 32 ∨ H.outputSize = 64) (p : Profile) {salt : Bytes}
    (hsalt : salt.length ≤ maxSaltSize) {B : Nat} (hpow : IsPowerOfTwo B)
    (htwo : H.outputSize * 2 ≤ B) {D : Bytes} (hlevels : D.length ≤ B * (B / H.outputSize) ^ 7)
    (hsize : D.length * B < 2 ^ 64) {calls : List Bytes} (hcut : calls.flatten = D) :
    ∃ desc tree, run H p salt B calls = some (desc, tree) ∧
      desc.version = 1 ∧ desc.hashAlgorithm = H.innerHashAlgorithm.toU8 ∧
      desc.dataSize.toNat = D.length ∧ desc.logBlocksize.toNat = Nat.log2 B ∧
      desc.salt = salt ∧ desc.rootHash = merkleRoot H salt B D ∧
      tree.level1 = merkleLevel1 H salt B D := by
  subst hcut
  have hB : 0 < B := by
    have := FsVerityConfig.outputSize_pos hd
    omega
  refine ⟨_, _, run_of_admissible hd p ⟨hsalt, hpow, htwo, hlevels, hsize⟩, rfl, rfl, ?_, ?_,
    rfl, rfl, rfl⟩
  · exact toNat_dataSize (Nat.lt_of_le_of_lt (Nat.le_mul_of_pos_right _ hB) hsize)
  · exact toNat_logBlocksize hpow

/-- A hash for examples: the length and the first bytes of its input. -/
def lengthHash (m : Bytes) : List.Vector UInt8 32 :=
  ⟨(UInt8.ofNat m.length :: m ++ List.replicate 32 0).take 32, by simp⟩

/-- Two blocks, cut within the first and within the second. -/
theorem run_eq_merkle_two_blocks :
    let D : Bytes := List.replicate 80 1
    ∃ desc tree, run (sha256 lengthHash) .dev [7] 64
        [List.replicate 60 1, [], List.replicate 10 1, List.replicate 10 1] = some (desc, tree) ∧
      desc.version = 1 ∧
      desc.hashAlgorithm = (sha256 lengthHash).innerHashAlgorithm.toU8 ∧
      desc.dataSize.toNat = D.length ∧ desc.logBlocksize.toNat = Nat.log2 64 ∧ desc.salt = [7] ∧
      desc.rootHash = merkleRoot (sha256 lengthHash) [7] 64 D ∧
      tree.level1 = merkleLevel1 (sha256 lengthHash) [7] 64 D :=
  run_eq_merkle (H := sha256 lengthHash) (Or.inl rfl) .dev (by decide) (by decide) (by decide)
    (by decide) (by decide) rfl

end FsVerityDigest

end CryptPilot.VerityCore
