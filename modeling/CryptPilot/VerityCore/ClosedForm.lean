import CryptPilot.VerityCore.LevelLimit

/-!
# The state of the hasher in numbers

What the comment in `update` says of the levels, and more: after `N` bytes, how much each level
holds is a function of `N` alone. Level 0 holds the last block, which is never empty. Above it,
the levels hold the digits of the number of closed blocks, to the base of the fan-out, and there are
as many levels as there are digits (`update_closedForm`).

So a level above the data always has room for a digest, and `overflowing_append` never cuts one.
-/

namespace CryptPilot.VerityCore

open CryptPilot.Data

variable {H : InnerHash}

namespace FsVerityDigest

/-- What the levels hold after `n` bytes. Level `k + 1` is the one `k` levels above the hashes of the
data. -/
structure ClosedForm (self : FsVerityDigest H) (n : Nat) : Prop where
  data : ∃ bytes, self.levels[0]? = some (FixedSizeBlock.holding self.config bytes) ∧
    bytes.length = (n - 1) % self.config.blockSize + 1
  exists_iff : ∀ k, (∃ level, self.levels[k + 1]? = some level) ↔
    self.config.blockSize * self.config.fanout ^ k < n
  digests : ∀ k level, self.levels[k + 1]? = some level → ∃ g : List (Output H),
    level = groupBlock self.config g ∧
      g.length = (n - 1) / (self.config.blockSize * self.config.fanout ^ k) % self.config.fanout
  room : ∀ k level, self.levels[k + 1]? = some level → H.outputSize ≤ level.remaining
  /-- A digest is taken by one block. -/
  whole : ∀ k level, self.levels[k + 1]? = some level → ∀ h : Output H,
    ∃ level', level.overflowingAppend h.toList = some (level', [])

variable {cfg : FsVerityConfig H}

theorem room_groupBlock (hpos : 0 < H.outputSize) {g : List (Output H)}
    (hg : g.length < cfg.fanout) : H.outputSize ≤ (groupBlock cfg g).remaining := by
  have hroom := length_digestBytes_add_le hpos hg
  show H.outputSize ≤ cfg.blockSize - (digestBytes g).length
  omega

theorem overflowingAppend_of_le {block : FixedSizeBlock} {data : Bytes}
    (h : data.length ≤ block.remaining) :
    ∃ block', block.overflowingAppend data = some (block', []) := by
  refine ⟨⟨block.inner ++ data, block.remaining - data.length⟩, ?_⟩
  simp [FixedSizeBlock.overflowingAppend, FixedSizeBlock.append, h]

/-- The number of blocks that are closed. -/
theorem Split.length_closed {D pre last : Bytes} (h : Split cfg.blockSize D pre last) :
    (merkleLevel1 H cfg.salt cfg.blockSize pre).length = (D.length - 1) / cfg.blockSize := by
  have hB := cfg.blockSize_pos
  have hstart : cfg.blockSize * ((D.length - 1) / cfg.blockSize) = pre.length := h.lastStart_eq
  apply Nat.eq_of_mul_eq_mul_left hB
  rw [h.length_merkleLevel1 hB, hstart]

theorem Split.length_last {D pre last : Bytes} (h : Split cfg.blockSize D pre last) :
    last.length = (D.length - 1) % cfg.blockSize + 1 := by
  have hstart : cfg.blockSize * ((D.length - 1) / cfg.blockSize) = pre.length := h.lastStart_eq
  have hdiv := Nat.div_add_mod (D.length - 1) cfg.blockSize
  have hlast := List.length_pos_of_ne_nil h.ne_nil
  have hlen : D.length = pre.length + last.length := by rw [h.eq, List.length_append]
  omega

theorem closedForm_stateOf (hpos : 0 < H.outputSize) {D : Bytes} (hD : D ≠ []) :
    (stateOf cfg D).ClosedForm D.length := by
  obtain ⟨pre, last, hs⟩ := exists_split cfg.blockSize_pos hD
  have hc := cfg.two_le_fanout hpos
  have hlevel (k : Nat) (level : FixedSizeBlock) (h : (stateOf cfg D).levels[k + 1]? = some level) :
      ∃ g, (frontier cfg.fanout (nodeHash H cfg.salt cfg.blockSize)
        (merkleLevel1 H cfg.salt cfg.blockSize pre))[k]? = some g ∧ groupBlock cfg g = level := by
    rw [hs.stateOf_eq, List.getElem?_cons_succ, List.getElem?_map] at h
    exact Option.map_eq_some_iff.mp h
  have hroom (k : Nat) (level : FixedSizeBlock) (h : (stateOf cfg D).levels[k + 1]? = some level) :
      H.outputSize ≤ level.remaining := by
    obtain ⟨g, hg, rfl⟩ := hlevel k level h
    exact room_groupBlock hpos (length_lt_of_mem_frontier hc _ g (List.mem_of_getElem? hg))
  constructor
  case data =>
    refine ⟨last, ?_, ?_⟩
    · rw [config_stateOf, hs.stateOf_eq, List.getElem?_cons_zero]
    · rw [config_stateOf, hs.length_last]
  case exists_iff =>
    intro k
    rw [config_stateOf, ← Nat.not_le, hs.length_le_iff hpos, Nat.not_le, hs.stateOf_eq]
    simp [List.getElem?_eq_some_iff]
  case digests =>
    intro k level h
    obtain ⟨g, hg, rfl⟩ := hlevel k level h
    refine ⟨g, by rw [config_stateOf], ?_⟩
    rw [length_of_getElem?_frontier hc hg, hs.length_closed, config_stateOf,
      Nat.div_div_eq_div_mul]
  case room => exact hroom
  case whole =>
    intro k level h hash
    exact overflowingAppend_of_le (by rw [hash.toList_length]; exact hroom k level h)

/-- **The state in numbers.** For every admissible hash, salt and block size: calls that do not hit
the level limit, with at least one byte in them, take a new hasher to a state whose levels hold what
their number says, and any other calls with the same bytes take it to the same state. -/
theorem update_closedForm (hpos : 0 < H.outputSize) {salt : Bytes}
    (hsalt : salt.length ≤ maxSaltSize) {B : Nat} (hpow : IsPowerOfTwo B)
    (htwo : H.outputSize * 2 ≤ B) (hout : H.outputSize ≤ maxDigestSize) (calls : List Bytes)
    (hne : 1 ≤ calls.flatten.length) (hlimit : ¬LevelLimitFires H salt B calls) :
    ∃ fresh digest, newWithSaltAndBlockSize H salt B = some fresh ∧
      calls.foldlM update fresh = some digest ∧
      digest.config.salt = salt ∧ digest.config.blockSize = B ∧
      digest.ClosedForm calls.flatten.length ∧
      ∀ calls' : List Bytes, calls'.flatten = calls.flatten →
        calls'.foldlM update fresh = some digest := by
  rw [levelLimitFires_iff hpos hsalt hpow htwo hout, Nat.not_lt] at hlimit
  obtain ⟨cfg, hnew, rfl, rfl⟩ := FsVerityConfig.new_eq_some hsalt hpow htwo hout
  have hrun (calls' : List Bytes) (h : calls'.flatten = calls.flatten) :
      calls'.foldlM update (stateOf cfg []) = some (stateOf cfg calls.flatten) := by
    rw [foldlM_update_stateOf hpos calls' [] (Nat.zero_le _), List.nil_append, h]
    exact if_pos hlimit
  have hD : calls.flatten ≠ [] := List.ne_nil_of_length_pos hne
  refine ⟨stateOf cfg [], stateOf cfg calls.flatten, newWithSaltAndBlockSize_eq hnew,
    hrun calls rfl, ?_, ?_, closedForm_stateOf hpos hD, hrun⟩
  · rw [config_stateOf]
  · rw [config_stateOf]

/-- A block, and one byte more. -/
theorem update_closedForm_two_levels :
    ∃ fresh digest, newWithSaltAndBlockSize (sha256 lengthHash) [] 64 = some fresh ∧
      [List.replicate 64 0, [1]].foldlM update fresh = some digest ∧
      digest.config.salt = [] ∧ digest.config.blockSize = 64 ∧ digest.ClosedForm 65 ∧
      ∀ calls' : List Bytes, calls'.flatten = [List.replicate 64 0, [1]].flatten →
        calls'.foldlM update fresh = some digest := by
  have hlimit : ¬LevelLimitFires (sha256 lengthHash) [] 64 [List.replicate 64 0, [1]] := by
    rw [levelLimitFires_iff (by decide) (by decide) (by decide) (by decide) (by decide)]
    decide
  exact update_closedForm (H := sha256 lengthHash) (by decide) (by decide) (by decide) (by decide)
    (by decide) _ (by decide) hlimit

end FsVerityDigest

end CryptPilot.VerityCore
