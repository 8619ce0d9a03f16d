import CryptPilot.VerityCore.Correct

/-!
# The level limit

`update` asserts that there are fewer than `MAX_LEVELS` levels before it adds one. Level 0 holds
data, so eight levels are seven levels of hash blocks: the assertion fires as soon as the input is
longer than `B * (B / d) ^ 7` bytes (`levelLimitFires_iff`), whether digests fill a block or leave
a remainder. With SHA-256 and the default block size that is after `2 ^ 61` bytes.
-/

namespace CryptPilot.VerityCore

open CryptPilot.Data

variable {H : InnerHash}

namespace FsVerityDigest

/-- `assert!(self.levels.len() < MAX_LEVELS)` is reached on this chunk, and fails. -/
def LevelAssertFails (self : FsVerityDigest H) (chunk : Bytes) : Prop :=
  ∃ levels overflow tree,
    updateLevels self.config 0 false chunk self.merkleTree self.levels =
        some (levels, overflow, tree) ∧
      overflow ≠ [] ∧ ¬ levels.length < maxLevels

/-- It fails on one of the chunks, after the hasher has taken those before it. -/
def LevelAssertFires : FsVerityDigest H → List Bytes → Prop
  | _, [] => False
  | self, chunk :: rest =>
    self.LevelAssertFails chunk ∨ ∃ self', self.updateChunk chunk = some self' ∧
      self'.LevelAssertFires rest

variable (H) in
/-- The assertion fires for a fresh hasher and one `update` for every entry of `calls`. -/
def LevelLimitFires (salt : Bytes) (blockSize : Nat) (calls : List Bytes) : Prop :=
  ∃ digest, newWithSaltAndBlockSize H salt blockSize = some digest ∧
    digest.LevelAssertFires (calls.flatMap (chunks blockSize))

variable {cfg : FsVerityConfig H}

/-- What the loop over the levels leaves decides the assertion. -/
theorem levelAssertFails_iff {self : FsVerityDigest H} (hcfg : self.config = cfg)
    {chunk overflow : Bytes} {levels : List FixedSizeBlock} {tree : MerkleTree H}
    (h : updateLevels cfg 0 false chunk self.merkleTree self.levels =
      some (levels, overflow, tree)) :
    self.LevelAssertFails chunk ↔ overflow ≠ [] ∧ maxLevels ≤ levels.length := by
  subst hcfg
  constructor
  · rintro ⟨levels', overflow', tree', h', hne, hfull⟩
    rw [h] at h'
    cases h'
    exact ⟨hne, Nat.le_of_not_lt hfull⟩
  · rintro ⟨hne, hfull⟩
    exact ⟨_, _, _, h, hne, Nat.not_lt.mpr hfull⟩

/-- The step lemma: the assertion fails on the chunk that would need a ninth level. -/
theorem levelAssertFails_stateOf (hpos : 0 < H.outputSize) {D x : Bytes}
    (hD : D.length ≤ capacity cfg) (hx : x ≠ []) (hxle : x.length ≤ cfg.blockSize) :
    (stateOf cfg D).LevelAssertFails x ↔ capacity cfg < (D ++ x).length := by
  rcases chunk_cases cfg.blockSize_pos D hx hxle with
    rfl | ⟨pre, last, hs, hs'⟩ | ⟨pre, last, a, b, rfl, hs, hfull, hs'⟩
  · -- the first chunk finds no levels
    have hcap := (updateChunk_first hpos hx hxle).1
    have hempty : updateLevels cfg 0 false x (stateOf cfg []).merkleTree (stateOf cfg []).levels =
        some ([], x, ⟨[]⟩) := rfl
    rw [levelAssertFails_iff (config_stateOf []) hempty]
    exact iff_of_false (fun h => Nat.not_succ_le_zero _ h.2) (Nat.not_lt.mpr hcap)
  · -- a chunk that fits leaves nothing over
    have hcap : (D ++ x).length ≤ capacity cfg := by
      rw [hs'.le_capacity_iff hpos, ← hs.le_capacity_iff hpos]
      exact hD
    rw [levelAssertFails_iff (config_stateOf D) (updateLevels_fits hs hs')]
    exact iff_of_false (fun h => h.1 rfl) (Nat.not_lt.mpr hcap)
  · obtain ⟨gs, rest, hrun, hcount, hres⟩ := updateLevels_closes hpos hs hfull hs'
    rw [levelAssertFails_iff (config_stateOf D) hrun, ← Nat.not_le, hs'.le_capacity_iff hpos,
      List.length_cons, List.length_map]
    rcases hres with ⟨rfl, hf⟩ | ⟨h', rfl, hf⟩
    · have hold := (hs.le_capacity_iff hpos).mp hD
      rw [hf]
      exact iff_of_false (fun h => h.1 rfl) (fun h => h (by omega))
    · rw [hf, List.length_append, List.length_singleton,
        and_iff_right (toList_output_ne_nil hpos h')]
      show 8 ≤ gs.length + 1 ↔ ¬ gs.length + 1 ≤ 7
      omega

/-- The run lemma: by induction on the chunks, with the state of the bytes before them. -/
theorem levelAssertFires_stateOf (hpos : 0 < H.outputSize) (xs : List Bytes) :
    (∀ x ∈ xs, x ≠ [] ∧ x.length ≤ cfg.blockSize) → ∀ D : Bytes, D.length ≤ capacity cfg →
      ((stateOf cfg D).LevelAssertFires xs ↔ capacity cfg < (D ++ xs.flatten).length) := by
  induction xs with
  | nil =>
    intro _ D hD
    rw [List.flatten_nil, List.append_nil]
    exact iff_of_false id (Nat.not_lt.mpr hD)
  | cons x xs ih =>
    intro hxs D hD
    obtain ⟨hx, hxle⟩ := hxs x List.mem_cons_self
    have hstep := updateChunk_stateOf hpos hD hx hxle
    rw [LevelAssertFires, levelAssertFails_stateOf hpos hD hx hxle, hstep, List.flatten_cons,
      ← List.append_assoc]
    by_cases hcap : (D ++ x).length ≤ capacity cfg
    · rw [or_iff_right (Nat.not_lt.mpr hcap), if_pos hcap,
        ← ih (fun x' hx' => hxs x' (List.mem_cons_of_mem _ hx')) _ hcap]
      simp
    · have hlong : capacity cfg < (D ++ x ++ xs.flatten).length := by
        rw [List.length_append]
        omega
      exact iff_of_true (Or.inl (Nat.lt_of_not_le hcap)) hlong

/-- The assertion fires exactly on inputs that are too long for seven levels of hash blocks. -/
theorem levelLimitFires_iff (hpos : 0 < H.outputSize) {salt : Bytes}
    (hsalt : salt.length ≤ maxSaltSize) {B : Nat} (hpow : IsPowerOfTwo B)
    (htwo : H.outputSize * 2 ≤ B) (hout : H.outputSize ≤ maxDigestSize) (calls : List Bytes) :
    LevelLimitFires H salt B calls ↔ B * (B / H.outputSize) ^ 7 < calls.flatten.length := by
  obtain ⟨cfg, hnew, rfl, rfl⟩ := FsVerityConfig.new_eq_some hsalt hpow htwo hout
  have hfresh := newWithSaltAndBlockSize_eq hnew
  have hchunks : ∀ x ∈ calls.flatMap (chunks cfg.blockSize),
      x ≠ [] ∧ x.length ≤ cfg.blockSize := by
    intro x hx
    obtain ⟨data, -, hx⟩ := List.mem_flatMap.mp hx
    exact ⟨ne_nil_of_mem_chunks cfg.blockSize_pos data x hx,
      length_le_of_mem_chunks cfg.blockSize_pos data x hx⟩
  have hbytes : (calls.flatMap (chunks cfg.blockSize)).flatten = calls.flatten := by
    induction calls with
    | nil => rfl
    | cons data calls ih =>
      rw [List.flatMap_cons, List.flatten_append, flatten_chunks cfg.blockSize_pos,
        List.flatten_cons, ih fun x hx => hchunks x (List.mem_append_right _ hx)]
  have hrun := levelAssertFires_stateOf hpos _ hchunks [] (Nat.zero_le _)
  rw [List.nil_append, hbytes] at hrun
  constructor
  · rintro ⟨digest, hdigest, hfires⟩
    rw [hfresh] at hdigest
    cases hdigest
    exact hrun.mp hfires
  · intro hlong
    exact ⟨_, hfresh, hrun.mpr hlong⟩

/-- **The assertion fires one level early.** For every admissible hash, salt and block size and
every input, it fires exactly above `B * (B / d) ^ 7` bytes. So it fires only for trees of more than
eight levels of hash blocks, which have more than `B * (B / d) ^ 8` bytes, exactly when the input
is not between the two. -/
theorem levelLimit_eight_iff (hpos : 0 < H.outputSize) {salt : Bytes}
    (hsalt : salt.length ≤ maxSaltSize) {B : Nat} (hpow : IsPowerOfTwo B)
    (htwo : H.outputSize * 2 ≤ B) (hout : H.outputSize ≤ maxDigestSize) (calls : List Bytes) :
    (LevelLimitFires H salt B calls ↔ B * (B / H.outputSize) ^ 7 < calls.flatten.length) ∧
      ((LevelLimitFires H salt B calls →
          B * (B / H.outputSize) ^ 8 < calls.flatten.length) ↔
        calls.flatten.length ≤ B * (B / H.outputSize) ^ 7 ∨
          B * (B / H.outputSize) ^ 8 < calls.flatten.length) := by
  have hiff := levelLimitFires_iff hpos hsalt hpow htwo hout calls
  rw [hiff]
  refine ⟨Iff.rfl, ?_⟩
  rw [← Nat.not_lt, imp_iff_not_or]

theorem levelLimit_eight_iff_one_byte :
    (LevelLimitFires (sha256 lengthHash) [] 4096 [[1]] ↔
        4096 * (4096 / 32) ^ 7 < [[(1 : UInt8)]].flatten.length) ∧
      ((LevelLimitFires (sha256 lengthHash) [] 4096 [[1]] →
          4096 * (4096 / 32) ^ 8 < [[(1 : UInt8)]].flatten.length) ↔
        [[(1 : UInt8)]].flatten.length ≤ 4096 * (4096 / 32) ^ 7 ∨
          4096 * (4096 / 32) ^ 8 < [[(1 : UInt8)]].flatten.length) :=
  levelLimit_eight_iff (H := sha256 lengthHash) (by decide) (by decide) (by decide) (by decide)
    (by decide) [[1]]

/-- A stream of `2 ^ 61 + 1` bytes is shorter than `2 ^ 64` and needs eight levels of hash blocks;
with SHA-256 and the default block size it fires the assertion. -/
theorem levelLimitFires_default :
    [List.replicate (2 ^ 61 + 1) (0 : UInt8)].flatten.length < 2 ^ 64 ∧
      [List.replicate (2 ^ 61 + 1) (0 : UInt8)].flatten.length ≤
        defaultBlockSize * (defaultBlockSize / 32) ^ 8 ∧
      LevelLimitFires (sha256 lengthHash) [] defaultBlockSize
        [List.replicate (2 ^ 61 + 1) 0] := by
  have hlen : [List.replicate (2 ^ 61 + 1) (0 : UInt8)].flatten.length = 2 ^ 61 + 1 := by
    rw [List.flatten_singleton, List.length_replicate]
  have hiff := levelLimitFires_iff (H := sha256 lengthHash) (by decide)
    (show ([] : Bytes).length ≤ maxSaltSize by decide) (B := defaultBlockSize) (by decide)
    (by decide) (by decide)
    [List.replicate (2 ^ 61 + 1) 0]
  rw [hiff, hlen]
  decide

end FsVerityDigest

end CryptPilot.VerityCore
