import CryptPilot.VerityCore.Digest
import CryptPilot.Data.Merkle

/-!
# The streaming hasher computes the Merkle tree

The reference (`merkleLevel1`, `merkleRoot`) hashes the blocks of the whole input and then groups
digests until one is left. The hasher never holds more than one open block per level. The link is
the *state* of the hasher after the bytes `D`, as a function of `D` (`stateOf`): level 0 holds the
bytes after the last closed block, and the levels above hold the open groups of the accumulator
`Data.frontier`, byte for byte.

Level 0 and the levels above it are flushed under different rules. Level 0 is closed only when
more data arrives, so it is never empty and may be full; a higher level is closed as soon as it is
full, so it may be empty and never is full. That asymmetry is in `stateOf`: the last block starts
at `B * ((|D| - 1) / B)`, while an open group starts at `c * (n / c)`.
-/

namespace CryptPilot.VerityCore

open CryptPilot.Data

/-! ## The reference -/

section
variable (H : InnerHash)

/-- The salt, filled up with zeroes to a multiple of the hash's own block size. -/
def saltPad (salt : Bytes) : Bytes :=
  salt ++ List.replicate ((H.blockSize - salt.length % H.blockSize) % H.blockSize) 0

/-- The digest of one block: salt, then the data filled up with zeroes to the block size. -/
def blockHash (salt : Bytes) (blockSize : Nat) (data : Bytes) : Output H :=
  H.finalize (saltPad H salt ++ zeroPad blockSize data)

variable {H} in
/-- A group of digests as the bytes of a hash block. -/
def digestBytes (g : List (Output H)) : Bytes := g.flatMap List.Vector.toList

/-- The digest of a hash block. -/
def nodeHash (salt : Bytes) (blockSize : Nat) (g : List (Output H)) : Output H :=
  blockHash H salt blockSize (digestBytes g)

/-- The digest that stands for no data at all. -/
def zeroDigest : Output H := List.Vector.replicate H.outputSize 0

/-- The digests of the data blocks. -/
def merkleLevel1 (salt : Bytes) (blockSize : Nat) (D : Bytes) : List (Output H) :=
  (chunks blockSize D).map (blockHash H salt blockSize)

/-- The root over given level-1 digests. -/
def rootOf (salt : Bytes) (blockSize : Nat) (hs : List (Output H)) : Output H :=
  root (blockSize / H.outputSize) (nodeHash H salt blockSize) (zeroDigest H) hs

/-- The root hash: all zeroes for no data, else hash the blocks and group `B / d` digests into a
block until one digest remains. -/
def merkleRoot (salt : Bytes) (blockSize : Nat) (D : Bytes) : Output H :=
  rootOf H salt blockSize (merkleLevel1 H salt blockSize D)

end

/-! ## The salt -/

variable {H : InnerHash}

theorem foldlM_updatePadded {n : Nat} (hn : 0 < n) (xs : Bytes) : ∀ s : Bytes,
    (chunks n xs).foldlM (fun s chunk => updatePadded s chunk n) s =
      some (s ++ (xs ++ List.replicate ((n - xs.length % n) % n) 0)) := by
  induction xs using chunks_induction hn with
  | nil => intro s; simp
  | step xs h ih =>
    intro s
    have hpos := List.length_pos_of_ne_nil h
    rw [chunks_of_ne_nil hn h, List.foldlM_cons, updatePadded_of_le (List.length_take_le n xs)]
    show (chunks n (xs.drop n)).foldlM _ _ = _
    rw [ih, zeroPad, List.length_take, List.length_drop]
    rcases Nat.lt_or_ge xs.length n with hlt | hge
    · -- a single short piece carries all of the padding
      rw [List.take_of_length_le (by omega), List.drop_eq_nil_of_le (by omega),
        Nat.sub_eq_zero_of_le (by omega : xs.length ≤ n), Nat.min_eq_right (by omega),
        Nat.mod_eq_of_lt hlt, Nat.mod_eq_of_lt (by omega : n - xs.length < n)]
      simp
    · -- a full piece needs none, and leaves the remainder of the length as it is
      rw [Nat.min_eq_left hge, Nat.sub_self, ← Nat.mod_eq_sub_mod hge, List.replicate_zero,
        List.append_nil, List.append_assoc, ← List.append_assoc (xs.take n), List.take_append_drop]

theorem saltToDigest_eq (salt : Bytes) : saltToDigest H salt = some (saltPad H salt) := by
  rw [saltToDigest, foldlM_updatePadded H.blockSize_pos, List.nil_append, saltPad]

theorem FsVerityConfig.saltedDigest_eq_saltPad (cfg : FsVerityConfig H) :
    cfg.saltedDigest = saltPad H cfg.salt := by
  have h := cfg.saltedDigest_eq
  rw [saltToDigest_eq] at h
  exact (Option.some.inj h).symm

/-- `FsVerityConfig::new` accepts exactly what its assertions say. -/
theorem FsVerityConfig.new_eq_some {blockSize : Nat} {salt : Bytes}
    (hsalt : salt.length ≤ maxSaltSize) (hpow : IsPowerOfTwo blockSize)
    (htwo : H.outputSize * 2 ≤ blockSize) (hout : H.outputSize ≤ maxDigestSize) :
    ∃ cfg, FsVerityConfig.new H blockSize salt = some cfg ∧ cfg.blockSize = blockSize ∧
      cfg.salt = salt := by
  refine ⟨⟨blockSize, salt, saltPad H salt, hsalt, hpow, htwo, hout, saltToDigest_eq salt⟩,
    ?_, rfl, rfl⟩
  rw [FsVerityConfig.new, dif_pos ⟨hsalt, hpow, htwo, hout⟩]
  split
  · next sd hs =>
    rw [saltToDigest_eq] at hs
    cases hs
    rfl
  · next hs =>
    rw [saltToDigest_eq] at hs
    cases hs

theorem FsVerityConfig.new_inv {blockSize : Nat} {salt : Bytes} {cfg : FsVerityConfig H}
    (h : FsVerityConfig.new H blockSize salt = some cfg) :
    cfg.blockSize = blockSize ∧ cfg.salt = salt := by
  unfold FsVerityConfig.new at h
  split at h
  · split at h
    · cases h; exact ⟨rfl, rfl⟩
    · cases h
  · cases h

/-! ## Block size and digest size -/

namespace FsVerityConfig

variable (cfg : FsVerityConfig H)

/-- How many digests fit in one block. -/
def fanout : Nat := cfg.blockSize / H.outputSize

theorem outputSize_pos (hd : H.outputSize = 32 ∨ H.outputSize = 64) : 0 < H.outputSize := by
  rcases hd with h | h <;> omega

/-- The known digest sizes are powers of two too, so whole digests fill a block. -/
theorem outputSize_mul_fanout (hd : H.outputSize = 32 ∨ H.outputSize = 64)
    (cfg : FsVerityConfig H) : H.outputSize * cfg.fanout = cfg.blockSize := by
  apply Nat.mul_div_cancel'
  obtain ⟨k, -, hk⟩ := cfg.blockSize_pow
  have htwo := cfg.two_digests_le
  rw [hk] at htwo ⊢
  have hk6 : 6 ≤ k := by
    apply (Nat.pow_le_pow_iff_right (by omega : 1 < 2)).mp
    rcases hd with h | h <;> omega
  have h64 : 2 ^ 6 ∣ 2 ^ k := Nat.pow_dvd_pow 2 hk6
  rcases hd with h | h
  · rw [h]; exact Nat.dvd_trans (by decide) h64
  · rw [h]; exact h64

/-- As many digests fit in a block as its size allows. -/
theorem le_fanout_iff (hpos : 0 < H.outputSize) (cfg : FsVerityConfig H) (n : Nat) :
    n ≤ cfg.fanout ↔ H.outputSize * n ≤ cfg.blockSize := by
  rw [fanout, Nat.le_div_iff_mul_le hpos, Nat.mul_comm]

theorem two_le_fanout (hpos : 0 < H.outputSize) (cfg : FsVerityConfig H) : 2 ≤ cfg.fanout :=
  (le_fanout_iff hpos cfg 2).mpr cfg.two_digests_le

theorem fanout_pos (hpos : 0 < H.outputSize) (cfg : FsVerityConfig H) : 0 < cfg.fanout :=
  Nat.lt_of_lt_of_le Nat.zero_lt_two (two_le_fanout hpos cfg)

theorem blockSize_pos (cfg : FsVerityConfig H) : 0 < cfg.blockSize := by
  obtain ⟨k, -, hk⟩ := cfg.blockSize_pow
  rw [hk]
  exact Nat.two_pow_pos k

theorem blockSize_lt (cfg : FsVerityConfig H) : cfg.blockSize < 2 ^ 64 := by
  obtain ⟨k, hlt, hk⟩ := cfg.blockSize_pow
  rw [hk]
  exact Nat.pow_lt_pow_right (by decide) hlt

theorem fanout_lt (cfg : FsVerityConfig H) : cfg.fanout < 2 ^ 64 :=
  Nat.lt_of_le_of_lt (Nat.div_le_self _ _) cfg.blockSize_lt

end FsVerityConfig

/-! ## Blocks that hold given bytes -/

namespace FixedSizeBlock

/-- The block that has been fed `data`. -/
def holding (cfg : FsVerityConfig H) (data : Bytes) : FixedSizeBlock :=
  ⟨cfg.saltedDigest ++ data, cfg.blockSize - data.length⟩

variable {cfg : FsVerityConfig H}

theorem new_eq_holding : new cfg = holding cfg [] := by
  simp [new, holding]

theorem append_holding {data more : Bytes} (h : data.length + more.length ≤ cfg.blockSize) :
    (holding cfg data).append more = some (holding cfg (data ++ more)) := by
  have hroom : more.length ≤ cfg.blockSize - data.length := by omega
  rw [append, holding, if_pos hroom, holding, List.append_assoc, List.length_append,
    Nat.sub_add_eq]

theorem overflowingAppend_holding {data more : Bytes} (h : data.length ≤ cfg.blockSize) :
    (holding cfg data).overflowingAppend more =
      some (holding cfg (data ++ more.take (cfg.blockSize - data.length)),
        more.drop (cfg.blockSize - data.length)) := by
  have htake : more.take (min (cfg.blockSize - data.length) more.length) =
      more.take (cfg.blockSize - data.length) := by
    rw [← List.take_take, List.take_length]
  have hdrop : more.drop (min (cfg.blockSize - data.length) more.length) =
      more.drop (cfg.blockSize - data.length) := by
    rcases Nat.le_total (cfg.blockSize - data.length) more.length with hle | hle
    · rw [Nat.min_eq_left hle]
    · rw [Nat.min_eq_right hle, List.drop_length, List.drop_eq_nil_of_le hle]
  rw [overflowingAppend]
  show ((holding cfg data).append
    (more.take (min (cfg.blockSize - data.length) more.length))).bind _ = _
  rw [htake, append_holding (by rw [List.length_take]; omega)]
  show some (_, more.drop (min (cfg.blockSize - data.length) more.length)) = _
  rw [hdrop]

theorem fillToEnd_holding (data : Bytes) :
    (holding cfg data).fillToEnd.inner = saltPad H cfg.salt ++ zeroPad cfg.blockSize data := by
  rw [fillToEnd, holding, updateZeroes_eq, cfg.saltedDigest_eq_saltPad, zeroPad, List.append_assoc]

theorem finalizeInto_holding (data : Bytes) :
    (holding cfg data).finalizeInto H = blockHash H cfg.salt cfg.blockSize data := by
  rw [finalizeInto, fillToEnd_holding, blockHash]

theorem finalizeIntoAndReset_holding (data : Bytes) :
    (holding cfg data).finalizeIntoAndReset cfg =
      (blockHash H cfg.salt cfg.blockSize data, holding cfg []) := by
  rw [finalizeIntoAndReset, fillToEnd_holding, blockHash, new_eq_holding]

end FixedSizeBlock

theorem digestBytes_append (g g' : List (Output H)) :
    digestBytes (g ++ g') = digestBytes g ++ digestBytes g' :=
  List.flatMap_append

theorem length_digestBytes (g : List (Output H)) :
    (digestBytes g).length = H.outputSize * g.length := by
  induction g with
  | nil => rfl
  | cons h g ih =>
    rw [digestBytes, List.flatMap_cons, List.length_append, h.toList_length, List.length_cons,
      Nat.mul_succ, Nat.add_comm]
    exact congrArg (· + H.outputSize) ih

/-! ## The levels above the data -/

namespace FsVerityDigest

variable {cfg : FsVerityConfig H}

/-- The loop over the levels neither adds nor removes one. -/
theorem updateLevels_length {levelIndex : Nat} {keep : Bool} {overflow : Bytes}
    {tree : MerkleTree H} {levels : List FixedSizeBlock}
    {r : List FixedSizeBlock × Bytes × MerkleTree H} :
    updateLevels cfg levelIndex keep overflow tree levels = some r →
      r.1.length = levels.length := by
  induction levels generalizing levelIndex keep overflow tree r with
  | nil =>
    intro h
    cases h
    rfl
  | cons level rest ih =>
    intro h
    rw [updateLevels] at h
    obtain ⟨⟨level', overflow'⟩, -, h⟩ := Option.bind_eq_some_iff.mp h
    dsimp only at h
    split at h
    · split at h
      · cases h; rfl
      · cases h
    · split at h
      · cases h; rfl
      · obtain ⟨level'', -, h⟩ := Option.bind_eq_some_iff.mp h
        obtain ⟨r', hr', h⟩ := Option.bind_eq_some_iff.mp h
        cases h
        simpa using ih hr'

/-- The block of an open group. -/
def groupBlock (cfg : FsVerityConfig H) (g : List (Output H)) : FixedSizeBlock :=
  FixedSizeBlock.holding cfg (digestBytes g)

/-- Room for one digest in the block of an open group. -/
theorem length_digestBytes_add_le (hpos : 0 < H.outputSize) {g : List (Output H)}
    (hg : g.length < cfg.fanout) : (digestBytes g).length + H.outputSize ≤ cfg.blockSize := by
  rw [length_digestBytes, ← Nat.mul_succ]
  exact (cfg.le_fanout_iff hpos _).mp hg

/-- A digest that arrives at levels holding open groups is pushed as `Data.push` does: either some
level takes it, or what is left over is the one digest of a new top level. No digest is ever cut,
because an open group leaves room for one. -/
theorem updateLevels_groups (hpos : 0 < H.outputSize) (tree : MerkleTree H)
    (gs : List (List (Output H))) :
    (∀ g ∈ gs, g.length < cfg.fanout) → ∀ (h : Output H) (levelIndex : Nat), 0 < levelIndex →
    ∃ gs' rest, updateLevels cfg levelIndex true h.toList tree (gs.map (groupBlock cfg)) =
        some (gs'.map (groupBlock cfg), rest, tree) ∧
      ((rest = [] ∧ push cfg.fanout (nodeHash H cfg.salt cfg.blockSize) h gs = gs') ∨
        ∃ h' : Output H, rest = h'.toList ∧
          push cfg.fanout (nodeHash H cfg.salt cfg.blockSize) h gs = gs' ++ [[h']]) := by
  induction gs with
  | nil =>
    intro _ h levelIndex _
    exact ⟨[], h.toList, rfl, Or.inr ⟨h, rfl, rfl⟩⟩
  | cons g gs ih =>
    intro hlt h levelIndex hidx
    have hg : g.length + 1 ≤ cfg.fanout := hlt g List.mem_cons_self
    have hlen := length_digestBytes_add_le hpos (hlt g List.mem_cons_self)
    have hh : h.toList.length = H.outputSize := h.toList_length
    have happ : (groupBlock cfg g).overflowingAppend h.toList =
        some (groupBlock cfg (g ++ [h]), []) := by
      rw [groupBlock, FixedSizeBlock.overflowingAppend_holding (by omega),
        List.take_of_length_le (by omega), List.drop_eq_nil_of_le (by omega), groupBlock,
        digestBytes_append]
      simp [digestBytes]
    have hrem : H.outputSize ≤ (groupBlock cfg (g ++ [h])).remaining ↔
        g.length + 1 < cfg.fanout := by
      show H.outputSize ≤ cfg.blockSize - (digestBytes (g ++ [h])).length ↔ _
      rw [← Nat.succ_le_iff, cfg.le_fanout_iff hpos, Nat.mul_succ, length_digestBytes,
        List.length_append, List.length_singleton]
      rw [length_digestBytes, ← Nat.mul_succ] at hlen
      omega
    rw [List.map_cons, updateLevels, happ]
    by_cases hroom : g.length + 1 < cfg.fanout
    · -- the group stays open: the loop breaks here
      refine ⟨(g ++ [h]) :: gs, [], ?_, Or.inl ⟨rfl, ?_⟩⟩
      · simp [hrem.mpr hroom]
      · rw [push, if_pos hroom]
    · -- the group is full: its digest goes to the next level
      obtain ⟨gs', rest, hup, hres⟩ := ih (fun g' hg' => hlt g' (List.mem_cons_of_mem _ hg'))
        (nodeHash H cfg.salt cfg.blockSize (g ++ [h])) (levelIndex + 1) (by omega)
      have hclose : (groupBlock cfg (g ++ [h])).finalizeIntoAndReset cfg =
          (nodeHash H cfg.salt cfg.blockSize (g ++ [h]), groupBlock cfg []) :=
        FixedSizeBlock.finalizeIntoAndReset_holding _
      have hempty : (groupBlock cfg ([] : List (Output H))).append [] =
          some (groupBlock cfg []) :=
        FixedSizeBlock.append_holding (by simp [digestBytes])
      refine ⟨[] :: gs', rest, ?_, ?_⟩
      · have hidx' : levelIndex ≠ 0 := by omega
        simp [hrem, hroom, hclose, hempty, hidx', hup]
      · rw [push, if_neg hroom]
        rcases hres with ⟨hr, hp⟩ | ⟨h', hr, hp⟩
        · exact Or.inl ⟨hr, by rw [hp]⟩
        · exact Or.inr ⟨h', hr, by rw [hp, List.cons_append]⟩

/-! ## The state after given bytes -/

/-- Where the last block starts. A block is closed only by a byte that does not fit in it any more,
so the last block is never empty. -/
def lastStart (blockSize n : Nat) : Nat := blockSize * ((n - 1) / blockSize)

/-- The digests of the blocks that are closed after the bytes `D`. -/
def closedHashes (cfg : FsVerityConfig H) (D : Bytes) : List (Output H) :=
  merkleLevel1 H cfg.salt cfg.blockSize (D.take (lastStart cfg.blockSize D.length))

/-- The hasher that has been fed `D`. -/
def stateOf (cfg : FsVerityConfig H) (D : Bytes) : FsVerityDigest H :=
  if D = [] then ⟨cfg, [], ⟨[]⟩⟩
  else ⟨cfg,
    FixedSizeBlock.holding cfg (D.drop (lastStart cfg.blockSize D.length)) ::
      (frontier cfg.fanout (nodeHash H cfg.salt cfg.blockSize) (closedHashes cfg D)).map
        (groupBlock cfg),
    ⟨closedHashes cfg D⟩⟩

@[simp] theorem config_stateOf (D : Bytes) : (stateOf cfg D).config = cfg := by
  rw [stateOf]
  split <;> rfl

theorem newWithSaltAndBlockSize_eq {salt : Bytes} {B : Nat}
    (hnew : FsVerityConfig.new H B salt = some cfg) :
    newWithSaltAndBlockSize H salt B = some (stateOf cfg []) := by
  rw [newWithSaltAndBlockSize, hnew]
  rfl

/-- The longest input that fits in `MAX_LEVELS` levels. -/
def capacity (cfg : FsVerityConfig H) : Nat := cfg.blockSize * cfg.fanout ^ (maxLevels - 1)

/-- Whole blocks, then a last block of one to `B` bytes. -/
structure Split (B : Nat) (D pre last : Bytes) : Prop where
  eq : D = pre ++ last
  dvd : B ∣ pre.length
  ne_nil : last ≠ []
  le : last.length ≤ B

theorem exists_split {B : Nat} (hB : 0 < B) {D : Bytes} (hD : D ≠ []) :
    ∃ pre last, Split B D pre last := by
  have hpos := List.length_pos_of_ne_nil hD
  have hdm := Nat.div_add_mod (D.length - 1) B
  have hmod := Nat.mod_lt (D.length - 1) hB
  have hstart : lastStart B D.length + (D.length - 1) % B = D.length - 1 := hdm
  refine ⟨D.take (lastStart B D.length), D.drop (lastStart B D.length),
    (List.take_append_drop _ _).symm, ?_, ?_, ?_⟩
  · rw [List.length_take, Nat.min_eq_left (by omega)]
    exact Nat.dvd_mul_right _ _
  · intro h
    have hlen := congrArg List.length h
    rw [List.length_drop, List.length_nil] at hlen
    omega
  · rw [List.length_drop]; omega

/-- What a chunk of at most a block does to the cut: it is the first, it fits in the last block, or
its first part `a` fills the last block and the rest `b` starts a new one. -/
theorem chunk_cases {B : Nat} (hB : 0 < B) (D : Bytes) {x : Bytes} (hx : x ≠ [])
    (hxle : x.length ≤ B) :
    D = [] ∨ (∃ pre last, Split B D pre last ∧ Split B (D ++ x) pre (last ++ x)) ∨
      ∃ pre last a b, x = a ++ b ∧ Split B D pre last ∧ last.length + a.length = B ∧
        Split B (D ++ (a ++ b)) (pre ++ (last ++ a)) b := by
  by_cases hnil : D = []
  · exact Or.inl hnil
  · obtain ⟨pre, last, hs⟩ := exists_split hB hnil
    have hle := hs.le
    by_cases hfit : last.length + x.length ≤ B
    · refine Or.inr (Or.inl ⟨pre, last, hs, ?_⟩)
      exact ⟨by rw [hs.eq, List.append_assoc], hs.dvd, by simp [hx], by simpa using hfit⟩
    · have hcut : x = x.take (B - last.length) ++ x.drop (B - last.length) :=
        (List.take_append_drop _ _).symm
      have ha : (x.take (B - last.length)).length = B - last.length := by
        rw [List.length_take]; omega
      have hb : (x.drop (B - last.length)).length = x.length - (B - last.length) :=
        List.length_drop
      refine Or.inr (Or.inr ⟨pre, last, _, _, hcut, hs, by omega, ?_, ?_, ?_, by omega⟩)
      · rw [hs.eq]; simp
      · rw [List.length_append, List.length_append, ha, Nat.add_sub_cancel' hle]
        exact Nat.dvd_add hs.dvd (Nat.dvd_refl _)
      · exact List.ne_nil_of_length_pos (by omega)

/-- A split is where the last block starts. -/
theorem Split.lastStart_eq {B : Nat} {D pre last : Bytes} (h : Split B D pre last) :
    lastStart B D.length = pre.length := by
  obtain ⟨m, hm⟩ := h.dvd
  have hpos := List.length_pos_of_ne_nil h.ne_nil
  have hle := h.le
  have hq : (B * m + last.length - 1) / B = m := by
    rw [Nat.add_sub_assoc hpos, Nat.mul_add_div (by omega), Nat.div_eq_of_lt (by omega),
      Nat.add_zero]
  rw [h.eq, lastStart, List.length_append, hm, hq]

theorem Split.closedHashes_eq {D pre last : Bytes} (h : Split cfg.blockSize D pre last) :
    closedHashes cfg D = merkleLevel1 H cfg.salt cfg.blockSize pre := by
  rw [closedHashes, h.lastStart_eq, h.eq, List.take_left]

theorem Split.stateOf_eq {D pre last : Bytes} (h : Split cfg.blockSize D pre last) :
    stateOf cfg D = ⟨cfg,
      FixedSizeBlock.holding cfg last ::
        (frontier cfg.fanout (nodeHash H cfg.salt cfg.blockSize)
          (merkleLevel1 H cfg.salt cfg.blockSize pre)).map (groupBlock cfg),
      ⟨merkleLevel1 H cfg.salt cfg.blockSize pre⟩⟩ := by
  have hD : D ≠ [] := by
    rw [h.eq]
    simp [h.ne_nil]
  rw [stateOf, if_neg hD, h.closedHashes_eq, h.lastStart_eq, h.eq, List.drop_left]

/-- The digests of whole blocks followed by one more block. -/
theorem Split.merkleLevel1_eq {D pre last : Bytes} (hB : 0 < cfg.blockSize)
    (h : Split cfg.blockSize D pre last) :
    merkleLevel1 H cfg.salt cfg.blockSize D =
      merkleLevel1 H cfg.salt cfg.blockSize pre ++ [blockHash H cfg.salt cfg.blockSize last] := by
  rw [h.eq, merkleLevel1, chunks_append hB _ _ h.dvd, chunks_of_length_le h.ne_nil h.le,
    List.map_append, List.map_singleton]
  rfl

theorem Split.length_merkleLevel1 {D pre last : Bytes} (hB : 0 < cfg.blockSize)
    (h : Split cfg.blockSize D pre last) :
    cfg.blockSize * (merkleLevel1 H cfg.salt cfg.blockSize pre).length = pre.length := by
  obtain ⟨m, hm⟩ := h.dvd
  have hq : (cfg.blockSize * m + cfg.blockSize - 1) / cfg.blockSize = m := by
    rw [Nat.add_sub_assoc hB, Nat.mul_add_div hB, Nat.div_eq_of_lt (by omega), Nat.add_zero]
  rw [merkleLevel1, List.length_map, length_chunks hB, hm, hq]

/-- How far the input reaches in the levels above the data. -/
theorem Split.length_le_iff (hpos : 0 < H.outputSize) {D pre last : Bytes}
    (h : Split cfg.blockSize D pre last) (k : Nat) :
    D.length ≤ cfg.blockSize * cfg.fanout ^ k ↔
      (frontier cfg.fanout (nodeHash H cfg.salt cfg.blockSize)
        (merkleLevel1 H cfg.salt cfg.blockSize pre)).length ≤ k := by
  have hB := cfg.blockSize_pos
  have hlast := List.length_pos_of_ne_nil h.ne_nil
  have hle := h.le
  have hlen := h.length_merkleLevel1 (H := H) hB
  rw [length_frontier_le_iff (cfg.two_le_fanout hpos), h.eq, List.length_append, ← hlen]
  generalize (merkleLevel1 H cfg.salt cfg.blockSize pre).length = n
  generalize cfg.fanout ^ k = m
  constructor
  · intro hcap
    by_contra hn
    have := Nat.mul_le_mul_left cfg.blockSize (Nat.le_of_not_lt hn)
    omega
  · intro hlt
    have := Nat.mul_le_mul_left cfg.blockSize hlt
    rw [Nat.mul_succ] at this
    omega

/-- The input fits exactly when the levels above the data number at most seven. -/
theorem Split.le_capacity_iff (hpos : 0 < H.outputSize) {D pre last : Bytes}
    (h : Split cfg.blockSize D pre last) :
    D.length ≤ capacity cfg ↔
      (frontier cfg.fanout (nodeHash H cfg.salt cfg.blockSize)
        (merkleLevel1 H cfg.salt cfg.blockSize pre)).length ≤ maxLevels - 1 :=
  h.length_le_iff hpos (maxLevels - 1)

/-! ## One chunk, one call, all calls -/

/-- The first chunk creates level 0. -/
theorem updateChunk_first (hpos : 0 < H.outputSize) {x : Bytes}
    (hx : x ≠ []) (hxle : x.length ≤ cfg.blockSize) :
    x.length ≤ capacity cfg ∧ (stateOf cfg []).updateChunk x = some (stateOf cfg x) := by
  have hsplit : Split cfg.blockSize x [] x := ⟨rfl, by simp, hx, hxle⟩
  have happ : (FixedSizeBlock.new cfg).append x = some (FixedSizeBlock.holding cfg x) := by
    rw [FixedSizeBlock.new_eq_holding, FixedSizeBlock.append_holding (by simpa using hxle),
      List.nil_append]
  constructor
  · rw [hsplit.le_capacity_iff hpos]
    simp [merkleLevel1]
  · rw [hsplit.stateOf_eq]
    simp [stateOf, updateChunk, updateLevels, hx, happ, maxLevels, merkleLevel1]

/-- A chunk that fits in the last block only changes level 0. -/
theorem updateLevels_fits {D pre last x : Bytes} (hs : Split cfg.blockSize D pre last)
    (hs' : Split cfg.blockSize (D ++ x) pre (last ++ x)) :
    updateLevels cfg 0 false x (stateOf cfg D).merkleTree (stateOf cfg D).levels =
      some ((stateOf cfg (D ++ x)).levels, [], (stateOf cfg (D ++ x)).merkleTree) := by
  have hfit := hs'.le
  rw [List.length_append] at hfit
  rw [hs.stateOf_eq, updateLevels, FixedSizeBlock.overflowingAppend_holding hs.le, hs'.stateOf_eq,
    List.take_of_length_le (by omega), List.drop_eq_nil_of_le (by omega)]
  rfl

theorem updateChunk_fits {D pre last x : Bytes} (hs : Split cfg.blockSize D pre last)
    (hs' : Split cfg.blockSize (D ++ x) pre (last ++ x)) :
    (stateOf cfg D).updateChunk x = some (stateOf cfg (D ++ x)) := by
  rw [updateChunk, config_stateOf, updateLevels_fits hs hs', hs'.stateOf_eq]
  rfl

/-- A chunk that does not fit closes the last block with its first part `a`, and pushes the digest
of the block on the open groups; the rest `b` starts a new last block. Either some level takes the
digest, or what is left over is for a new top level. -/
theorem updateLevels_closes (hpos : 0 < H.outputSize) {D pre last a b : Bytes}
    (hs : Split cfg.blockSize D pre last) (hfull : last.length + a.length = cfg.blockSize)
    (hs' : Split cfg.blockSize (D ++ (a ++ b)) (pre ++ (last ++ a)) b) :
    ∃ gs rest, updateLevels cfg 0 false (a ++ b) (stateOf cfg D).merkleTree
        (stateOf cfg D).levels = some (FixedSizeBlock.holding cfg b :: gs.map (groupBlock cfg),
          rest, ⟨merkleLevel1 H cfg.salt cfg.blockSize (pre ++ (last ++ a))⟩) ∧
      gs.length = (frontier cfg.fanout (nodeHash H cfg.salt cfg.blockSize)
        (merkleLevel1 H cfg.salt cfg.blockSize pre)).length ∧
      ((rest = [] ∧ frontier cfg.fanout (nodeHash H cfg.salt cfg.blockSize)
          (merkleLevel1 H cfg.salt cfg.blockSize (pre ++ (last ++ a))) = gs) ∨
        ∃ h' : Output H, rest = h'.toList ∧
          frontier cfg.fanout (nodeHash H cfg.salt cfg.blockSize)
            (merkleLevel1 H cfg.salt cfg.blockSize (pre ++ (last ++ a))) = gs ++ [[h']]) := by
  have hB := cfg.blockSize_pos
  have hclosed : Split cfg.blockSize (pre ++ (last ++ a)) pre (last ++ a) :=
    ⟨rfl, hs.dvd, by simp [hs.ne_nil], by rw [List.length_append]; omega⟩
  have hlevel1 := hclosed.merkleLevel1_eq (H := H) hB
  have htree : MerkleTree.appendLevel1Hash ⟨merkleLevel1 H cfg.salt cfg.blockSize pre⟩
      (blockHash H cfg.salt cfg.blockSize (last ++ a)) =
        ⟨merkleLevel1 H cfg.salt cfg.blockSize (pre ++ (last ++ a))⟩ := by
    rw [MerkleTree.appendLevel1Hash, hlevel1]
  have happ : (FixedSizeBlock.holding cfg []).append b = some (FixedSizeBlock.holding cfg b) := by
    rw [FixedSizeBlock.append_holding (by simpa using hs'.le), List.nil_append]
  obtain ⟨gs, rest, hup, hres⟩ := updateLevels_groups hpos
    ⟨merkleLevel1 H cfg.salt cfg.blockSize (pre ++ (last ++ a))⟩ _
    (length_lt_of_mem_frontier (cfg.two_le_fanout hpos)
      (merkleLevel1 H cfg.salt cfg.blockSize pre))
    (blockHash H cfg.salt cfg.blockSize (last ++ a)) 1 (by omega)
  rw [push_frontier (cfg.two_le_fanout hpos), ← hlevel1] at hres
  refine ⟨gs, rest, ?_, ?_, hres⟩
  · -- level 0 is closed and refilled with `b`, and the loop goes on above it
    rw [hs.stateOf_eq, updateLevels, FixedSizeBlock.overflowingAppend_holding hs.le,
      show cfg.blockSize - last.length = a.length by omega, List.take_left, List.drop_left]
    simp [hs'.ne_nil, FixedSizeBlock.finalizeIntoAndReset_holding, happ, htree, hup]
  · have hcount := updateLevels_length hup
    rwa [List.length_map, List.length_map] at hcount

/-- A digest is not empty. -/
theorem toList_output_ne_nil (hpos : 0 < H.outputSize) (h : Output H) :
    h.toList ≠ [] := by
  intro hnil
  have hlen := congrArg List.length hnil
  rw [h.toList_length, List.length_nil] at hlen
  omega

/-- A new top level. -/
theorem append_new_digest (h : Output H) :
    (FixedSizeBlock.new cfg).append h.toList = some (groupBlock cfg [h]) := by
  have htwo := cfg.two_digests_le
  rw [FixedSizeBlock.new_eq_holding, FixedSizeBlock.append_holding (by simp; omega),
    List.nil_append, groupBlock]
  simp [digestBytes]

theorem updateChunk_closes (hpos : 0 < H.outputSize) {D pre last a b : Bytes}
    (hD : D.length ≤ capacity cfg) (hs : Split cfg.blockSize D pre last)
    (hfull : last.length + a.length = cfg.blockSize)
    (hs' : Split cfg.blockSize (D ++ (a ++ b)) (pre ++ (last ++ a)) b) :
    (stateOf cfg D).updateChunk (a ++ b) =
      if (D ++ (a ++ b)).length ≤ capacity cfg then some (stateOf cfg (D ++ (a ++ b)))
      else none := by
  obtain ⟨gs, rest, hrun, hcount, hres⟩ := updateLevels_closes hpos hs hfull hs'
  have hcapiff := hs'.le_capacity_iff (H := H) hpos
  rw [updateChunk, config_stateOf, hrun]
  rcases hres with ⟨rfl, hf⟩ | ⟨h', rfl, hf⟩
  · -- some level took the digest: the number of levels is as before
    have hcap : (D ++ (a ++ b)).length ≤ capacity cfg := by
      have hold := (hs.le_capacity_iff (H := H) hpos).mp hD
      rw [hcapiff, hf]
      omega
    rw [if_pos hcap, hs'.stateOf_eq, hf]
    simp
  · -- a new top level, unless there are eight levels already
    have hlevels : (D ++ (a ++ b)).length ≤ capacity cfg ↔ gs.length + 1 < maxLevels := by
      rw [hcapiff, hf, List.length_append]
      show gs.length + 1 ≤ 7 ↔ gs.length + 1 < 8
      omega
    rw [hs'.stateOf_eq, hf]
    simp only [hlevels]
    simp [toList_output_ne_nil hpos, append_new_digest]

/-- The step lemma: one chunk of at most a block takes the state of `D` to the state of `D ++ x`,
and panics exactly when that would need a ninth level. -/
theorem updateChunk_stateOf (hpos : 0 < H.outputSize) {D x : Bytes}
    (hD : D.length ≤ capacity cfg) (hx : x ≠ []) (hxle : x.length ≤ cfg.blockSize) :
    (stateOf cfg D).updateChunk x =
      if (D ++ x).length ≤ capacity cfg then some (stateOf cfg (D ++ x)) else none := by
  rcases chunk_cases cfg.blockSize_pos D hx hxle with
    rfl | ⟨pre, last, hs, hs'⟩ | ⟨pre, last, a, b, rfl, hs, hfull, hs'⟩
  · obtain ⟨hcap, hstep⟩ := updateChunk_first hpos hx hxle
    rw [List.nil_append, if_pos hcap, hstep]
  · have hcap : (D ++ x).length ≤ capacity cfg := by
      rw [hs'.le_capacity_iff hpos, ← hs.le_capacity_iff hpos]
      exact hD
    rw [if_pos hcap, updateChunk_fits hs hs']
  · exact updateChunk_closes hpos hD hs hfull hs'

/-- One call: the cut into chunks of a block does not show. -/
theorem update_stateOf (hpos : 0 < H.outputSize) (data : Bytes) :
    ∀ D : Bytes, D.length ≤ capacity cfg →
      (stateOf cfg D).update data =
        if (D ++ data).length ≤ capacity cfg then some (stateOf cfg (D ++ data)) else none := by
  have hB := cfg.blockSize_pos
  suffices hfold : ∀ D : Bytes, D.length ≤ capacity cfg →
      (chunks cfg.blockSize data).foldlM updateChunk (stateOf cfg D) =
        if (D ++ data).length ≤ capacity cfg then some (stateOf cfg (D ++ data)) else none by
    intro D hD
    rw [update, config_stateOf, hfold D hD]
  induction data using chunks_induction hB with
  | nil =>
    intro D hD
    simp [hD]
  | step data h ih =>
    intro D hD
    have htake : data.take cfg.blockSize ≠ [] := by
      intro hnil
      have hlen := congrArg List.length hnil
      have hne := List.length_pos_of_ne_nil h
      rw [List.length_take, List.length_nil] at hlen
      omega
    have hsplit : D ++ data = D ++ data.take cfg.blockSize ++ data.drop cfg.blockSize := by
      rw [List.append_assoc, List.take_append_drop]
    rw [chunks_of_ne_nil hB h, List.foldlM_cons,
      updateChunk_stateOf hpos hD htake (List.length_take_le _ _)]
    by_cases hcap : (D ++ data.take cfg.blockSize).length ≤ capacity cfg
    · rw [if_pos hcap, hsplit]
      exact ih _ hcap
    · have hcap' : ¬ (D ++ data).length ≤ capacity cfg := by
        rw [hsplit, List.length_append]
        omega
      rw [if_neg hcap, if_neg hcap']
      rfl

/-- Any sequence of calls, empty ones included. -/
theorem foldlM_update_stateOf (hpos : 0 < H.outputSize) (calls : List Bytes) :
    ∀ D : Bytes, D.length ≤ capacity cfg →
      calls.foldlM update (stateOf cfg D) =
        if (D ++ calls.flatten).length ≤ capacity cfg then some (stateOf cfg (D ++ calls.flatten))
        else none := by
  induction calls with
  | nil =>
    intro D hD
    simp [hD]
  | cons data calls ih =>
    intro D hD
    rw [List.foldlM_cons, update_stateOf hpos data D hD, List.flatten_cons, ← List.append_assoc]
    by_cases hcap : (D ++ data).length ≤ capacity cfg
    · rw [if_pos hcap]
      exact ih _ hcap
    · have hcap' : ¬ (D ++ data ++ calls.flatten).length ≤ capacity cfg := by
        rw [List.length_append]
        omega
      rw [if_neg hcap, if_neg hcap']
      rfl

end FsVerityDigest

end CryptPilot.VerityCore
