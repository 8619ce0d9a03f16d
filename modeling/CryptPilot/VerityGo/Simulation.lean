import CryptPilot.Data.Except
import CryptPilot.VerityCore.Rebuild
import CryptPilot.VerityGo.Digest

/-!
# The Go hasher simulates the Rust hasher

Every state of the Rust hasher has a counterpart in Go (`ofDigest`), and wherever the Rust code does
not panic, the Go code does the same: one lemma for each function, then whole runs
(`run_simulates`). The places where the two differ are those where the Rust code asserts something:
the level limit, the parameters, and that nothing overflows where there is room for a digest.

What Go computes is then known from the Rust side. `run_agrees` puts it together for both hash
algorithms.
-/

namespace CryptPilot.VerityGo

open CryptPilot.Data
open CryptPilot.VerityCore (Bytes InnerHash InnerHashAlgorithm Output Profile IsPowerOfTwo
  maxSaltSize saltPad zeroPad)

/-! ## Counterparts -/

section
variable (C : Crypto)

/-- The Rust hash with the same function. -/
def innerHash : InnerHashAlgorithm → InnerHash
  | .sha256 => VerityCore.sha256 C.sha256
  | .sha512 => VerityCore.sha512 C.sha512

def ofAlgorithm (a : InnerHashAlgorithm) : HashAlgorithm := ⟨a.toU8⟩

/-- A hash that has been fed `written`. -/
def ofWritten : InnerHashAlgorithm → Bytes → Hash
  | .sha256, written => .sha256 written
  | .sha512, written => .sha512 written

variable {C} {a : InnerHashAlgorithm}

def ofTree (tree : VerityCore.MerkleTree (innerHash C a)) : MerkleTree :=
  ⟨tree.level1.map List.Vector.toList, ofAlgorithm a⟩

def ofBlock (cfg : VerityCore.FsVerityConfig (innerHash C a)) (block : VerityCore.FixedSizeBlock) :
    FixedSizeBlock :=
  ⟨ofWritten a block.inner, block.remaining, ofAlgorithm a, cfg.salt, cfg.blockSize⟩

def ofDigest (digest : VerityCore.FsVerityDigest (innerHash C a)) : FsVerityDigest :=
  ⟨⟨digest.config.blockSize, digest.config.salt, ofAlgorithm a⟩,
    digest.levels.map (ofBlock digest.config), ofTree digest.merkleTree⟩

def ofDescriptor (desc : VerityCore.FsVerityDescriptor (innerHash C a)) : FsVerityDescriptor :=
  ⟨desc.version, ⟨desc.hashAlgorithm⟩, desc.logBlocksize, desc.dataSize, desc.rootHash.toList,
    desc.salt⟩

end

/-! ## Hashes -/

section
variable {C : Crypto} {a : InnerHashAlgorithm}

@[simp] theorem write_ofWritten (written data : Bytes) :
    (ofWritten a written).write data = ofWritten a (written ++ data) := by
  cases a <;> rfl

@[simp] theorem sum_ofWritten (written : Bytes) :
    (ofWritten a written).sum C = ((innerHash C a).finalize written).toList := by
  cases a <;> rfl

@[simp] theorem newHash_ofAlgorithm : (ofAlgorithm a).newHash = some (ofWritten a []) := by
  cases a <;> rfl

variable (C) in
theorem digestSize_ofAlgorithm : (ofAlgorithm a).digestSize = (innerHash C a).outputSize := by
  cases a <;> rfl

variable (C) in
theorem blockSize_ofAlgorithm : (ofAlgorithm a).blockSize = (innerHash C a).blockSize := by
  cases a <;> rfl

variable (C a) in
theorem outputSize_innerHash :
    (innerHash C a).outputSize = 32 ∨ (innerHash C a).outputSize = 64 := by
  cases a
  · exact Or.inl rfl
  · exact Or.inr rfl

/-- The padded pieces of a salt: what Rust writes with `update_padded`, Go writes in two steps. -/
theorem writeSalt_ofWritten (salt : Bytes) {written padded : Bytes}
    (h : (chunks (innerHash C a).blockSize salt).foldlM
      (fun s chunk => VerityCore.updatePadded s chunk (innerHash C a).blockSize) written =
        some padded) :
    writeSalt (innerHash C a).blockSize salt (ofWritten a written) = ofWritten a padded := by
  have hpieces : ∀ piece ∈ chunks (innerHash C a).blockSize salt, 0 < piece.length :=
    fun piece hp => List.length_pos_of_ne_nil
      (ne_nil_of_mem_chunks (innerHash C a).blockSize_pos salt piece hp)
  unfold writeSalt
  generalize chunks (innerHash C a).blockSize salt = pieces at h hpieces
  induction pieces generalizing written with
  | nil => cases h; rfl
  | cons piece pieces ih =>
    rw [List.foldlM_cons] at h
    obtain ⟨s, hs, h⟩ := Option.bind_eq_some_iff.mp h
    obtain ⟨hle, rfl⟩ := VerityCore.updatePadded_eq_some hs
    have hpos := hpieces piece List.mem_cons_self
    have hpad : (innerHash C a).blockSize - piece.length < (innerHash C a).blockSize := by omega
    rw [List.foldl_cons]
    simp only [hpad, if_true, write_ofWritten]
    rw [List.append_assoc]
    exact ih h fun p hp => hpieces p (List.mem_cons_of_mem _ hp)

variable (C) in
theorem newSaltedHash_ofAlgorithm (salt : Bytes) :
    newSaltedHash (ofAlgorithm a) salt = some (ofWritten a (saltPad (innerHash C a) salt)) := by
  rw [newSaltedHash, newHash_ofAlgorithm, Option.map_some, blockSize_ofAlgorithm C]
  congr 1
  exact writeSalt_ofWritten salt (VerityCore.saltToDigest_eq salt)

end

/-! ## Blocks -/

section
variable {C : Crypto} {a : InnerHashAlgorithm} {cfg : VerityCore.FsVerityConfig (innerHash C a)}
  {block block' : VerityCore.FixedSizeBlock}

theorem newFixedSizeBlock_ofBlock :
    newFixedSizeBlock (ofAlgorithm a) cfg.salt cfg.blockSize =
      some (ofBlock cfg (VerityCore.FixedSizeBlock.new cfg)) := by
  rw [newFixedSizeBlock, newSaltedHash_ofAlgorithm C, Option.map_some, ofBlock,
    VerityCore.FixedSizeBlock.new, cfg.saltedDigest_eq_saltPad]

theorem append_ofBlock {data : Bytes} (h : block.append data = some block') :
    (ofBlock cfg block).append data = ofBlock cfg block' := by
  unfold VerityCore.FixedSizeBlock.append at h
  split at h
  · next hfit =>
    cases h
    simp [ofBlock, FixedSizeBlock.append, Int.ofNat_sub hfit]
  · cases h

theorem overflowingAppend_ofBlock {data rest : Bytes}
    (h : block.overflowingAppend data = some (block', rest)) :
    (ofBlock cfg block).overflowingAppend data = some (ofBlock cfg block', rest) := by
  obtain ⟨level, happ, h⟩ := Option.bind_eq_some_iff.mp h
  cases h
  have hn : (if (data.length : Int) < (ofBlock cfg block).remaining then (data.length : Int)
      else (ofBlock cfg block).remaining) = (min block.remaining data.length : Nat) := by
    show (if (data.length : Int) < (block.remaining : Int) then (data.length : Int)
      else (block.remaining : Int)) = _
    split <;> omega
  rw [FixedSizeBlock.overflowingAppend]
  simp only [hn, Int.toNat_natCast]
  rw [if_neg (by omega), append_ofBlock happ]

theorem fillToEnd_ofBlock :
    ((ofBlock cfg block).fillToEnd C).1 = (block.finalizeInto (innerHash C a)).toList := by
  rw [VerityCore.FixedSizeBlock.finalizeInto, VerityCore.FixedSizeBlock.fillToEnd,
    VerityCore.updateZeroes_eq]
  by_cases h : 0 < block.remaining
  · simp [FixedSizeBlock.fillToEnd, ofBlock, h, zeros]
  · have hzero : block.remaining = 0 := by omega
    simp [FixedSizeBlock.fillToEnd, ofBlock, hzero]

theorem finalizeAndReset_ofBlock :
    (ofBlock cfg block).finalizeAndReset C =
      some ((block.finalizeIntoAndReset cfg).1.toList,
        ofBlock cfg (block.finalizeIntoAndReset cfg).2) := by
  have hparams : ((ofBlock cfg block).fillToEnd C).2.algo = ofAlgorithm a ∧
      ((ofBlock cfg block).fillToEnd C).2.salt = cfg.salt ∧
      ((ofBlock cfg block).fillToEnd C).2.blockSize = cfg.blockSize := by
    unfold FixedSizeBlock.fillToEnd
    dsimp only
    split <;> exact ⟨rfl, rfl, rfl⟩
  obtain ⟨halgo, hsalt, hsize⟩ := hparams
  rw [FixedSizeBlock.finalizeAndReset]
  simp only [halgo, hsalt, hsize, newSaltedHash_ofAlgorithm C, fillToEnd_ofBlock]
  rw [VerityCore.FixedSizeBlock.finalizeIntoAndReset, VerityCore.FixedSizeBlock.new,
    cfg.saltedDigest_eq_saltPad]
  rfl

end

/-! ## Writing -/

section
variable {C : Crypto} {a : InnerHashAlgorithm} {cfg : VerityCore.FsVerityConfig (innerHash C a)}

theorem append_ofTree (levelIndex : Nat) (tree : VerityCore.MerkleTree (innerHash C a))
    (hash : Output (innerHash C a)) :
    (if levelIndex = 0 then { ofTree tree with level1 := (ofTree tree).level1 ++ [hash.toList] }
      else ofTree tree) =
        ofTree (if levelIndex = 0 then tree.appendLevel1Hash hash else tree) := by
  split
  · simp [ofTree, VerityCore.MerkleTree.appendLevel1Hash]
  · rfl

/-- Where the Rust loop returns, it stops at the same level: that there is no overflow where there
is room for a digest is asserted there, and tested here. -/
theorem updateLevels_simulates {levels : List VerityCore.FixedSizeBlock} :
    ∀ {levelIndex : Nat} {keep : Bool} {overflow rest : Bytes}
      {tree tree' : VerityCore.MerkleTree (innerHash C a)}
      {levels' : List VerityCore.FixedSizeBlock},
      VerityCore.FsVerityDigest.updateLevels cfg levelIndex keep overflow tree levels =
        some (levels', rest, tree') →
      FsVerityDigest.updateLevels C (ofAlgorithm a).digestSize levelIndex keep overflow
          (ofTree tree) (levels.map (ofBlock cfg)) =
        some (levels'.map (ofBlock cfg), rest, ofTree tree') := by
  induction levels with
  | nil =>
    intro levelIndex keep overflow rest tree tree' levels' h
    cases h
    rfl
  | cons level levels ih =>
    intro levelIndex keep overflow rest tree tree' levels' h
    rw [VerityCore.FsVerityDigest.updateLevels] at h
    obtain ⟨⟨level₁, overflow₁⟩, happ, h⟩ := Option.bind_eq_some_iff.mp h
    have hroom : ((ofBlock cfg level₁).remaining ≥ ((ofAlgorithm a).digestSize : Int)) ↔
        (innerHash C a).outputSize ≤ level₁.remaining := by
      rw [digestSize_ofAlgorithm C]
      exact Int.ofNat_le
    rw [List.map_cons, FsVerityDigest.updateLevels, overflowingAppend_ofBlock happ]
    simp only [Option.bind_eq_bind, Option.bind_some, hroom, List.length_eq_zero_iff]
    dsimp only at h
    split at h
    · next hstop =>
      split at h
      · next hnil =>
        cases h
        simp only [Bool.and_eq_true, decide_eq_true_eq] at hstop
        simp [hstop, hnil]
      · cases h
    · next hkeep =>
      split at h
      · next hstop =>
        cases h
        simp only [Bool.and_eq_true, Bool.not_eq_true', decide_eq_true_eq] at hstop
        simp [hstop]
      · next hover =>
        obtain ⟨level₂, hnew, h⟩ := Option.bind_eq_some_iff.mp h
        obtain ⟨⟨levels₃, rest₃, tree₃⟩, hrest, h⟩ := Option.bind_eq_some_iff.mp h
        cases h
        have hstop : ¬ (if keep = true then
            decide ((innerHash C a).outputSize ≤ level₁.remaining) && decide (overflow₁ = [])
            else decide (overflow₁ = [])) = true := by
          cases keep
          · simpa using hover
          · simp at hkeep
            simp [hkeep]
        rw [if_neg hstop, finalizeAndReset_ofBlock]
        simp only [Option.bind_some, append_ofBlock hnew, append_ofTree, ih hrest]
        rfl

theorem updateChunk_simulates {digest digest' : VerityCore.FsVerityDigest (innerHash C a)}
    {chunk : Bytes} (h : digest.updateChunk chunk = some digest') :
    (ofDigest digest).updateChunk C chunk = some (ofDigest digest') := by
  obtain ⟨⟨levels, overflow, tree⟩, hlevels, h⟩ := Option.bind_eq_some_iff.mp h
  have hgo := updateLevels_simulates hlevels
  rw [FsVerityDigest.updateChunk]
  show (FsVerityDigest.updateLevels C (ofAlgorithm a).digestSize 0 false chunk
    (ofTree digest.merkleTree) (digest.levels.map (ofBlock digest.config))).bind _ = _
  rw [hgo]
  dsimp only [Option.bind_some] at h ⊢
  split at h
  · next hne =>
    split at h
    · obtain ⟨level, hnew, h⟩ := Option.bind_eq_some_iff.mp h
      cases h
      rw [if_pos (List.length_pos_of_ne_nil hne)]
      show (newFixedSizeBlock (ofAlgorithm a) digest.config.salt digest.config.blockSize).bind _ = _
      rw [newFixedSizeBlock_ofBlock, Option.bind_some, append_ofBlock hnew]
      simp [ofDigest]
    · cases h
  · next hnil =>
    cases h
    rw [if_neg (by simpa using hnil)]
    rfl

theorem write_simulates {digest digest' : VerityCore.FsVerityDigest (innerHash C a)} {data : Bytes}
    (h : digest.update data = some digest') :
    (ofDigest digest).write C data = some (ofDigest digest') := by
  have hB := digest.config.blockSize_pos
  rw [FsVerityDigest.write, FsVerityDigest.update]
  show (if digest.config.blockSize = 0 ∧ data ≠ [] then none
    else (chunks digest.config.blockSize data).foldlM (FsVerityDigest.updateChunk C)
      (ofDigest digest)) = _
  rw [if_neg (by omega)]
  exact foldlM_simulates (fun _ _ _ _ => updateChunk_simulates) h

end

/-! ## The final flush -/

section
variable {C : Crypto} {a : InnerHashAlgorithm} {cfg : VerityCore.FsVerityConfig (innerHash C a)}

/-- The variables of the two flushes: the counters are equal modulo `2 ^ 64`. -/
structure Flushes (st : VerityCore.FsVerityDigest.FlushState (innerHash C a))
    (st' : FsVerityDigest.FlushState) : Prop where
  lastHash : st'.lastHash.getD (zeros (innerHash C a).outputSize) = st.lastDigest.toList
  overflow : st'.overflow = st.overflow
  totalSize : st'.totalSize.toUInt64 = UInt64.ofNat st.totalSize
  scale : st'.scale.toUInt64 = UInt64.ofNat st.scale
  merkleTree : st'.merkleTree = ofTree st.merkleTree

theorem ofNat_of_usize {p : Profile} {n m : Nat} (h : p.usize n = some m) :
    UInt64.ofNat m = UInt64.ofNat n :=
  VerityCore.uint64_ofNat_eq_of_modEq (VerityCore.Profile.usize_modEq h)

theorem flushLevels_simulates {p : Profile} {c : Nat} {levels : List VerityCore.FixedSizeBlock} :
    (∀ level ∈ levels, level.remaining ≤ cfg.blockSize) →
    ∀ {levelIndex : Nat} {st st₁ : VerityCore.FsVerityDigest.FlushState (innerHash C a)}
      {st' : FsVerityDigest.FlushState}, Flushes st st' →
      VerityCore.FsVerityDigest.flushLevels p cfg.blockSize c levelIndex st levels = some st₁ →
      Flushes st₁ (FsVerityDigest.flushLevels C cfg.blockSize c levelIndex st'
        (levels.map (ofBlock cfg))) := by
  induction levels with
  | nil =>
    intro _ levelIndex st st₁ st' hst h
    cases h
    exact hst
  | cons level levels ih =>
    intro hle levelIndex st st₁ st' hst h
    rw [VerityCore.FsVerityDigest.flushLevels] at h
    obtain ⟨filled, hfilled, h⟩ := Option.bind_eq_some_iff.mp h
    obtain ⟨scaled, hscaled, h⟩ := Option.bind_eq_some_iff.mp h
    obtain ⟨total, htotal, h⟩ := Option.bind_eq_some_iff.mp h
    obtain ⟨level₁, hlevel, h⟩ := Option.bind_eq_some_iff.mp h
    obtain ⟨scale, hscale, h⟩ := Option.bind_eq_some_iff.mp h
    have hrem := hle level List.mem_cons_self
    rw [VerityCore.Profile.usizeSub_of_le p hrem, Option.some.injEq] at hfilled
    refine ih (fun l hl => hle l (List.mem_cons_of_mem _ hl)) ?_ h
    have hdigest : ((ofBlock cfg level₁).fillToEnd C).1 =
        (level₁.finalizeInto (innerHash C a)).toList := fillToEnd_ofBlock
    have hsub : (cfg.blockSize : Int) - (ofBlock cfg level).remaining =
        (filled : Nat) := by
      show (cfg.blockSize : Int) - (level.remaining : Int) = _
      omega
    refine ⟨?_, ?_, ?_, ?_, ?_⟩
    · show ((((ofBlock cfg level).append st'.overflow).fillToEnd C).1) = _
      rw [hst.overflow, append_ofBlock hlevel, hdigest]
    · show ((((ofBlock cfg level).append st'.overflow).fillToEnd C).1) = _
      rw [hst.overflow, append_ofBlock hlevel, hdigest]
    · dsimp only
      rw [ofNat_of_usize htotal, UInt64.ofNat_add, ofNat_of_usize hscaled, UInt64.ofNat_mul,
        hsub, Int64.toUInt64_add, Int64.toUInt64_mul, hst.totalSize, hst.scale]
      rfl
    · dsimp only
      rw [ofNat_of_usize hscale, UInt64.ofNat_mul, Int64.toUInt64_mul, hst.scale]
      rfl
    · show (if levelIndex = 0 then { st'.merkleTree with level1 := st'.merkleTree.level1 ++
        [(((ofBlock cfg level).append st'.overflow).fillToEnd C).1] } else st'.merkleTree) = _
      rw [hst.merkleTree, hst.overflow, append_ofBlock hlevel, hdigest]
      exact append_ofTree ..

/-- No block of a hasher has more room than a block. -/
theorem remaining_le_blockSize (D : Bytes) :
    ∀ level ∈ (VerityCore.FsVerityDigest.stateOf cfg D).levels,
      level.remaining ≤ cfg.blockSize := by
  intro level hlevel
  unfold VerityCore.FsVerityDigest.stateOf at hlevel
  split at hlevel
  · cases hlevel
  · rcases List.mem_cons.mp hlevel with rfl | hlevel
    · exact Nat.sub_le _ _
    · obtain ⟨g, -, rfl⟩ := List.mem_map.mp hlevel
      exact Nat.sub_le _ _

theorem trailingZeros_eq {n : Nat} (hn : 0 < n) :
    trailingZeros n = VerityCore.trailingZeros n := by
  rw [trailingZeros, if_neg (by omega), VerityCore.trailingZeros]

theorem finalize_simulates {p : Profile} {digest : VerityCore.FsVerityDigest (innerHash C a)}
    (hle : ∀ level ∈ digest.levels, level.remaining ≤ digest.config.blockSize)
    {desc : VerityCore.FsVerityDescriptor (innerHash C a)}
    {tree : VerityCore.MerkleTree (innerHash C a)}
    (h : digest.finalizeIntoFsVerityStuffs p = some (desc, tree)) :
    (ofDigest digest).finalize C = some (ofDescriptor desc, ofTree tree) := by
  obtain ⟨st, hst, h⟩ := Option.bind_eq_some_iff.mp h
  cases h
  have hd := outputSize_innerHash C a
  have hB := digest.config.blockSize_pos
  have hstart : Flushes ⟨List.Vector.replicate _ 0, [], 0, 1, digest.merkleTree⟩
      ⟨none, [], 0, 1, ofTree digest.merkleTree⟩ :=
    ⟨rfl, rfl, rfl, rfl, rfl⟩
  have hgo := flushLevels_simulates hle hstart hst
  have hpos := VerityCore.FsVerityConfig.outputSize_pos hd
  have halgo : (ofDigest digest).config.algo.digestSize = (innerHash C a).outputSize :=
    digestSize_ofAlgorithm C
  have hlog : trailingZeros (ofDigest digest).config.blockSize =
      VerityCore.trailingZeros digest.config.blockSize := trailingZeros_eq hB
  have hnum : (ofDigest digest).config.algo = ⟨(innerHash C a).innerHashAlgorithm.toU8⟩ := by
    cases a <;> rfl
  rw [FsVerityDigest.finalize]
  simp only [halgo, hlog, if_neg (by omega : ¬ (innerHash C a).outputSize = 0)]
  rw [hnum]
  -- the descriptor is made of the variables of the flush
  show some (FsVerityDescriptor.mk _ _ _ _ _ _, _) = _
  rw [ofDescriptor, ← hgo.lastHash, ← hgo.totalSize, ← hgo.merkleTree]
  rfl

/-- **Simulation.** Where a run of the Rust hasher returns, so does the same run of the Go hasher,
with the same result. -/
theorem run_simulates {p : Profile} {salt : Bytes} {B : Nat} {calls : List Bytes}
    {desc : VerityCore.FsVerityDescriptor (innerHash C a)}
    {tree : VerityCore.MerkleTree (innerHash C a)}
    (h : VerityCore.FsVerityDigest.run (innerHash C a) p salt B calls = some (desc, tree)) :
    FsVerityDigest.run C (ofAlgorithm a) salt B calls =
      some (ofDescriptor desc, ofTree tree) := by
  obtain ⟨digest, hnew, hrest⟩ := Option.bind_eq_some_iff.mp h
  obtain ⟨digest', hcalls, hfinal⟩ := Option.bind_eq_some_iff.mp hrest
  obtain ⟨cfg, hcfg, rfl⟩ := Option.map_eq_some_iff.mp hnew
  obtain ⟨rfl, rfl⟩ := VerityCore.FsVerityConfig.new_inv hcfg
  have hd := outputSize_innerHash C a
  have hwrites : calls.foldlM (FsVerityDigest.write C)
      (newFsVerityWithSaltAndBlockSize (ofAlgorithm a) cfg.salt cfg.blockSize) =
        some (ofDigest digest') :=
    foldlM_simulates (fun _ _ _ _ => write_simulates) hcalls
  have hle : ∀ level ∈ digest'.levels, level.remaining ≤ digest'.config.blockSize := by
    have hstate : calls.foldlM VerityCore.FsVerityDigest.update
        (VerityCore.FsVerityDigest.stateOf cfg []) = _ :=
      VerityCore.FsVerityDigest.foldlM_update_stateOf (VerityCore.FsVerityConfig.outputSize_pos hd)
        calls [] (Nat.zero_le _)
    rw [show VerityCore.FsVerityDigest.stateOf cfg [] = ⟨cfg, [], ⟨[]⟩⟩ from rfl, hcalls] at hstate
    split at hstate
    · cases hstate
      rw [VerityCore.FsVerityDigest.config_stateOf]
      exact remaining_le_blockSize _
    · cases hstate
  rw [FsVerityDigest.run, hwrites]
  show (ofDigest digest').finalize C = _
  exact finalize_simulates hle hfinal

end

/-! ## Descriptors and trees -/

section
variable {C : Crypto} {a : InnerHashAlgorithm}

theorem dataSizeToBytes_eq (desc : FsVerityDescriptor) :
    desc.dataSizeToBytes = VerityCore.toLeBytes desc.dataSize := by
  have hbyte : ∀ (n : UInt64) (k : Nat), k < 8 →
      (n >>> UInt64.ofNat (8 * k)).toUInt8 = UInt8.ofNat (n.toNat / 256 ^ k) := by
    intro n k hk
    apply UInt8.toNat_inj.mp
    have hshift : (UInt64.ofNat (8 * k)).toNat % 64 = 8 * k := by
      rw [UInt64.toNat_ofNat_of_lt' (by rw [UInt64.size]; omega)]
      omega
    rw [UInt64.toNat_toUInt8, UInt64.toNat_shiftRight, hshift, Nat.shiftRight_eq_div_pow, Nat.pow_mul]
    exact (UInt8.toNat_ofNat' ..).symm
  have hlist : desc.dataSizeToBytes =
      (List.range 8).map fun k => (desc.dataSize >>> UInt64.ofNat (8 * k)).toUInt8 := by
    rw [FsVerityDescriptor.dataSizeToBytes]
    simp [List.range_succ]
  rw [hlist, VerityCore.toLeBytes]
  exact List.map_congr_left fun k hk => hbyte _ k (List.mem_range.mp hk)

theorem hashPadded_ofWritten {written data : Bytes} {n : Nat} {padded : Bytes}
    (h : VerityCore.updatePadded written data n = some padded) :
    hashPadded (ofWritten a written) data n = ofWritten a padded := by
  obtain ⟨hle, rfl⟩ := VerityCore.updatePadded_eq_some h
  unfold hashPadded
  by_cases hlt : data.length < n
  · simp [hlt, zeros, zeroPad]
  · have hn : n - data.length = 0 := by omega
    simp [hlt, zeroPad, hn]

theorem toDescriptorHash_simulates {desc : VerityCore.FsVerityDescriptor (innerHash C a)}
    (halgo : desc.hashAlgorithm = a.toU8) {m : Output (innerHash C a)}
    (h : desc.toDescriptorHash = some m) :
    (ofDescriptor desc).toDescriptorHash C = some m.toList := by
  obtain ⟨bytes, hbytes, rfl⟩ := Option.map_eq_some_iff.mp h
  obtain ⟨salted, hsalted, hrest⟩ := Option.bind_eq_some_iff.mp hbytes
  obtain ⟨withRoot, hroot, hrest⟩ := Option.bind_eq_some_iff.mp hrest
  obtain ⟨withSalt, hsalt, hlast⟩ := Option.bind_eq_some_iff.mp hrest
  rw [VerityCore.saltToDigest_eq, Option.some.injEq] at hsalted
  rw [Option.pure_def, Option.some.injEq] at hlast
  subst hsalted
  rw [← hlast]
  have hstart : saltToDigest ⟨desc.hashAlgorithm⟩ desc.salt =
      some (ofWritten a (saltPad (innerHash C a) desc.salt)) := by
    rw [halgo]
    exact newSaltedHash_ofAlgorithm C desc.salt
  simp only [VerityCore.updateZeroes_eq] at hroot ⊢
  simp only [FsVerityDescriptor.toDescriptorHash, ofDescriptor, hstart, dataSizeToBytes_eq,
    write_ofWritten, zeros, hashPadded_ofWritten hroot, hashPadded_ofWritten hsalt, sum_ofWritten,
    Option.bind_eq_bind, Option.bind_some, Option.pure_def]

theorem equalBytes_eq (x y : Bytes) : MerkleTree.equalBytes x y = decide (x = y) := by
  unfold MerkleTree.equalBytes
  split
  · next hlen =>
    have hne : x ≠ y := fun h => hlen (congrArg List.length h)
    simp [hne]
  · next hlen =>
    rw [not_not] at hlen
    induction x generalizing y with
    | nil => cases y <;> simp at hlen ⊢
    | cons u x ih =>
      cases y with
      | nil => cases hlen
      | cons v y =>
        have := ih y (by simpa using hlen)
        simp [this]

/-- `VerifyDataBlock` and `verify_data_block`. -/
theorem verifyDataBlock_eq (tree : VerityCore.MerkleTree (innerHash C a)) (i B : Nat)
    (data : Bytes) :
    (ofTree tree).verifyDataBlock C i B data = some (tree.verifyDataBlock i B data) := by
  rw [MerkleTree.verifyDataBlock, VerityCore.MerkleTree.verifyDataBlock]
  split
  · rfl
  · next hfit =>
    have hlen : (ofTree tree).level1.length = tree.level1.length := List.length_map ..
    rw [hlen, VerityCore.updatePadded_of_le (Nat.le_of_not_lt hfit)]
    rcases Nat.lt_or_ge i tree.level1.length with hi | hi
    · have hget : (ofTree tree).level1[i]? = some tree.level1[i].toList := by
        show (tree.level1.map List.Vector.toList)[i]? = _
        rw [List.getElem?_map, List.getElem?_eq_getElem hi]
        rfl
      have halgo : (ofTree tree).algo.newHash = some (ofWritten a []) := newHash_ofAlgorithm
      have hpadded : (if data.length < B then
          ((ofWritten a []).write data).write (zeros (B - data.length))
          else (ofWritten a []).write data) = ofWritten a (zeroPad B data) := by
        split
        · simp [zeros, zeroPad]
        · next h =>
          have hzero : B - data.length = 0 := by omega
          simp [zeroPad, hzero]
      rw [if_neg (by omega), if_neg (by omega), Int.toNat_natCast, hget, halgo,
        List.getElem?_eq_getElem hi]
      simp only [Option.bind_eq_bind, Option.bind_some, hpadded, sum_ofWritten, equalBytes_eq,
        List.nil_append, Option.map_some, Option.some.injEq, List.Vector.toList_injective.eq_iff,
        Option.pure_def]
    · rw [if_pos (by omega), List.getElem?_eq_none hi]

/-- Writing nothing changes nothing, so the test whether there is padding to write does not show. -/
theorem write_padding (digest : FsVerityDigest) (n : Nat) :
    (if n > 0 then digest.write C (zeros n) else some digest) = digest.write C (zeros n) := by
  split
  · rfl
  · next h =>
    obtain rfl : n = 0 := by omega
    simp [FsVerityDigest.write, FsVerityDigest.update, zeros]

/-- `RebuildRootHash` and `rebuild_root_hash`, where the latter does not panic. -/
theorem rebuildRootHash_simulates {p : Profile} {tree : VerityCore.MerkleTree (innerHash C a)}
    {salt : Bytes} {B : Nat} {r : Output (innerHash C a)}
    (h : tree.rebuildRootHash p salt B = some r) :
    (ofTree tree).rebuildRootHash C salt B = some r.toList := by
  have hroot := VerityCore.MerkleTree.rebuildRootHash_inv (outputSize_innerHash C a) h
  obtain ⟨level1⟩ := tree
  match level1 with
  | [] =>
    rw [hroot, VerityCore.rootOf, root_nil]
    show some (zeros (ofAlgorithm a).digestSize) = _
    rw [digestSize_ofAlgorithm C]
    rfl
  | [hash] =>
    rw [hroot, VerityCore.rootOf, root_singleton]
    rfl
  | h₁ :: h₂ :: hs =>
    rw [VerityCore.MerkleTree.rebuildRootHash_eq_run (by simp)] at h
    obtain ⟨⟨desc, tree⟩, hrun, rfl⟩ := Option.map_eq_some_iff.mp h
    obtain ⟨⟨cfg, rfl, -, -⟩, -⟩ :=
      VerityCore.FsVerityDigest.run_inv (outputSize_innerHash C a) hrun
    have hB := cfg.blockSize_pos
    obtain ⟨digest, hcalls, hfinal⟩ := Option.bind_eq_some_iff.mp (run_simulates hrun)
    rw [VerityCore.rebuildCalls, List.foldlM_append] at hcalls
    obtain ⟨digest₁, hhashes, hpad⟩ := Option.bind_eq_some_iff.mp hcalls
    rw [List.foldlM_cons] at hpad
    obtain ⟨digest₂, hpad, hdone⟩ := Option.bind_eq_some_iff.mp hpad
    cases hdone
    have hzeros : (cfg.blockSize - (h₁.toList :: (h₂ :: hs).map List.Vector.toList).length *
        (ofTree (C := C) (a := a) ⟨h₁ :: h₂ :: hs⟩).algo.digestSize % cfg.blockSize) %
          cfg.blockSize = VerityCore.padding cfg.blockSize
            ((innerHash C a).outputSize * (h₁ :: h₂ :: hs).length) := by
      show (cfg.blockSize - _ * (ofAlgorithm a).digestSize % cfg.blockSize) % cfg.blockSize = _
      rw [digestSize_ofAlgorithm C, Nat.mul_comm, List.length_cons, List.length_map,
        VerityCore.padding]
      rfl
    show (List.foldlM (FsVerityDigest.write C) (newFsVerityWithSaltAndBlockSize (ofAlgorithm a)
      salt cfg.blockSize) ((h₁ :: h₂ :: hs).map List.Vector.toList)).bind _ = _
    rw [hhashes, Option.bind_some, if_neg (by omega)]
    dsimp only
    rw [hzeros, write_padding]
    show ((digest₁.write C (List.replicate _ 0)).bind _) = _
    rw [hpad, Option.bind_some, hfinal]
    rfl

/-! ## Agreement -/

/-- **The Go and Rust implementations agree.** For both hash algorithms and all parameters that the
Rust code accepts: on the same data, however it is cut into writes, the hashers return the same
descriptor fields, level-1 hashes and descriptor hash; on the same hashes, the rebuilt roots and the
verdicts on data blocks are the same. The Rust side may be built in either profile, but under `dev`
rebuilding panics where the scale of the top level overflows. -/
theorem run_agrees (C : Crypto) (a : InnerHashAlgorithm) (p : Profile) {salt : Bytes}
    (hsalt : salt.length ≤ maxSaltSize) {B : Nat} (hpow : IsPowerOfTwo B)
    (htwo : (innerHash C a).outputSize * 2 ≤ B) :
    (∀ (D : Bytes) (goCalls rustCalls : List Bytes), goCalls.flatten = D →
      rustCalls.flatten = D → D.length ≤ B * (B / (innerHash C a).outputSize) ^ 7 →
      D.length * B < 2 ^ 63 →
      ∃ desc tree goDesc goTree m,
        VerityCore.FsVerityDigest.run (innerHash C a) p salt B rustCalls = some (desc, tree) ∧
        FsVerityDigest.run C (ofAlgorithm a) salt B goCalls = some (goDesc, goTree) ∧
        goDesc.version = desc.version ∧ goDesc.hashAlgorithm.val = desc.hashAlgorithm ∧
        goDesc.logBlocksize = desc.logBlocksize ∧ goDesc.dataSize = desc.dataSize ∧
        goDesc.rootHash = desc.rootHash.toList ∧ goDesc.salt = desc.salt ∧
        goTree.level1 = tree.level1.map List.Vector.toList ∧
        desc.toDescriptorHash = some m ∧ goDesc.toDescriptorHash C = some m.toList) ∧
    ∀ hashes : List (Output (innerHash C a)),
      hashes.length ≤ (B / (innerHash C a).outputSize) ^ 8 →
      (p = .release ∨ B * (chunks (B / (innerHash C a).outputSize) hashes).length * B < 2 ^ 64 →
        ∃ r, VerityCore.MerkleTree.rebuildRootHash ⟨hashes⟩ p salt B = some r ∧
          MerkleTree.rebuildRootHash C ⟨hashes.map List.Vector.toList, ofAlgorithm a⟩ salt B =
            some r.toList) ∧
      ∀ (i : Nat) (data : Bytes),
        MerkleTree.verifyDataBlock C ⟨hashes.map List.Vector.toList, ofAlgorithm a⟩ i B data =
          some (VerityCore.MerkleTree.verifyDataBlock ⟨hashes⟩ i B data) := by
  have hd := outputSize_innerHash C a
  constructor
  · rintro D goCalls rustCalls rfl hcut hlevels hsize
    have hrun : ∀ calls : List Bytes, calls.flatten = goCalls.flatten →
        VerityCore.FsVerityDigest.run (innerHash C a) p salt B calls =
          some (VerityCore.descriptorOf (innerHash C a) salt B goCalls.flatten,
            ⟨VerityCore.merkleLevel1 (innerHash C a) salt B goCalls.flatten⟩) := by
      intro calls hcalls
      rw [← hcalls] at hlevels hsize ⊢
      exact VerityCore.FsVerityDigest.run_of_admissible hd p
        ⟨hsalt, hpow, htwo, hlevels, Nat.lt_trans hsize (by decide)⟩
    obtain ⟨m, hm⟩ := VerityCore.toDescriptorHash_descriptorOf hd hsalt B goCalls.flatten
    have halgo : (innerHash C a).innerHashAlgorithm.toU8 = a.toU8 := by cases a <;> rfl
    exact ⟨_, _, _, _, m, hrun rustCalls hcut, run_simulates (hrun goCalls rfl), rfl, rfl, rfl, rfl,
      rfl, rfl, rfl, hm, toDescriptorHash_simulates halgo hm⟩
  · intro hashes hlevels
    refine ⟨fun hsize => ?_, fun i data => verifyDataBlock_eq ⟨hashes⟩ i B data⟩
    have hrebuild := VerityCore.MerkleTree.rebuildRootHash_eq_some hd ⟨hashes⟩ hsalt hpow htwo
      hlevels hsize
    exact ⟨_, hrebuild, rebuildRootHash_simulates hrebuild⟩

/-- Hashes for examples. -/
def lengthCrypto : Crypto where
  sha256 := VerityCore.FsVerityDigest.lengthHash
  sha512 m := ⟨(UInt8.ofNat m.length :: m ++ List.replicate 64 0).take 64, by simp⟩

/-- Two blocks, cut in two ways, and three hashes. -/
theorem run_agrees_two_blocks :
    let hashes : List (Output (innerHash lengthCrypto .sha512)) :=
      [lengthCrypto.sha512 [1], lengthCrypto.sha512 [2], lengthCrypto.sha512 [3]]
    (∃ desc tree goDesc goTree,
      VerityCore.FsVerityDigest.run (innerHash lengthCrypto .sha512) .dev [9] 128
        [List.replicate 130 1] = some (desc, tree) ∧
      FsVerityDigest.run lengthCrypto (ofAlgorithm .sha512) [9] 128
        [List.replicate 100 1, [], List.replicate 30 1] = some (goDesc, goTree) ∧
      goDesc.rootHash = desc.rootHash.toList) ∧
    ∃ r, VerityCore.MerkleTree.rebuildRootHash ⟨hashes⟩ .dev [9] 128 = some r ∧
      MerkleTree.rebuildRootHash lengthCrypto ⟨hashes.map List.Vector.toList, ofAlgorithm .sha512⟩
        [9] 128 = some r.toList := by
  intro hashes
  have hsalt : ([9] : Bytes).length ≤ maxSaltSize := by decide
  have hpow : IsPowerOfTwo 128 := by decide
  obtain ⟨hruns, hhashes⟩ := run_agrees lengthCrypto .sha512 .dev hsalt hpow (by decide)
  obtain ⟨desc, tree, goDesc, goTree, -, hrust, hgo, -, -, -, -, hroot, -⟩ :=
    hruns (List.replicate 130 1) [List.replicate 100 1, [], List.replicate 30 1]
      [List.replicate 130 1] rfl rfl (by decide +kernel) (by decide +kernel)
  exact ⟨⟨desc, tree, goDesc, goTree, hrust, hgo, hroot⟩,
    (hhashes hashes (by decide)).1 (.inr (by decide))⟩

end

end CryptPilot.VerityGo
