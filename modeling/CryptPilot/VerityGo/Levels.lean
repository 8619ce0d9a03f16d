import CryptPilot.VerityGo.Simulation

/-!
# The Go hasher beyond eight levels

The Rust hasher panics where a ninth level would be needed. The Go hasher has no limit: it goes on as
before, so for every input the result is the descriptor and the level-1 hashes of the reference
(`run_eq`). Only the root hash can be told apart from a real one by its level.
-/

namespace CryptPilot.VerityGo

open CryptPilot.Data
open CryptPilot.VerityCore (Bytes InnerHash InnerHashAlgorithm Output Profile IsPowerOfTwo
  maxSaltSize)
open CryptPilot.VerityCore.FsVerityDigest (stateOf Split)

variable {C : Crypto} {a : InnerHashAlgorithm} {cfg : VerityCore.FsVerityConfig (innerHash C a)}

/-- A chunk that closes the last block: a new top level is made whenever a digest is left over. -/
theorem updateChunk_closes {D pre last x y : Bytes} (hs : Split cfg.blockSize D pre last)
    (hfull : last.length + x.length = cfg.blockSize)
    (hs' : Split cfg.blockSize (D ++ (x ++ y)) (pre ++ (last ++ x)) y) :
    (ofDigest (stateOf cfg D)).updateChunk C (x ++ y) =
      some (ofDigest (stateOf cfg (D ++ (x ++ y)))) := by
  have hpos := VerityCore.FsVerityConfig.outputSize_pos (outputSize_innerHash C a)
  obtain ⟨gs, rest, hrun, -, hres⟩ :=
    VerityCore.FsVerityDigest.updateLevels_closes hpos hs hfull hs'
  have hgo := updateLevels_simulates hrun
  have hconfig : (ofDigest (stateOf cfg D)).config = ⟨cfg.blockSize, cfg.salt, ofAlgorithm a⟩ := by
    rw [ofDigest, VerityCore.FsVerityDigest.config_stateOf]
  have hlevels : (ofDigest (stateOf cfg D)).levels = (stateOf cfg D).levels.map (ofBlock cfg) := by
    rw [ofDigest, VerityCore.FsVerityDigest.config_stateOf]
  rw [FsVerityDigest.updateChunk, hconfig, hlevels, hs'.stateOf_eq]
  show (FsVerityDigest.updateLevels C (ofAlgorithm a).digestSize 0 false (x ++ y)
    (ofTree (stateOf cfg D).merkleTree) _).bind _ = _
  rw [hgo, Option.bind_some]
  rcases hres with ⟨rfl, hf⟩ | ⟨hash, rfl, hf⟩
  · rw [hf]
    rfl
  · have hne := VerityCore.FsVerityDigest.toList_output_ne_nil hpos hash
    have hnew : (ofBlock cfg (VerityCore.FixedSizeBlock.new cfg)).append hash.toList =
        ofBlock cfg (VerityCore.FsVerityDigest.groupBlock cfg [hash]) :=
      append_ofBlock (VerityCore.FsVerityDigest.append_new_digest hash)
    dsimp only
    rw [if_pos (List.length_pos_of_ne_nil hne), newFixedSizeBlock_ofBlock, Option.bind_eq_bind,
      Option.bind_some, hnew, hf]
    simp [ofDigest]

theorem updateChunk_stateOf {D x : Bytes} (hx : x ≠ []) (hxle : x.length ≤ cfg.blockSize) :
    (ofDigest (stateOf cfg D)).updateChunk C x = some (ofDigest (stateOf cfg (D ++ x))) := by
  have hpos := VerityCore.FsVerityConfig.outputSize_pos (outputSize_innerHash C a)
  rcases VerityCore.FsVerityDigest.chunk_cases cfg.blockSize_pos D hx hxle with
    rfl | ⟨pre, last, hs, hs'⟩ | ⟨pre, last, y, z, rfl, hs, hfull, hs'⟩
  · exact updateChunk_simulates (VerityCore.FsVerityDigest.updateChunk_first hpos hx hxle).2
  · exact updateChunk_simulates (VerityCore.FsVerityDigest.updateChunk_fits hs hs')
  · exact updateChunk_closes hs hfull hs'

theorem write_stateOf (D data : Bytes) :
    (ofDigest (stateOf cfg D)).write C data = some (ofDigest (stateOf cfg (D ++ data))) := by
  have hB := cfg.blockSize_pos
  have hsize : (ofDigest (stateOf cfg D)).config.blockSize = cfg.blockSize := by
    rw [ofDigest, VerityCore.FsVerityDigest.config_stateOf]
  rw [FsVerityDigest.write, FsVerityDigest.update, hsize, if_neg (by omega)]
  clear hsize
  induction data using chunks_induction hB generalizing D with
  | nil => simp
  | step data h ih =>
    have htake : data.take cfg.blockSize ≠ [] := by
      intro hnil
      have hlen := congrArg List.length hnil
      have hpos := List.length_pos_of_ne_nil h
      rw [List.length_take, List.length_nil] at hlen
      omega
    have hsplit : D ++ data = D ++ data.take cfg.blockSize ++ data.drop cfg.blockSize := by
      rw [List.append_assoc, List.take_append_drop]
    rw [chunks_of_ne_nil hB h, List.foldlM_cons,
      updateChunk_stateOf htake (List.length_take_le _ _), hsplit]
    exact ih _

/-- **Every run of the Go hasher returns the reference values**, however long its input. -/
theorem run_eq {salt : Bytes} (hsalt : salt.length ≤ maxSaltSize) {B : Nat} (hpow : IsPowerOfTwo B)
    (htwo : (innerHash C a).outputSize * 2 ≤ B) (calls : List Bytes) :
    FsVerityDigest.run C (ofAlgorithm a) salt B calls =
      some (ofDescriptor (VerityCore.descriptorOf (innerHash C a) salt B calls.flatten),
        ofTree ⟨VerityCore.merkleLevel1 (innerHash C a) salt B calls.flatten⟩) := by
  have hd := outputSize_innerHash C a
  have hout : (innerHash C a).outputSize ≤ VerityCore.maxDigestSize := by
    rcases hd with h | h <;> rw [h] <;> decide
  obtain ⟨cfg, -, rfl, rfl⟩ := VerityCore.FsVerityConfig.new_eq_some hsalt hpow htwo hout
  have hwrites : ∀ (calls : List Bytes) (D : Bytes),
      calls.foldlM (FsVerityDigest.write C) (ofDigest (stateOf cfg D)) =
        some (ofDigest (stateOf cfg (D ++ calls.flatten))) := by
    intro calls
    induction calls with
    | nil => intro D; simp
    | cons data calls ih =>
      intro D
      rw [List.foldlM_cons, write_stateOf, List.flatten_cons, ← List.append_assoc]
      exact ih _
  have hempty : newFsVerityWithSaltAndBlockSize (ofAlgorithm a) cfg.salt cfg.blockSize =
      ofDigest (stateOf cfg []) := rfl
  rw [FsVerityDigest.run, hempty, hwrites, List.nil_append]
  obtain ⟨⟨desc, tree⟩, hfinal⟩ : ∃ result,
      (stateOf cfg calls.flatten).finalizeIntoFsVerityStuffs .release = some result :=
    VerityCore.FsVerityDigest.finalize_release (VerityCore.FsVerityConfig.outputSize_pos hd)
      calls.flatten
  have hle : ∀ level ∈ (stateOf cfg calls.flatten).levels,
      level.remaining ≤ (stateOf cfg calls.flatten).config.blockSize := by
    rw [VerityCore.FsVerityDigest.config_stateOf]
    exact remaining_le_blockSize _
  obtain ⟨rfl, rfl⟩ := Prod.mk.inj (VerityCore.FsVerityDigest.finalize_inv hd hfinal)
  exact finalize_simulates hle hfinal

end CryptPilot.VerityGo
