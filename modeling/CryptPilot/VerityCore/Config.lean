import CryptPilot.Data.Chunks
import Mathlib.Data.Vector.Basic

/-!
# Parameters of the fs-verity hasher

Constants, the inner hash, and the machine arithmetic of `verity-core`.

The inner hash is a parameter: `InnerHash` holds an arbitrary function from byte strings to digests
of a fixed size. A digest in progress is the string of bytes fed to it so far, which is all that
`update` and `finalize` of a hash can depend on.

Code that panics is modelled in `Option`, with `none` for the panic.
-/

namespace CryptPilot.VerityCore

abbrev Bytes := List UInt8

def maxDigestSize : Nat := 64
def maxSaltSize : Nat := 32
def maxLevels : Nat := 8
def defaultBlockSize : Nat := 4096

/-- `InnerHashAlgorithm`; `toU8` is the numbering of the kernel API. -/
inductive InnerHashAlgorithm where
  | sha256
  | sha512
  deriving DecidableEq, Repr

def InnerHashAlgorithm.toU8 : InnerHashAlgorithm → UInt8
  | .sha256 => 1
  | .sha512 => 2

/-- The trait `InnerHash`: a hash function with its output size, the size of its own input blocks,
and its number in the descriptor. -/
structure InnerHash where
  innerHashAlgorithm : InnerHashAlgorithm
  outputSize : Nat
  blockSize : Nat
  finalize : Bytes → List.Vector UInt8 outputSize
  blockSize_pos : 0 < blockSize

/-- `digest::Output<D>`: exactly `outputSize` bytes. -/
abbrev Output (H : InnerHash) := List.Vector UInt8 H.outputSize

/-- `Sha256` around an arbitrary function with 32-byte digests. -/
def sha256 (h : Bytes → List.Vector UInt8 32) : InnerHash :=
  ⟨.sha256, 32, 64, h, by decide⟩

/-- `Sha512` around an arbitrary function with 64-byte digests. -/
def sha512 (h : Bytes → List.Vector UInt8 64) : InnerHash :=
  ⟨.sha512, 64, 128, h, by decide⟩

/-- The digest sizes for which the hasher is correct. -/
theorem outputSize_sha256 (h : Bytes → List.Vector UInt8 32) :
    (sha256 h).outputSize = 32 ∨ (sha256 h).outputSize = 64 :=
  Or.inl rfl

/-! ## `usize` arithmetic

The repository is built in both Cargo profiles. They differ in one respect that matters here: an
arithmetic overflow panics under `dev` and wraps under `release`. -/

inductive Profile where
  | dev
  | release
  deriving DecidableEq, Repr

/-- The `usize` result of a sum or a product whose exact value is `n`. -/
def Profile.usize (p : Profile) (n : Nat) : Option Nat :=
  if n < 2 ^ 64 then some n
  else match p with
    | .dev => none
    | .release => some (n % 2 ^ 64)

/-- `a - b` on `usize`. -/
def Profile.usizeSub (p : Profile) (a b : Nat) : Option Nat :=
  if b ≤ a then some (a - b)
  else match p with
    | .dev => none
    | .release => some (a + 2 ^ 64 - b)

/-- `1 << n` on `usize`. A shift by 64 or more panics under `dev`; under `release` only the low six
bits of the amount count. -/
def Profile.usizeShl (p : Profile) (n : Nat) : Option Nat :=
  if n < 64 then some (2 ^ n)
  else match p with
    | .dev => none
    | .release => some (2 ^ (n % 64))

theorem Profile.usize_of_lt (p : Profile) {n : Nat} (h : n < 2 ^ 64) : p.usize n = some n :=
  if_pos h

theorem Profile.usizeSub_of_le (p : Profile) {a b : Nat} (h : b ≤ a) :
    p.usizeSub a b = some (a - b) :=
  if_pos h

theorem Profile.usizeShl_of_lt (p : Profile) {n : Nat} (h : n < 64) :
    p.usizeShl n = some (2 ^ n) :=
  if_pos h

/-- Under `release` nothing overflows. -/
theorem Profile.usize_release (n : Nat) : Profile.release.usize n = some (n % 2 ^ 64) := by
  unfold Profile.usize
  split
  · next h => rw [Nat.mod_eq_of_lt h]
  · rfl

theorem Profile.usizeSub_release (a b : Nat) : ∃ r, Profile.release.usizeSub a b = some r := by
  unfold Profile.usizeSub
  split <;> exact ⟨_, rfl⟩

/-- `usize::is_power_of_two`. -/
def IsPowerOfTwo (n : Nat) : Prop := ∃ k, k < 64 ∧ n = 2 ^ k

instance (n : Nat) : Decidable (IsPowerOfTwo n) :=
  inferInstanceAs (Decidable (∃ k, k < 64 ∧ n = 2 ^ k))

/-- `usize::trailing_zeros`, scanning the 64 bits from the lowest. -/
def trailingZerosAux : Nat → Nat → Nat
  | 0, _ => 0
  | bits + 1, n => if n % 2 = 1 then 0 else trailingZerosAux bits (n / 2) + 1

def trailingZeros (n : Nat) : Nat := trailingZerosAux 64 n

theorem trailingZerosAux_two_pow : ∀ {bits k : Nat}, k < bits →
    trailingZerosAux bits (2 ^ k) = k
  | 0, _, h => absurd h (Nat.not_lt_zero _)
  | bits + 1, 0, _ => by simp [trailingZerosAux]
  | bits + 1, k + 1, h => by
    have heven : 2 ^ (k + 1) % 2 ≠ 1 := by rw [Nat.pow_succ]; omega
    have hhalf : 2 ^ (k + 1) / 2 = 2 ^ k := by rw [Nat.pow_succ]; omega
    rw [trailingZerosAux, if_neg heven, hhalf, trailingZerosAux_two_pow (by omega)]

theorem trailingZeros_two_pow {k : Nat} (h : k < 64) : trailingZeros (2 ^ k) = k :=
  trailingZerosAux_two_pow h

/-! ## Feeding a digest -/

/-- `ZEROES`. -/
def zeroes : Bytes := List.replicate 128 0

/-- `InnerHash::update_zeroes`: the remainder first, then whole runs of `ZEROES`. -/
def updateZeroes (s : Bytes) (amount : Nat) : Bytes :=
  let quotient := amount / zeroes.length
  let remainder := amount % zeroes.length
  let s := if remainder ≠ 0 then s ++ zeroes.take remainder else s
  (fun s => s ++ zeroes)^[quotient] s

/-- `InnerHash::update_padded`; panics when the data is longer than the padded size. -/
def updatePadded (s data : Bytes) (paddedSize : Nat) : Option Bytes :=
  if data.length ≤ paddedSize then some (updateZeroes (s ++ data) (paddedSize - data.length))
  else none

/-- `data`, filled up with zero bytes to length `n`. -/
def zeroPad (n : Nat) (data : Bytes) : Bytes := data ++ List.replicate (n - data.length) 0

theorem iterate_append_zeroes (k : Nat) (s : Bytes) :
    (fun s => s ++ zeroes)^[k] s = s ++ List.replicate (128 * k) 0 := by
  induction k generalizing s with
  | zero => simp
  | succ k ih =>
    rw [Function.iterate_succ_apply, ih, List.append_assoc, zeroes, List.replicate_append_replicate,
      Nat.mul_succ, Nat.add_comm]

theorem updateZeroes_eq (s : Bytes) (amount : Nat) :
    updateZeroes s amount = s ++ List.replicate amount 0 := by
  have hlen : zeroes.length = 128 := List.length_replicate
  have hmod := Nat.mod_lt amount (by omega : 0 < 128)
  have htake : (if amount % 128 ≠ 0 then s ++ zeroes.take (amount % 128) else s) =
      s ++ List.replicate (amount % 128) 0 := by
    split
    · rw [zeroes, List.take_replicate, Nat.min_eq_left (by omega)]
    · next h => rw [not_not.mp h]; simp
  show (fun s => s ++ zeroes)^[amount / zeroes.length]
    (if amount % zeroes.length ≠ 0 then s ++ zeroes.take (amount % zeroes.length) else s) = _
  rw [hlen, htake, iterate_append_zeroes, List.append_assoc, List.replicate_append_replicate,
    Nat.mod_add_div]

theorem updatePadded_of_le {s data : Bytes} {n : Nat} (h : data.length ≤ n) :
    updatePadded s data n = some (s ++ zeroPad n data) := by
  rw [updatePadded, if_pos h, updateZeroes_eq, zeroPad, List.append_assoc]

theorem updatePadded_eq_some {s data r : Bytes} {n : Nat} (h : updatePadded s data n = some r) :
    data.length ≤ n ∧ r = s ++ zeroPad n data := by
  by_cases hle : data.length ≤ n
  · rw [updatePadded_of_le hle] at h
    exact ⟨hle, (Option.some.inj h).symm⟩
  · rw [updatePadded, if_neg hle] at h
    cases h

theorem length_zeroPad {n : Nat} {data : Bytes} (h : data.length ≤ n) :
    (zeroPad n data).length = n := by
  rw [zeroPad, List.length_append, List.length_replicate]; omega

/-- Equally long strings are told apart after padding. -/
theorem zeroPad_inj {n : Nat} {a b : Bytes} (hlen : a.length = b.length)
    (h : zeroPad n a = zeroPad n b) : a = b :=
  (List.append_inj h hlen).1

end CryptPilot.VerityCore
