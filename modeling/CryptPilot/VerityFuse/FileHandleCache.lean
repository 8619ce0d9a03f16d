import CryptPilot.Data.Lru
import CryptPilot.VerityCore.Config

/-!
# Reading blocks from untrusted storage

`file_handle_cache.rs`: reading a whole block with `pread`, the pool of open file handles, and the
cache of verified blocks.

The storage is a state machine that answers system calls as it likes: it may change content and
length at any time, also between two `pread`s of one block. All that is assumed of it is what the
kernel guarantees, that `pread` does not return more than was asked for. `Honest` is the special
case of a storage whose files stay as they are.

`pread` is repeated as long as it is interrupted, so the loop need not end. It is modelled with a
bound on the number of calls; a result of `none` means that a call does not return.
-/

namespace CryptPilot.VerityFuse

open CryptPilot.Data CryptPilot.VerityCore

/-- Error numbers, as `libc` has them. -/
abbrev Errno := Nat

def ENOENT : Errno := 2
def EINTR : Errno := 4
def EIO : Errno := 5
def ENOTDIR : Errno := 20
def EISDIR : Errno := 21
def EINVAL : Errno := 22
def EOPNOTSUPP : Errno := 95

/-- A `RelativePath` as its components, which is how it is compared and hashed. -/
abbrev RelativePath := List String

/-- Files below the source directory: how the storage, in state `σ`, answers `open` and `pread`.
`η` are its file descriptors. -/
structure Storage (σ η : Type) where
  openFile : σ → RelativePath → Except Errno η × σ
  pread : σ → η → Nat → Int → Except Errno Bytes × σ
  pread_le : ∀ s fd len offset data s',
    pread s fd len offset = (.ok data, s') → data.length ≤ len

variable {σ η : Type}

/-! ## File handles -/

/-- `offset as libc::off_t`. -/
def toOffT (offset : Nat) : Int := if offset < 2 ^ 63 then offset else (offset : Int) - 2 ^ 64

theorem toOffT_of_lt {offset : Nat} (h : offset < 2 ^ 63) : toOffT offset = offset := if_pos h

namespace Storage

/-- `FileHandle::pread_all`: `buf` is what has been read so far, `size` the size of the buffer. -/
def preadAll (S : Storage σ η) (fd : η) (size : Nat) :
    Nat → Bytes → Nat → σ → Option (Except Errno Bytes × σ)
  | 0, buf, _, s => if buf.length < size then none else some (.ok buf, s)
  | fuel + 1, buf, offset, s =>
    if buf.length < size then
      match S.pread s fd (size - buf.length) (toOffT offset) with
      | (.error e, s) =>
        if e = EINTR then S.preadAll fd size fuel buf offset s
        else some (.error e, s)
      | (.ok data, s) =>
        -- nothing read: end of file
        if data = [] then some (.ok buf, s)
        else S.preadAll fd size fuel (buf ++ data) (offset + data.length) s
    else some (.ok buf, s)

/-- `FileHandle::pread_file_data`. -/
def preadFileData (S : Storage σ η) (fuel : Nat) (fd : η) (offset size : Nat) (s : σ) :
    Option (Except Errno Bytes × σ) :=
  S.preadAll fd size fuel [] offset s

end Storage

/-! ## The caches -/

/-- `BlockKey`. -/
structure BlockKey where
  ino : Nat
  blockIndex : Nat
  deriving DecidableEq

/-- `NonZeroUsize::new(capacity).unwrap_or(NonZeroUsize::MIN)`, for both caches. -/
def withCapacity {κ ν : Type} (capacity : Nat) : Lru κ ν := Lru.new (max capacity 1) (by omega)

abbrev BlockCache := Lru BlockKey Bytes
abbrev FileHandlePool (η : Type) := Lru Nat η

def defaultHandleCacheSize : Nat := 1024

/-- `FileHandlePool::get_or_open`. -/
def FileHandlePool.getOrOpen (self : FileHandlePool η) (ino : Nat)
    (opener : σ → Except Errno η × σ) (s : σ) : Except Errno η × FileHandlePool η × σ :=
  match self.get ino with
  | (some cached, pool) => (.ok cached, pool, s)
  | (none, pool) =>
    match opener s with
    | (.error e, s) => (.error e, pool, s)
    | (.ok file, s) => (.ok file, pool.put ino file, s)

/-! ## Storage that does not change -/

/-- The kernel takes a read only if neither its start nor its end, whether or not the file goes that
far, is past the largest offset there is. -/
def InRange (offset : Int) (len : Nat) : Prop := 0 ≤ offset ∧ offset + len < 2 ^ 63

instance (offset : Int) (len : Nat) : Decidable (InRange offset len) :=
  inferInstanceAs (Decidable (_ ∧ _))

/-- Storage whose files are `F`, for the length of a run: `open` succeeds for the files in `F`, and
`pread` returns any non-empty part of what is asked for, or nothing at the end of the file. Calls
may be interrupted, but `budget` bounds how often. -/
structure Honest (S : Storage σ η) (F : RelativePath → Option Bytes) where
  content : η → Bytes
  budget : σ → Nat
  open_budget : ∀ s path, budget (S.openFile s path).2 ≤ budget s
  open_some : ∀ s path D, F path = some D →
    ∃ fd, (S.openFile s path).1 = .ok fd ∧ content fd = D
  open_none : ∀ s path, F path = none → ∃ e, (S.openFile s path).1 = .error e
  pread_invalid : ∀ s fd len offset answer s', ¬InRange offset len →
    S.pread s fd len offset = (answer, s') → answer = .error EINVAL ∧ budget s' ≤ budget s
  pread_valid : ∀ s fd len (offset : Nat) answer s', 0 < len → InRange offset len →
    S.pread s fd len offset = (answer, s') →
    (answer = .error EINTR ∧ budget s' < budget s) ∨
      ∃ data, answer = .ok data ∧ budget s' ≤ budget s ∧
        data <+: (content fd).drop offset ∧ (data = [] → (content fd).length ≤ offset)

/-- Files in memory. -/
def memoryStorage (F : RelativePath → Option Bytes) : Storage Unit Bytes where
  openFile s path := match F path with
    | some D => (.ok D, s)
    | none => (.error ENOENT, s)
  pread s D len offset :=
    if InRange offset len then (.ok ((D.drop offset.toNat).take len), s) else (.error EINVAL, s)
  pread_le s D len offset data s' h := by
    split at h
    · cases h
      exact List.length_take_le _ _
    · cases h

def memoryStorageHonest (F : RelativePath → Option Bytes) : Honest (memoryStorage F) F where
  content D := D
  budget _ := 0
  open_budget _ _ := Nat.le_refl _
  open_some s path D h := ⟨D, by simp [memoryStorage, h], rfl⟩
  open_none s path h := ⟨ENOENT, by simp [memoryStorage, h]⟩
  pread_invalid s D len offset answer s' h heq := by
    simp only [memoryStorage, if_neg h, Prod.mk.injEq] at heq
    exact ⟨heq.1.symm, Nat.le_refl _⟩
  pread_valid s D len offset answer s' hpos h heq := by
    simp only [memoryStorage, if_pos h, Int.toNat_natCast, Prod.mk.injEq] at heq
    refine Or.inr ⟨(D.drop offset).take len, heq.1.symm, Nat.le_refl _, List.take_prefix _ _, ?_⟩
    intro hnil
    have hlen := congrArg List.length hnil
    rw [List.length_take, List.length_drop, List.length_nil] at hlen
    omega

namespace Honest

variable {S : Storage σ η} {F : RelativePath → Option Bytes}

/-- Reading on from `offset` fills the buffer with what the file has there. The end of what is asked
for is the same in every call. -/
theorem preadAll_eq (hon : Honest S F) (fd : η) (size : Nat) : ∀ (fuel : Nat) (buf : Bytes)
    (offset : Nat) (s : σ), offset + (size - buf.length) < 2 ^ 63 →
    size - buf.length + hon.budget s < fuel →
    ∃ s', S.preadAll fd size fuel buf offset s =
        some (.ok (buf ++ ((hon.content fd).drop offset).take (size - buf.length)), s') ∧
      hon.budget s' ≤ hon.budget s := by
  intro fuel
  induction fuel with
  | zero => intro _ _ _ _ hfuel; omega
  | succ fuel ih =>
    intro buf offset s hend hfuel
    unfold Storage.preadAll
    by_cases hfull : buf.length < size
    · rw [if_pos hfull, toOffT_of_lt (by omega)]
      obtain ⟨answer, s₁, hans⟩ : ∃ answer s₁,
          S.pread s fd (size - buf.length) (offset : Int) = (answer, s₁) := ⟨_, _, rfl⟩
      rw [hans]
      rcases hon.pread_valid _ _ _ _ _ _ (by omega) ⟨by omega, by omega⟩ hans with
        ⟨rfl, hbudget⟩ | ⟨data, rfl, hbudget, hpre, heof⟩
      · -- interrupted: the same call again
        obtain ⟨s', hs', hle⟩ := ih buf offset s₁ hend (by omega)
        exact ⟨s', by simpa using hs', by omega⟩
      · have hlen := S.pread_le _ _ _ _ _ _ hans
        dsimp only
        by_cases hdata : data = []
        · -- end of file
          refine ⟨s₁, ?_, hbudget⟩
          rw [List.drop_eq_nil_of_le (heof hdata)]
          simp [hdata]
        · obtain ⟨rest, hrest⟩ := hpre
          have hpos := List.length_pos_of_ne_nil hdata
          obtain ⟨s', hs', hle⟩ := ih (buf ++ data) (offset + data.length) s₁
            (by rw [List.length_append]; omega) (by rw [List.length_append]; omega)
          refine ⟨s', ?_, by omega⟩
          rw [if_neg hdata, hs', List.length_append, List.append_assoc, ← hrest, ← List.drop_drop, ← hrest,
            List.drop_left, List.take_append, Nat.sub_sub, List.take_of_length_le hlen]
    · rw [if_neg hfull, Nat.sub_eq_zero_of_le (by omega), List.take_zero, List.append_nil]
      exact ⟨s, rfl, Nat.le_refl _⟩

theorem preadFileData_eq (hon : Honest S F) (fd : η) {fuel offset size : Nat} {s : σ}
    (hend : offset + size < 2 ^ 63) (hfuel : size + hon.budget s < fuel) :
    ∃ s', S.preadFileData fuel fd offset size s =
        some (.ok (((hon.content fd).drop offset).take size), s') ∧
      hon.budget s' ≤ hon.budget s :=
  hon.preadAll_eq fd size fuel [] offset s hend hfuel

/-- A read that would end past the largest offset is refused, also where the offset itself is cut to
a negative one. -/
theorem preadFileData_invalid (hon : Honest S F) (fd : η) {fuel offset size : Nat} {s : σ}
    (hend : 2 ^ 63 ≤ offset + size) (hoff : offset < 2 ^ 64) (hsize : 0 < size) (hfuel : 0 < fuel) :
    ∃ s', S.preadFileData fuel fd offset size s = some (.error EINVAL, s') ∧
      hon.budget s' ≤ hon.budget s := by
  obtain ⟨fuel, rfl⟩ : ∃ k, fuel = k + 1 := ⟨fuel - 1, by omega⟩
  have hinvalid : ¬InRange (toOffT offset) size := by
    rintro ⟨hnonneg, hlt⟩
    unfold toOffT at hnonneg hlt
    split at hnonneg
    · omega
    · omega
  obtain ⟨answer, s₁, hans⟩ : ∃ answer s₁,
      S.pread s fd size (toOffT offset) = (answer, s₁) := ⟨_, _, rfl⟩
  obtain ⟨rfl, hbudget⟩ := hon.pread_invalid _ _ _ _ _ _ hinvalid hans
  refine ⟨s₁, ?_, hbudget⟩
  simp [Storage.preadFileData, Storage.preadAll, hsize, hans, EINVAL, EINTR]

end Honest

end CryptPilot.VerityFuse
