import CryptPilot.VerityFuse.ReadSound

/-!
# The cached read path refines a plain one

Here the storage does not change (`Honest`), but it need not hold what was measured. `plainRead` is a
reader without caches and handles: it fails if a block of the range does not verify, and otherwise
returns the part of the file that was asked for.

Along every run of requests on files with different inode numbers, a cached block is the block of the
file it is filed under, and a pooled handle belongs to its file (`Coherent`). So every request is
answered as the plain reader answers it (`run_refines`), and this determines which requests succeed
on an untampered file (`readFile_genuine_iff`).

Blocks are read whole, so a request can be refused that itself ends before the largest offset of the
kernel: what counts is where its last block ends.
-/

namespace CryptPilot.VerityFuse

open CryptPilot.Data CryptPilot.VerityCore

variable {σ η : Type}

/-- The indices of the blocks that overlap a range. -/
def blockRange (blockSize offset size : Nat) : List Nat :=
  List.range' (offset / blockSize) (divCeil (offset + size) blockSize - offset / blockSize)

/-- A reader of the bytes `F` without a cache. -/
def plainRead (file : VerifiableFile) (blockSize : Nat) (F : Bytes) (offset size : Nat) :
    Except Errno Bytes :=
  if ∀ i ∈ blockRange blockSize offset size,
      file.verifyDataBlock i (dataBlock blockSize F i) = some (.ok ()) then
    .ok (slice offset (offset + size) F)
  else .error EIO

/-- The error for a range whose last block ends past the largest offset. The blocks before it are
verified first. -/
def plainReadPast (file : VerifiableFile) (blockSize : Nat) (F : Bytes) (offset size : Nat) : Errno :=
  if ∀ i ∈ blockRange blockSize offset size, i * blockSize + blockSize < 2 ^ 63 →
      file.verifyDataBlock i (dataBlock blockSize F i) = some (.ok ()) then
    EINVAL
  else EIO

/-- The last block of a range. -/
theorem last_mem_blockRange (lo : Nat) {B size : Nat} (hB : 0 < B) (hsize : 0 < size) :
    divCeil (lo + size) B - 1 ∈ blockRange B lo size ∧ 0 < divCeil (lo + size) B := by
  have hstart : lo / B < divCeil (lo + size) B := by
    rw [VerityFS.lt_divCeil_iff hB]
    exact Nat.lt_of_le_of_lt (Nat.div_mul_le_self lo B) (by omega)
  refine ⟨?_, Nat.lt_of_le_of_lt (Nat.zero_le _) hstart⟩
  rw [blockRange, List.mem_range'_1, Nat.add_sub_of_le (Nat.le_of_lt hstart)]
  exact ⟨Nat.le_sub_one_of_lt hstart, Nat.sub_one_lt_of_lt hstart⟩

theorem lt_divCeil_of_mem_blockRange {B lo size i : Nat} (hi : i ∈ blockRange B lo size) :
    i < divCeil (lo + size) B := by
  obtain ⟨hge, hlt⟩ := List.mem_range'_1.mp hi
  omega

/-- The blocks of a range all start before `n` if and only if the range ends within the last block
that does. -/
theorem blockRange_lt_iff (lo n : Nat) {B size : Nat} (hB : 0 < B) (hsize : 0 < size) :
    (∀ i ∈ blockRange B lo size, i * B < n) ↔ lo + size ≤ B * divCeil n B := by
  constructor
  · intro hall
    obtain ⟨hmem, hpos⟩ := last_mem_blockRange lo hB hsize
    have hle : divCeil (lo + size) B ≤ divCeil n B := by
      have := (VerityFS.lt_divCeil_iff hB).mpr (hall _ hmem)
      omega
    calc lo + size ≤ divCeil (lo + size) B * B := VerityFS.le_divCeil_mul hB _
      _ ≤ divCeil n B * B := Nat.mul_le_mul_right B hle
      _ = B * divCeil n B := Nat.mul_comm _ _
  · intro hend i hi
    have hover := VerityFS.overlap hB (by omega : lo < lo + size) hi
    rw [← VerityFS.lt_divCeil_iff hB]
    have hlt : B * i < B * divCeil n B := by
      rw [Nat.mul_comm B i]
      omega
    exact Nat.lt_of_mul_lt_mul_left hlt

/-- The blocks of a range all end before `n` if and only if the last one does. -/
theorem blockRange_end_lt_iff (lo n : Nat) {B size : Nat} (hB : 0 < B) (hsize : 0 < size) :
    (∀ i ∈ blockRange B lo size, i * B + B < n) ↔ B * divCeil (lo + size) B < n := by
  rw [Nat.mul_comm]
  constructor
  · intro hall
    obtain ⟨hmem, hpos⟩ := last_mem_blockRange lo hB hsize
    have hlast := hall _ hmem
    rwa [← Nat.succ_mul, Nat.succ_eq_add_one, Nat.sub_add_cancel hpos] at hlast
  · intro hend i hi
    have := Nat.mul_le_mul_right B (lt_divCeil_of_mem_blockRange hi)
    rw [Nat.succ_mul] at this
    omega

/-- A range goes upwards. -/
theorem mem_before_of_lt {B lo size i j : Nat} {before after : List Nat}
    (hrange : blockRange B lo size = before ++ i :: after) (hj : j ∈ blockRange B lo size)
    (hlt : j < i) : j ∈ before := by
  have hsorted : (blockRange B lo size).Pairwise (· < ·) := List.pairwise_lt_range'
  rw [hrange] at hj hsorted
  rcases List.mem_append.mp hj with hj | hj
  · exact hj
  · have hafter := (List.pairwise_append.mp hsorted).2.1
    rcases List.mem_cons.mp hj with rfl | hj
    · omega
    · have := List.rel_of_pairwise_cons hafter hj
      omega

/-- A set of files with different inode numbers, and with block sizes of at most a gigabyte.
Verification of a block may be any function that returns. -/
structure FileTable where
  files : Set VerifiableFile
  blockSize : VerifiableFile → Nat
  ino_inj : ∀ f ∈ files, ∀ g ∈ files, f.ino = g.ino → f = g
  blockSize_eq : ∀ f ∈ files, f.blockSize = some (some (blockSize f))
  blockSize_pos : ∀ f ∈ files, 0 < blockSize f
  blockSize_le : ∀ f ∈ files, blockSize f ≤ 2 ^ 30
  verify_total : ∀ f ∈ files, ∀ i data, ∃ r, f.verifyDataBlock i data = some r

namespace VerityFS

variable {S : Storage σ η} {F : RelativePath → Option Bytes} {fuel : Nat}

/-! ## Coherence -/

/-- `v` is the block filed under `key`: it is a block of that file, and was verified. -/
structure Filed (tbl : FileTable) (F : RelativePath → Option Bytes) (key : BlockKey) (v : Bytes) :
    Prop where
  verified : ∃ f ∈ tbl.files, f.ino = key.ino ∧
    f.verifyDataBlock key.blockIndex v = some (.ok ()) ∧
    key.blockIndex * tbl.blockSize f + tbl.blockSize f < 2 ^ 63 ∧
    ∃ D, F f.path = some D ∧ v = dataBlock (tbl.blockSize f) D key.blockIndex

/-- Blocks and handles belong to the files they are filed under, and there is enough fuel for all
interruptions that are still to come. -/
structure Coherent (hon : Honest S F) (tbl : FileTable) (fuel : Nat) (fs : VerityFS σ η) :
    Prop where
  blocks : Inv (Filed tbl F) fs
  handles : ∀ e ∈ fs.handleCache.entries, ∀ f ∈ tbl.files, f.ino = e.1 →
    F f.path = some (hon.content e.2)
  fuel_lt : 2 ^ 30 + hon.budget fs.storage < fuel

variable {hon : Honest S F} {tbl : FileTable} {file : VerifiableFile}

theorem coherent_new {s : σ} (hfuel : 2 ^ 30 + hon.budget s < fuel) (blockCap handleCap : Nat) :
    Coherent hon tbl fuel (new s blockCap handleCap) :=
  ⟨inv_new s blockCap handleCap, by simp [new, withCapacity, Lru.new], hfuel⟩

/-- Time passes in the storage. -/
theorem Coherent.wait {self : VerityFS σ η} {s' : σ} (hco : Coherent hon tbl fuel self)
    (hbudget : hon.budget s' ≤ hon.budget self.storage) :
    Coherent hon tbl fuel { self with storage := s' } :=
  ⟨⟨hco.blocks.cached, hco.blocks.checked⟩, hco.handles,
    Nat.lt_of_le_of_lt (Nat.add_le_add_left hbudget _) hco.fuel_lt⟩

/-- A handle is added to the pool. -/
theorem Coherent.pool {self : VerityFS σ η} {ino : Nat} {handle : η}
    (hco : Coherent hon tbl fuel self)
    (hfile : ∀ f ∈ tbl.files, f.ino = ino → F f.path = some (hon.content handle)) :
    Coherent hon tbl fuel { self with handleCache := self.handleCache.put ino handle } := by
  refine ⟨⟨hco.blocks.cached, hco.blocks.checked⟩, ?_, hco.fuel_lt⟩
  intro e he
  rcases Lru.mem_entries_put he with rfl | he
  · exact hfile
  · exact hco.handles e he

/-- A block is accepted. -/
theorem Coherent.accept {self : VerityFS σ η} {key : BlockKey} {v : Bytes}
    (hco : Coherent hon tbl fuel self) (hv : Filed tbl F key v) :
    Coherent hon tbl fuel
      { self with
        blockCache := self.blockCache.put key v
        verified := (key, v) :: self.verified } := by
  refine ⟨⟨?_, ?_⟩, hco.handles, hco.fuel_lt⟩
  · intro e he
    rcases Lru.mem_entries_put he with rfl | he
    · exact List.mem_cons_self
    · exact List.mem_cons_of_mem _ (hco.blocks.cached e he)
  · intro e he
    rcases List.mem_cons.mp he with rfl | he
    · exact hv
    · exact hco.blocks.checked e he

/-- A filed block of the file. -/
theorem Filed.eq_dataBlock {i : Nat} {v D : Bytes} (hmem : file ∈ tbl.files)
    (hD : F file.path = some D) (h : Filed tbl F ⟨file.ino, i⟩ v) :
    v = dataBlock (tbl.blockSize file) D i ∧
      i * tbl.blockSize file + tbl.blockSize file < 2 ^ 63 ∧ file.verifyDataBlock i v = some (.ok ()) := by
  obtain ⟨f, hf, hino, hok, hlt, D', hD', hv⟩ := h.verified
  obtain rfl := tbl.ino_inj f hf file hmem hino
  rw [hD, Option.some.injEq] at hD'
  exact ⟨hD' ▸ hv, hlt, hok⟩

/-- A file that can be opened is opened, whether its handle is pooled or not. -/
theorem openFileCached_some {D : Bytes} {self : VerityFS σ η} (hmem : file ∈ tbl.files)
    (hD : F file.path = some D) (hco : Coherent hon tbl fuel self) :
    ∃ handle self', self.openFileCached S file = (.ok handle, self') ∧ hon.content handle = D ∧
      Coherent hon tbl fuel self' := by
  match hget : self.handleCache.get file.ino with
  | (some handle, pool) =>
    obtain ⟨hhandle, hsame⟩ := Lru.get_eq_some hget
    have hcontent := hco.handles _ hhandle file hmem rfl
    refine ⟨handle, { self with handleCache := pool }, ?_, ?_, ?_⟩
    · simp [openFileCached, FileHandlePool.getOrOpen, hget]
    · exact Option.some.inj (hcontent.symm.trans hD)
    · exact ⟨⟨hco.blocks.cached, hco.blocks.checked⟩,
        fun e he => hco.handles e ((hsame e).mp he), hco.fuel_lt⟩
  | (none, pool) =>
    obtain rfl := Lru.get_eq_none hget
    obtain ⟨handle, hopen, hcontent⟩ := hon.open_some self.storage file.path D hD
    obtain ⟨answer, s', hans⟩ : ∃ answer s', S.openFile self.storage file.path = (answer, s') :=
      ⟨_, _, rfl⟩
    have hbudget := hon.open_budget self.storage file.path
    rw [hans] at hopen hbudget
    dsimp only at hopen hbudget
    subst hopen
    refine ⟨handle, { self with handleCache := self.handleCache.put file.ino handle, storage := s' },
      ?_, hcontent, ?_⟩
    · simp [openFileCached, FileHandlePool.getOrOpen, hget, hans]
    · refine (hco.wait hbudget).pool fun f hf hino => ?_
      rw [tbl.ino_inj f hf file hmem hino, hD, hcontent]

/-- A file that cannot be opened is an error. -/
theorem openFileCached_none {self : VerityFS σ η} (hmem : file ∈ tbl.files)
    (hD : F file.path = none) (hco : Coherent hon tbl fuel self) :
    ∃ self', self.openFileCached S file = (.error EIO, self') ∧ Coherent hon tbl fuel self' := by
  match hget : self.handleCache.get file.ino with
  | (some handle, pool) =>
    obtain ⟨hhandle, -⟩ := Lru.get_eq_some hget
    have hcontent := hco.handles _ hhandle file hmem rfl
    rw [hD] at hcontent
    cases hcontent
  | (none, pool) =>
    obtain rfl := Lru.get_eq_none hget
    obtain ⟨e, hopen⟩ := hon.open_none self.storage file.path hD
    obtain ⟨answer, s', hans⟩ : ∃ answer s', S.openFile self.storage file.path = (answer, s') :=
      ⟨_, _, rfl⟩
    have hbudget := hon.open_budget self.storage file.path
    rw [hans] at hopen hbudget
    dsimp only at hopen hbudget
    subst hopen
    refine ⟨{ self with storage := s' }, ?_, hco.wait hbudget⟩
    simp [openFileCached, FileHandlePool.getOrOpen, hget, hans]

/-- Whatever is opened under another number leaves the files of the table alone. -/
theorem openFileCached_other {self : VerityFS σ η} (hother : ∀ f ∈ tbl.files, f.ino ≠ file.ino)
    (hco : Coherent hon tbl fuel self) :
    ∃ r self', self.openFileCached S file = (r, self') ∧ Coherent hon tbl fuel self' := by
  match hget : self.handleCache.get file.ino with
  | (some handle, pool) =>
    obtain ⟨-, hsame⟩ := Lru.get_eq_some hget
    refine ⟨.ok handle, { self with handleCache := pool }, ?_, ?_⟩
    · simp [openFileCached, FileHandlePool.getOrOpen, hget]
    · exact ⟨⟨hco.blocks.cached, hco.blocks.checked⟩,
        fun e he => hco.handles e ((hsame e).mp he), hco.fuel_lt⟩
  | (none, pool) =>
    obtain rfl := Lru.get_eq_none hget
    have hbudget := hon.open_budget self.storage file.path
    match hans : S.openFile self.storage file.path with
    | (.ok handle, s') =>
      rw [hans] at hbudget
      refine ⟨.ok handle,
        { self with handleCache := self.handleCache.put file.ino handle, storage := s' }, ?_, ?_⟩
      · simp [openFileCached, FileHandlePool.getOrOpen, hget, hans]
      · exact (hco.wait hbudget).pool fun f hf hino => absurd hino (hother f hf)
    | (.error e, s') =>
      rw [hans] at hbudget
      refine ⟨.error EIO, { self with storage := s' }, ?_, hco.wait hbudget⟩
      simp [openFileCached, FileHandlePool.getOrOpen, hget, hans]

/-- Opening a file always returns, and keeps the caches coherent. -/
theorem openFileCached_returns {self : VerityFS σ η}
    (hfile : file ∈ tbl.files ∨ ∀ f ∈ tbl.files, f.ino ≠ file.ino)
    (hco : Coherent hon tbl fuel self) :
    ∃ r self', self.openFileCached S file = (r, self') ∧ Coherent hon tbl fuel self' := by
  rcases hfile with hmem | hother
  · cases hD : F file.path with
    | none =>
      obtain ⟨self', hopen, hco'⟩ := openFileCached_none hmem hD hco
      exact ⟨_, self', hopen, hco'⟩
    | some D =>
      obtain ⟨handle, self', hopen, -, hco'⟩ := openFileCached_some hmem hD hco
      exact ⟨_, self', hopen, hco'⟩
  · exact openFileCached_other hother hco

/-! ## One block -/

/-- What reading block `i` of `D` comes to. -/
def blockOutcome (file : VerifiableFile) (blockSize : Nat) (D : Bytes) (i : Nat) :
    Except Errno Bytes :=
  if 2 ^ 63 ≤ i * blockSize + blockSize then .error EINVAL
  else if file.verifyDataBlock i (dataBlock blockSize D i) = some (.ok ()) then
    .ok (dataBlock blockSize D i)
  else .error EIO

theorem blockOutcome_eq_ok_iff {B : Nat} {D : Bytes} {i : Nat} :
    (∃ v, blockOutcome file B D i = .ok v) ↔ i * B + B < 2 ^ 63 ∧
      file.verifyDataBlock i (dataBlock B D i) = some (.ok ()) := by
  unfold blockOutcome
  split
  · next hge => exact iff_of_false (fun ⟨v, hv⟩ => by cases hv) (fun hok => by omega)
  · next hlt =>
    split
    · next hok => exact iff_of_true ⟨_, rfl⟩ ⟨by omega, hok⟩
    · next hbad => exact iff_of_false (fun ⟨v, hv⟩ => by cases hv) (fun hok => hbad hok.2)

theorem blockOutcome_eq_error {B : Nat} {D : Bytes} {i : Nat} {e : Errno}
    (h : blockOutcome file B D i = .error e) :
    (2 ^ 63 ≤ i * B + B ∧ e = EINVAL) ∨ (i * B + B < 2 ^ 63 ∧ e = EIO ∧
      file.verifyDataBlock i (dataBlock B D i) ≠ some (.ok ())) := by
  unfold blockOutcome at h
  split at h
  · next hge =>
    cases h
    exact .inl ⟨hge, rfl⟩
  · next hlt =>
    split at h
    · cases h
    · next hbad =>
      cases h
      exact .inr ⟨by omega, rfl, hbad⟩

theorem blockData_eq {D : Bytes} {self : VerityFS σ η} {handle : η} {i : Nat}
    (hmem : file ∈ tbl.files) (hD : F file.path = some D) (hhandle : hon.content handle = D)
    (hi : i * tbl.blockSize file < 2 ^ 64) (hco : Coherent hon tbl fuel self) :
    ∃ self', self.blockData S fuel file handle i (tbl.blockSize file) =
        some (blockOutcome file (tbl.blockSize file) D i, self') ∧
      Coherent hon tbl fuel self' := by
  have hpos := tbl.blockSize_pos file hmem
  have hle := tbl.blockSize_le file hmem
  have hfuel := hco.fuel_lt
  match hget : self.blockCache.get ⟨file.ino, i⟩ with
  | (some v, blockCache) =>
    -- a hit: the cached block is the block of the file, and verified
    obtain ⟨hcached, hsame⟩ := Lru.get_eq_some hget
    have hfiled := hco.blocks.checked _ (hco.blocks.cached _ hcached)
    obtain ⟨rfl, hlt, hok⟩ := Filed.eq_dataBlock hmem hD hfiled
    refine ⟨{ self with blockCache := blockCache }, ?_,
      ⟨fun e he => hco.blocks.cached e ((hsame e).mp he), hco.blocks.checked⟩, hco.handles,
      hco.fuel_lt⟩
    rw [blockOutcome, if_neg (by omega), if_pos hok]
    simp [blockData, hget]
  | (none, blockCache) =>
    rcases Nat.lt_or_ge (i * tbl.blockSize file + tbl.blockSize file) (2 ^ 63) with hlt | hge
    · -- a miss: the block is read, and verified or not
      obtain ⟨s', hread, hbudget⟩ : ∃ s', S.preadFileData fuel handle (i * tbl.blockSize file)
            (tbl.blockSize file) self.storage =
          some (.ok (dataBlock (tbl.blockSize file) (hon.content handle) i), s') ∧
          hon.budget s' ≤ hon.budget self.storage :=
        hon.preadFileData_eq handle hlt (by omega)
      rw [hhandle] at hread
      rw [blockOutcome, if_neg (by omega)]
      obtain ⟨r, hr⟩ := tbl.verify_total file hmem i (dataBlock (tbl.blockSize file) D i)
      cases r with
      | ok =>
        refine ⟨{ self with
            storage := s'
            blockCache := self.blockCache.put ⟨file.ino, i⟩ (dataBlock (tbl.blockSize file) D i)
            verified := (⟨file.ino, i⟩, dataBlock (tbl.blockSize file) D i) :: self.verified },
          ?_, (hco.wait hbudget).accept ⟨file, hmem, rfl, hr, hlt, D, hD, rfl⟩⟩
        simp [blockData, hget, hread, hr]
      | error e =>
        refine ⟨{ self with storage := s' }, ?_, hco.wait hbudget⟩
        simp [blockData, hget, hread, hr]
    · -- past the largest offset there is
      obtain ⟨s', hread, hbudget⟩ :=
        hon.preadFileData_invalid handle hge hi hpos (by omega : 0 < fuel)
      refine ⟨{ self with storage := s' }, ?_, hco.wait hbudget⟩
      rw [blockOutcome, if_pos hge]
      simp [blockData, hget, hread]

/-! ## One request -/

/-- The loop returns, and fails as the first of the blocks does that fails. -/
theorem readBlocks_eq {D : Bytes} {handle : η} {lo hi : Nat} (hmem : file ∈ tbl.files)
    (hD : F file.path = some D) (hhandle : hon.content handle = D) (hhi : hi < 2 ^ 64)
    (idxs : List Nat) : ∀ (output : Bytes) (self : VerityFS σ η),
    (∀ i ∈ idxs, max lo (i * tbl.blockSize file) <
      min hi (i * tbl.blockSize file + tbl.blockSize file)) →
    Coherent hon tbl fuel self →
    ∃ r self', readBlocks S fuel file handle (tbl.blockSize file) lo hi idxs output self =
        some (r, self') ∧ Coherent hon tbl fuel self' ∧
      ((∃ out, r = .ok out ∧ ∀ i ∈ idxs, ∃ v, blockOutcome file (tbl.blockSize file) D i = .ok v) ∨
        ∃ e, r = .error e ∧ ∃ before i after, idxs = before ++ i :: after ∧
          (∀ j ∈ before, ∃ v, blockOutcome file (tbl.blockSize file) D j = .ok v) ∧
          blockOutcome file (tbl.blockSize file) D i = .error e) := by
  induction idxs with
  | nil =>
    intro output self _ hco
    exact ⟨_, self, rfl, hco, Or.inl ⟨output, rfl, by simp⟩⟩
  | cons i rest ih =>
    intro output self hover hco
    have hover_i := hover i List.mem_cons_self
    have hlt : i * tbl.blockSize file < 2 ^ 64 := by omega
    obtain ⟨self₁, hblock, hco₁⟩ := blockData_eq hmem hD hhandle hlt hco
    rw [readBlocks_cons hover_i, hblock]
    match hout : blockOutcome file (tbl.blockSize file) D i with
    | .error e =>
      exact ⟨_, self₁, rfl, hco₁, Or.inr ⟨e, rfl, [], i, rest, rfl, by simp, hout⟩⟩
    | .ok v =>
      obtain ⟨r, self', hrest, hco', hcases⟩ :=
        ih _ self₁ (fun j hj => hover j (List.mem_cons_of_mem _ hj)) hco₁
      refine ⟨r, self', hrest, hco', ?_⟩
      rcases hcases with ⟨out, hr, hall⟩ | ⟨e, hr, before, j, after, rfl, hall, hfail⟩
      · exact Or.inl ⟨out, hr, List.forall_mem_cons.mpr ⟨⟨v, hout⟩, hall⟩⟩
      · exact Or.inr ⟨e, hr, i :: before, j, after, rfl,
          List.forall_mem_cons.mpr ⟨⟨v, hout⟩, hall⟩, hfail⟩

/-- A request for something on a file that can be opened. It succeeds with the requested part of the
file if every block of the range can be had, and fails otherwise. -/
theorem readFile_some {D : Bytes} {offset : Int64} {size : UInt32} {self : VerityFS σ η}
    (hmem : file ∈ tbl.files) (hD : F file.path = some D) (hoff : ¬ offset < 0) (hsize : size ≠ 0)
    (hco : Coherent hon tbl fuel self) :
    ∃ r self', self.readFile S fuel file offset size = some (r, self') ∧
      Coherent hon tbl fuel self' ∧
      ((r = .ok (slice offset.toInt.toNat (offset.toInt.toNat + size.toNat) D) ∧
          ∀ i ∈ blockRange (tbl.blockSize file) offset.toInt.toNat size.toNat,
            ∃ v, blockOutcome file (tbl.blockSize file) D i = .ok v) ∨
        ∃ e, r = .error e ∧ ∃ before i after,
          blockRange (tbl.blockSize file) offset.toInt.toNat size.toNat = before ++ i :: after ∧
          (∀ j ∈ before, ∃ v, blockOutcome file (tbl.blockSize file) D j = .ok v) ∧
          blockOutcome file (tbl.blockSize file) D i = .error e) := by
  have hpos := tbl.blockSize_pos file hmem
  have hsize' := toNat_pos_of_ne_zero hsize
  have hlt : offset.toInt.toNat + size.toNat < 2 ^ 64 := by
    have h1 := offset.toInt_lt
    have h2 := size.toNat_lt
    omega
  obtain ⟨handle, self₁, hopen, hhandle, hco₁⟩ := openFileCached_some hmem hD hco
  obtain ⟨r, self', hread, hco', hcases⟩ := readBlocks_eq hmem hD hhandle hlt
    (blockRange (tbl.blockSize file) offset.toInt.toNat size.toNat) [] self₁
    (fun i hi => overlap hpos (by omega) hi) hco₁
  have hr : self.readFile S fuel file offset size = some (r, self') := by
    rw [readFile_eq hoff hsize (tbl.blockSize_eq file hmem) (by omega), hopen]
    exact hread
  refine ⟨r, self', hr, hco', ?_⟩
  rcases hcases with ⟨out, rfl, hall⟩ | hfail
  · -- the blocks used are verified, so they are filed, so they are blocks of the file
    have hfiled : ∀ B, 0 < B → file.blockSize = some (some B) →
        ∀ i v, (⟨file.ino, i⟩, v) ∈ self'.verified → v = dataBlock B D i := by
      intro B _ hB i v hv
      rw [tbl.blockSize_eq file hmem] at hB
      cases hB
      exact (Filed.eq_dataBlock hmem hD (hco'.blocks.checked _ hv)).1
    have hinv : Inv (fun _ _ => True) self := ⟨hco.blocks.cached, fun _ _ => trivial⟩
    exact Or.inl ⟨congrArg _ (readFile_output (fun _ _ _ => trivial) hinv hfiled hr), hall⟩
  · exact Or.inr hfail

/-- Every request returns, and keeps the caches coherent. -/
theorem readFile_returns (offset : Int64) (size : UInt32) {self : VerityFS σ η}
    (hmem : file ∈ tbl.files) (hco : Coherent hon tbl fuel self) :
    ∃ r self', self.readFile S fuel file offset size = some (r, self') ∧
      Coherent hon tbl fuel self' := by
  have hpos := tbl.blockSize_pos file hmem
  by_cases hoff : offset < 0
  · exact ⟨_, self, by rw [readFile, if_pos hoff], hco⟩
  · by_cases hsize : size = 0
    · exact ⟨_, self, by rw [readFile, if_neg hoff, if_pos hsize], hco⟩
    · cases hD : F file.path with
      | none =>
        obtain ⟨self', hopen, hco'⟩ := openFileCached_none hmem hD hco
        refine ⟨.error EIO, self', ?_, hco'⟩
        rw [readFile_eq hoff hsize (tbl.blockSize_eq file hmem) (by omega), hopen]
      | some D =>
        obtain ⟨r, self', hread, hco', -⟩ := readFile_some hmem hD hoff hsize hco
        exact ⟨r, self', hread, hco'⟩

/-- If the last block of the range ends before the largest offset, a request is answered as the plain
reader does, and otherwise it fails. -/
theorem readFile_plain {D : Bytes} {offset : Int64} {size : UInt32} {self : VerityFS σ η}
    (hmem : file ∈ tbl.files) (hD : F file.path = some D) (hoff : ¬ offset < 0) (hsize : size ≠ 0)
    (hco : Coherent hon tbl fuel self) :
    ∃ self', self.readFile S fuel file offset size =
        some (if tbl.blockSize file * divCeil (offset.toInt.toNat + size.toNat) (tbl.blockSize file) <
            2 ^ 63 then
          plainRead file (tbl.blockSize file) D offset.toInt.toNat size.toNat
        else .error (plainReadPast file (tbl.blockSize file) D offset.toInt.toNat size.toNat),
          self') ∧
      Coherent hon tbl fuel self' := by
  have hends := blockRange_end_lt_iff offset.toInt.toNat (2 ^ 63) (tbl.blockSize_pos file hmem)
    (toNat_pos_of_ne_zero hsize)
  obtain ⟨r, self', hread, hco', hcases⟩ := readFile_some hmem hD hoff hsize hco
  refine ⟨self', ?_, hco'⟩
  rw [hread, Option.some.injEq, Prod.mk.injEq, and_iff_left rfl]
  rcases hcases with ⟨rfl, hall⟩ | ⟨e, rfl, before, i, after, hrange, hbefore, hfail⟩
  · rw [if_pos (hends.mp fun i hi => (blockOutcome_eq_ok_iff.mp (hall i hi)).1), plainRead,
      if_pos fun i hi => (blockOutcome_eq_ok_iff.mp (hall i hi)).2]
  · have hi : i ∈ blockRange (tbl.blockSize file) offset.toInt.toNat size.toNat := by
      rw [hrange]
      exact List.mem_append_right _ List.mem_cons_self
    rcases blockOutcome_eq_error hfail with ⟨hge, rfl⟩ | ⟨hlt, rfl, hbad⟩
    · -- the blocks that end before the largest offset are the ones before this one
      rw [if_neg fun hin => absurd (hends.mpr hin i hi) (by omega), plainReadPast, if_pos]
      intro j hj hend
      have hlt : j < i := by
        by_contra hge'
        have := Nat.mul_le_mul_right (tbl.blockSize file) (Nat.not_lt.mp hge')
        omega
      exact (blockOutcome_eq_ok_iff.mp (hbefore j (mem_before_of_lt hrange hj hlt))).2
    · have hplain : plainRead file (tbl.blockSize file) D offset.toInt.toNat size.toNat =
          .error EIO := if_neg fun hok => hbad (hok i hi)
      have hpast : plainReadPast file (tbl.blockSize file) D offset.toInt.toNat size.toNat = EIO :=
        if_neg fun hok => hbad (hok i hi hlt)
      rw [hplain, hpast, ite_self]

/-! ## Runs -/

/-- A run on coherent caches returns and leaves them coherent, and every request is answered as the
plain reader does. -/
theorem run_plain {reqs : List Request} : ∀ {self : VerityFS σ η},
    (∀ r ∈ reqs, r.file ∈ tbl.files) → Coherent hon tbl fuel self →
    ∃ answers self', run S fuel reqs self = some (answers, self') ∧
      Coherent hon tbl fuel self' ∧
      ∀ (k : Nat) (r : Request) (D : Bytes), reqs[k]? = some r → F r.file.path = some D →
        ¬ r.offset < 0 → r.size ≠ 0 →
        answers[k]? = some (if tbl.blockSize r.file *
            divCeil (r.offset.toInt.toNat + r.size.toNat) (tbl.blockSize r.file) < 2 ^ 63 then
          plainRead r.file (tbl.blockSize r.file) D r.offset.toInt.toNat r.size.toNat
        else .error (plainReadPast r.file (tbl.blockSize r.file) D r.offset.toInt.toNat
          r.size.toNat)) := by
  induction reqs with
  | nil =>
    intro self _ hco
    exact ⟨[], self, rfl, hco, fun k r D hk => by simp at hk⟩
  | cons r rest ih =>
    intro self hfiles hco
    have hmem := hfiles r List.mem_cons_self
    obtain ⟨answer, self₁, hread, hco₁⟩ :=
      readFile_returns r.offset r.size hmem hco
    obtain ⟨answers, self', hrun, hco', hans⟩ :=
      ih (fun r' hr' => hfiles r' (List.mem_cons_of_mem _ hr')) hco₁
    refine ⟨answer :: answers, self', by simp [run, hread, hrun], hco', ?_⟩
    intro k r' D hk hD hoff hsize
    cases k with
    | zero =>
      cases hk
      obtain ⟨self₂, hplain, -⟩ := readFile_plain hmem hD hoff hsize hco
      rw [hread, Option.some.injEq, Prod.mk.injEq] at hplain
      rw [List.getElem?_cons_zero, hplain.1]
    | succ k => exact hans k r' D hk hD hoff hsize

/-- **The cached read path refines the plain reader.** For files with different inode numbers, on
storage that stays as it is, any run of requests returns. Each request for something on a file that
can be opened is answered as a reader without caches answers it, if its last block ends before the
largest offset, and fails otherwise. Every cached block was verified for the file and the index it is
filed under. -/
theorem run_refines (hon : Honest S F) (tbl : FileTable) {reqs : List Request}
    (hreqs : ∀ r ∈ reqs, r.file ∈ tbl.files) {s : σ} (blockCap handleCap : Nat)
    (hfuel : 2 ^ 30 + hon.budget s < fuel) :
    ∃ answers fs', run S fuel reqs (new s blockCap handleCap) = some (answers, fs') ∧
      (∀ (k : Nat) (r : Request) (D : Bytes), reqs[k]? = some r → F r.file.path = some D →
        ¬ r.offset < 0 → r.size ≠ 0 →
        answers[k]? = some (if tbl.blockSize r.file *
            divCeil (r.offset.toInt.toNat + r.size.toNat) (tbl.blockSize r.file) < 2 ^ 63 then
          plainRead r.file (tbl.blockSize r.file) D r.offset.toInt.toNat r.size.toNat
        else .error (plainReadPast r.file (tbl.blockSize r.file) D r.offset.toInt.toNat
          r.size.toNat))) ∧
      ∀ e ∈ fs'.blockCache.entries, ∃ f ∈ tbl.files, f.ino = e.1.ino ∧
        f.verifyDataBlock e.1.blockIndex e.2 = some (.ok ()) := by
  have hnew : Coherent hon tbl fuel (new s blockCap handleCap) :=
    coherent_new hfuel blockCap handleCap
  obtain ⟨answers, fs', hrun, hco, hans⟩ := run_plain hreqs hnew
  refine ⟨answers, fs', hrun, hans, ?_⟩
  intro e he
  obtain ⟨f, hf, hino, hok, -⟩ := (hco.blocks.checked e (hco.blocks.cached e he)).verified
  exact ⟨f, hf, hino, hok⟩

end VerityFS

/-! ## The largest offset -/

/-- A constant hash function. -/
def constHash (_ : Bytes) : List.Vector UInt8 32 := List.Vector.replicate 32 0

/-- A record with blocks of a gigabyte, whose level-1 hashes are all the same. -/
def sparseInfo : FileVerityInfo constHash where
  path := "f"
  descriptor := ⟨1, 1, 30, 0, constHash [], []⟩
  merkleTree := ⟨List.replicate (2 ^ 33) (constHash [])⟩
  descriptorHash := ""

def sparseFile : VerifiableFile :=
  (FsEntry.mk 2 (.verityEnabled sparseInfo)).toVerifiableFile .release

theorem sparseFile_verifies {i : Nat} (hi : i < 2 ^ 33) :
    sparseFile.verifyDataBlock i [] = some (.ok ()) := by
  have hentry : sparseInfo.merkleTree.level1[i]? = some (constHash []) :=
    List.getElem?_replicate_of_lt hi
  have hbs : sparseInfo.descriptor.blockSize .release = some (2 ^ 30) := rfl
  refine (FsEntry.verifyDataBlock_iff hbs).mpr ?_
  exact MerkleTree.verifyDataBlock_iff.mpr ⟨Nat.zero_le _, hentry⟩

def sparseTable : FileTable where
  files := {sparseFile}
  blockSize _ := 2 ^ 30
  ino_inj f hf g hg _ := hf.trans hg.symm
  blockSize_eq f hf := by rw [hf]; rfl
  blockSize_pos _ _ := by decide
  blockSize_le _ _ := Nat.le_refl _
  verify_total f hf i data := by
    have hbs : sparseInfo.descriptor.blockSize .release = some (2 ^ 30) := rfl
    rw [hf]
    exact FsEntry.verifyDataBlock_total i data hbs

/-- Storage on which every file is empty. -/
def emptyFiles (_ : RelativePath) : Option Bytes := some []

/-- A request for the byte at the largest offset. Its block ends one byte later. -/
theorem readFile_past_largest_offset :
    (∃ fs', (VerityFS.new () 1 1).readFile (memoryStorage emptyFiles) (2 ^ 30 + 1) sparseFile
        9223372036854775807 1 = some (.error EINVAL, fs')) ∧
      plainRead sparseFile (2 ^ 30) [] 9223372036854775807 1 = .ok [] := by
  have hrange : blockRange (2 ^ 30) 9223372036854775807 1 = [2 ^ 33 - 1] := by decide +kernel
  constructor
  · have hnew : VerityFS.Coherent (memoryStorageHonest emptyFiles) sparseTable (2 ^ 30 + 1)
        (VerityFS.new () 1 1) := VerityFS.coherent_new (by decide) 1 1
    obtain ⟨fs', hread, -⟩ := VerityFS.readFile_plain (rfl : sparseFile ∈ sparseTable.files) rfl
      (by decide : ¬ (9223372036854775807 : Int64) < 0) (by decide : (1 : UInt32) ≠ 0) hnew
    refine ⟨fs', hread.trans ?_⟩
    have hpast : plainReadPast sparseFile (2 ^ 30) [] 9223372036854775807 1 = EINVAL := by
      rw [plainReadPast, if_pos]
      rw [hrange]
      intro i hi hend
      rw [List.mem_singleton.mp hi] at hend
      exact absurd hend (by decide)
    exact congrArg (fun e => some (Except.error e, fs')) hpast
  · rw [plainRead, if_pos]
    · rfl
    · rw [hrange]
      intro i hi
      rw [List.mem_singleton.mp hi]
      exact sparseFile_verifies (by decide)

theorem run_refines_empty_file :
    ∃ answers fs', VerityFS.run (memoryStorage emptyFiles) (2 ^ 30 + 1) [⟨sparseFile, 0, 5⟩]
        (VerityFS.new () 1 1) = some (answers, fs') ∧
      answers[0]? = some (plainRead sparseFile (2 ^ 30) [] 0 5) := by
  have hreqs : ∀ r ∈ [VerityFS.Request.mk sparseFile 0 5], r.file ∈ sparseTable.files := by
    simp [sparseTable]
  have hfuel : 2 ^ 30 + (memoryStorageHonest emptyFiles).budget () < 2 ^ 30 + 1 := by decide
  obtain ⟨answers, fs', hrun, hans, -⟩ :=
    VerityFS.run_refines (memoryStorageHonest emptyFiles) sparseTable hreqs 1 1 hfuel
  exact ⟨answers, fs', hrun, hans 0 _ [] rfl rfl (by decide) (by decide)⟩

/-! ## Untampered files -/

section
variable {h : Bytes → List.Vector UInt8 32}

/-- Every block of an untampered file can be had, and no block after the last one, nor one that ends
past the largest offset. -/
theorem VerityFS.blockOutcome_genuine {info : FileVerityInfo h} (ino : Nat) {p : Profile} {B : Nat}
    {D : Bytes} (hB : 0 < B) (hbs : info.descriptor.blockSize p = some B)
    (htree : info.merkleTree = ⟨merkleLevel1 (sha256 h) [] B D⟩) (i : Nat) :
    (∃ v, blockOutcome ((FsEntry.mk ino (.verityEnabled info)).toVerifiableFile p) B D i =
      .ok v) ↔ i * B < D.length ∧ i * B + B < 2 ^ 63 := by
  rw [blockOutcome_eq_ok_iff, and_comm, and_congr_left_iff]
  intro _
  refine (FsEntry.verifyDataBlock_iff hbs).trans ?_
  rw [htree]
  constructor
  · intro hv
    obtain ⟨-, hentry⟩ := MerkleTree.verifyDataBlock_iff.mp hv
    rw [getElem?_merkleLevel1 hB] at hentry
    split at hentry
    · assumption
    · cases hentry
  · intro hi
    exact MerkleTree.verifyDataBlock_of_zeroPad hB hi (length_dataBlock_le B D i) rfl

/-- A request on an untampered file, in a state with coherent caches. -/
theorem VerityFS.readFile_genuine {S : Storage σ η} {F : RelativePath → Option Bytes} {fuel : Nat}
    {hon : Honest S F} (tbl : FileTable) {info : FileVerityInfo h} {ino : Nat} {p : Profile} {B : Nat}
    {D : Bytes} {self : VerityFS σ η} {offset : Int64} (size : UInt32)
    (hmem : (FsEntry.mk ino (.verityEnabled info)).toVerifiableFile p ∈ tbl.files)
    (htbl : tbl.blockSize ((FsEntry.mk ino (.verityEnabled info)).toVerifiableFile p) = B)
    (hbs : info.descriptor.blockSize p = some B)
    (htree : info.merkleTree = ⟨merkleLevel1 (sha256 h) [] B D⟩)
    (hF : F (RelativePath.ofString info.path) = some D) (hoff : ¬ offset < 0)
    (hco : Coherent hon tbl fuel self) :
    ∃ r self', self.readFile S fuel ((FsEntry.mk ino (.verityEnabled info)).toVerifiableFile p)
        offset size = some (r, self') ∧
      (r = .ok (slice offset.toInt.toNat (offset.toInt.toNat + size.toNat) D) ↔ size = 0 ∨
        (offset.toInt.toNat + size.toNat ≤ B * divCeil D.length B ∧
          B * divCeil (offset.toInt.toNat + size.toNat) B < 2 ^ 63)) := by
  have hpos : 0 < B := htbl ▸ tbl.blockSize_pos _ hmem
  by_cases hsize : size = 0
  · subst hsize
    refine ⟨.ok [], self, by rw [readFile, if_neg hoff, if_pos rfl], ?_⟩
    rw [slice_eq_nil (by simp)]
    exact iff_of_true rfl (.inl rfl)
  have hpos' := toNat_pos_of_ne_zero hsize
  have houtcome := blockOutcome_genuine ino hpos hbs htree
  obtain ⟨r, self', hread, -, hcases⟩ := readFile_some hmem hF hoff hsize hco
  refine ⟨r, self', hread, ?_⟩
  rw [htbl] at hcases
  rw [← blockRange_lt_iff _ _ hpos hpos', ← blockRange_end_lt_iff _ _ hpos hpos', or_iff_right hsize]
  constructor
  · rintro rfl
    rcases hcases with ⟨-, hok⟩ | ⟨e, he, -⟩
    · exact ⟨fun i hi => ((houtcome i).mp (hok i hi)).1, fun i hi => ((houtcome i).mp (hok i hi)).2⟩
    · cases he
  · rintro ⟨hstart, hend⟩
    rcases hcases with ⟨rfl, -⟩ | ⟨e, -, before, i, after, hrange, -, hfail⟩
    · rfl
    · have hi : i ∈ blockRange B offset.toInt.toNat size.toNat := by
        rw [hrange]
        exact List.mem_append_right _ List.mem_cons_self
      obtain ⟨v, hv⟩ := (houtcome i).mpr ⟨hstart i hi, hend i hi⟩
      cases hv.symm.trans hfail

/-- **Which reads of an untampered file succeed.** A file is stored as it was measured, without a
salt. After any run of requests, a request for `size` bytes at `offset` returns the requested part
of the data exactly if it asks for nothing, or ends within the last block and has all its blocks
before the largest offset. The latter is so for every file that is a gigabyte shorter than that. -/
theorem readFile_genuine_iff {S : Storage σ η} {F : RelativePath → Option Bytes} {fuel : Nat}
    {p p' : Profile} {B : Nat} {calls : List Bytes} {info : FileVerityInfo h} {ino : Nat}
    (hgen : FsVerityDigest.run (sha256 h) p' [] B calls =
      some (info.descriptor, info.merkleTree))
    (hon : Honest S F) (tbl : FileTable)
    (hmem : (FsEntry.mk ino (.verityEnabled info)).toVerifiableFile p ∈ tbl.files)
    (hF : F (FsEntry.mk ino (.verityEnabled info)).path = some calls.flatten)
    {reqs : List VerityFS.Request} (hreqs : ∀ r ∈ reqs, r.file ∈ tbl.files) {s : σ}
    {blockCap handleCap : Nat} (hfuel : 2 ^ 30 + hon.budget s < fuel)
    {answers : List (Except Errno Bytes)} {fs : VerityFS σ η}
    (hrun : VerityFS.run S fuel reqs (VerityFS.new s blockCap handleCap) = some (answers, fs))
    {offset : Int64} (hoff : ¬ offset < 0) (size : UInt32) :
    (∃ fs', fs.readFile S fuel ((FsEntry.mk ino (.verityEnabled info)).toVerifiableFile p)
        offset size =
      some (.ok (slice offset.toInt.toNat (offset.toInt.toNat + size.toNat) calls.flatten), fs')) ↔
    size = 0 ∨
      (offset.toInt.toNat + size.toNat ≤ B * ((calls.flatten.length + B - 1) / B) ∧
        B * ((offset.toInt.toNat + size.toNat + B - 1) / B) < 2 ^ 63) := by
  obtain ⟨hpow, hpos, hbs, htree⟩ := FileVerityInfo.genuine_inv hgen p
  have htbl : tbl.blockSize ((FsEntry.mk ino (.verityEnabled info)).toVerifiableFile p) = B :=
    FsEntry.blockSize_genuine ino hpow hbs (tbl.blockSize_pos _ hmem) (tbl.blockSize_eq _ hmem)
  -- the run left the caches coherent
  have hco : VerityFS.Coherent hon tbl fuel fs := by
    obtain ⟨answers', fs₂, hrun', hco, -⟩ :=
      VerityFS.run_plain hreqs (VerityFS.coherent_new hfuel blockCap handleCap)
    rw [hrun, Option.some.injEq, Prod.mk.injEq] at hrun'
    exact hrun'.2 ▸ hco
  obtain ⟨r, fs', hread, hiff⟩ :=
    VerityFS.readFile_genuine tbl size hmem htbl hbs htree hF hoff hco
  simp only [hread, Option.some.injEq, Prod.mk.injEq, exists_and_left, exists_eq', and_true]
  exact hiff

/-- The genuine record of a file of one byte, with blocks of a kilobyte. -/
def oneByteInfo : FileVerityInfo FsVerityDigest.lengthHash where
  path := "f"
  descriptor := ⟨1, 1, 10, 1, FsVerityDigest.lengthHash (zeroPad 1024 [7]), []⟩
  merkleTree := ⟨[FsVerityDigest.lengthHash (zeroPad 1024 [7])]⟩
  descriptorHash := ""

def oneByteFile : VerifiableFile :=
  (FsEntry.mk 2 (.verityEnabled oneByteInfo)).toVerifiableFile .dev

/-- Storage on which every file is that byte. -/
def oneByteFiles (_ : RelativePath) : Option Bytes := some [7]

def oneByteTable : FileTable where
  files := {oneByteFile}
  blockSize _ := 1024
  ino_inj f hf g hg _ := hf.trans hg.symm
  blockSize_eq f hf := by rw [hf]; rfl
  blockSize_pos _ _ := by decide
  blockSize_le _ _ := by decide
  verify_total f hf i data := by
    have hbs : oneByteInfo.descriptor.blockSize .dev = some 1024 := rfl
    rw [hf]
    exact FsEntry.verifyDataBlock_total i data hbs

theorem run_oneByte :
    FsVerityDigest.run (sha256 FsVerityDigest.lengthHash) .dev [] 1024 [[7]] =
      some (oneByteInfo.descriptor, oneByteInfo.merkleTree) := by
  decide +kernel

theorem readFile_genuine_iff_one_byte :
    (∃ fs', (VerityFS.new () 1 1).readFile (memoryStorage oneByteFiles) (2 ^ 30 + 1) oneByteFile
        0 1024 =
      some (.ok (slice (0 : Int64).toInt.toNat
        ((0 : Int64).toInt.toNat + (1024 : UInt32).toNat) [[7]].flatten), fs')) ↔
    (1024 : UInt32) = 0 ∨
      ((0 : Int64).toInt.toNat + (1024 : UInt32).toNat ≤
          1024 * ((([[7]] : List Bytes).flatten.length + 1024 - 1) / 1024) ∧
        1024 * (((0 : Int64).toInt.toNat + (1024 : UInt32).toNat + 1024 - 1) / 1024) < 2 ^ 63) := by
  have hfuel : 2 ^ 30 + (memoryStorageHonest oneByteFiles).budget () < 2 ^ 30 + 1 := by decide
  have hnone : ∀ r ∈ ([] : List VerityFS.Request), r.file ∈ oneByteTable.files := by simp
  exact readFile_genuine_iff run_oneByte (memoryStorageHonest oneByteFiles) oneByteTable rfl rfl
    hnone hfuel rfl (by decide) 1024

/-- A request for a page of that file: its second kilobyte is not there, and cannot be verified. -/
theorem readFile_past_last_block :
    FsVerityDigest.run (sha256 FsVerityDigest.lengthHash) .dev [] 1024 [[7]] =
        some (oneByteInfo.descriptor, oneByteInfo.merkleTree) ∧
      ((VerityFS.new () 8 8).readFile (memoryStorage oneByteFiles) 2 oneByteFile 0 4096).map
        Prod.fst = some (.error EIO) :=
  ⟨run_oneByte, by decide +kernel⟩

end

end CryptPilot.VerityFuse
