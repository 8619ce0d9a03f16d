import CryptPilot.VerityFuse.Verifier

/-!
# `read_file`

The read path of `filesystem.rs`: the blocks that overlap the requested range are taken from the
cache, or read, verified and cached, and the overlapping parts are concatenated.

A call is a function of the state of the file system, and returns the result with the new state;
an error keeps what was cached before it. The state has a ghost component, `verified`: every block
that was read and verified, newest first. It holds what the cache held at any time, also what was
evicted since.

The results here are those that need nothing of the storage: every block used for an answer is a
verified one (`blockData_inv`), and if the verified blocks are the blocks of `D`, the answer is the
requested part of `D` (`readFile_inv`).
-/

namespace CryptPilot.VerityFuse

open CryptPilot.Data CryptPilot.VerityCore

variable {σ η : Type}

/-- The changing parts of `VerityFS`. -/
structure VerityFS (σ η : Type) where
  storage : σ
  blockCache : BlockCache
  handleCache : FileHandlePool η
  verified : List (BlockKey × Bytes)

/-- `u64::div_ceil`. -/
def divCeil (a b : Nat) : Nat := (a + b - 1) / b

namespace VerityFS

/-- A fresh file system, with the given capacities of the block cache and of the handle pool. -/
def new (storage : σ) (blockCacheCapacity handleCacheCapacity : Nat) : VerityFS σ η :=
  ⟨storage, withCapacity blockCacheCapacity, withCapacity handleCacheCapacity, []⟩

/-- `open_file_cached`. The error of `open` is wrapped in one without an error number, which is
then reported as `EIO`. -/
def openFileCached (self : VerityFS σ η) (S : Storage σ η) (file : VerifiableFile) :
    Except Errno η × VerityFS σ η :=
  match self.handleCache.getOrOpen file.ino (S.openFile · file.path) self.storage with
  | (.ok handle, handleCache, storage) =>
    (.ok handle, { self with handleCache := handleCache, storage := storage })
  | (.error _, handleCache, storage) =>
    (.error EIO, { self with handleCache := handleCache, storage := storage })

/-- The data of one block: cached, or read, verified and cached. -/
def blockData (self : VerityFS σ η) (S : Storage σ η) (fuel : Nat) (file : VerifiableFile)
    (handle : η) (blockIdx blockSize : Nat) : Option (Except Errno Bytes × VerityFS σ η) :=
  let key : BlockKey := ⟨file.ino, blockIdx⟩
  match self.blockCache.get key with
  | (some cached, blockCache) => some (.ok cached, { self with blockCache := blockCache })
  | (none, _) =>
    match S.preadFileData fuel handle (blockIdx * blockSize) blockSize self.storage with
    | none => none
    | some (.error e, storage) => some (.error e, { self with storage := storage })
    | some (.ok rawBlock, storage) =>
      match file.verifyDataBlock blockIdx rawBlock with
      | none => none
      | some (.error _) => some (.error EIO, { self with storage := storage })
      | some (.ok ()) =>
        some (.ok rawBlock,
          { self with
            storage := storage
            blockCache := self.blockCache.put key rawBlock
            verified := (key, rawBlock) :: self.verified })

/-- The loop over the blocks. -/
def readBlocks (S : Storage σ η) (fuel : Nat) (file : VerifiableFile) (handle : η)
    (blockSize requestedOffset requestedEnd : Nat) :
    List Nat → Bytes → VerityFS σ η → Option (Except Errno Bytes × VerityFS σ η)
  | [], output, self => some (.ok output, self)
  | blockIdx :: rest, output, self =>
    let blockOffset := blockIdx * blockSize
    let blockEnd := blockOffset + blockSize
    let copyStartInBlock := max requestedOffset blockOffset
    let copyEndInBlock := min requestedEnd blockEnd
    if copyStartInBlock ≥ copyEndInBlock then
      readBlocks S fuel file handle blockSize requestedOffset requestedEnd rest output self
    else
      match self.blockData S fuel file handle blockIdx blockSize with
      | none => none
      | some (.error e, self) => some (.error e, self)
      | some (.ok blockData, self) =>
        let srcStart := copyStartInBlock - blockOffset
        let srcEnd := min (copyEndInBlock - blockOffset) blockData.length
        if srcStart ≥ srcEnd then
          readBlocks S fuel file handle blockSize requestedOffset requestedEnd rest output self
        else
          readBlocks S fuel file handle blockSize requestedOffset requestedEnd rest
            (output ++ slice srcStart srcEnd blockData) self

/-- `read_file`. Sums of a non-negative `i64` and `u32`s do not overflow a `u64`. -/
def readFile (self : VerityFS σ η) (S : Storage σ η) (fuel : Nat) (file : VerifiableFile)
    (offset : Int64) (size : UInt32) : Option (Except Errno Bytes × VerityFS σ η) :=
  if offset < 0 then some (.error EINVAL, self)
  else if size = 0 then some (.ok [], self)
  else
    let requestedOffset := offset.toInt.toNat
    let requestedEnd := requestedOffset + size.toNat
    match file.blockSize with
    | none => none
    | some none => some (.error EISDIR, self)
    | some (some blockSize) =>
      if blockSize = 0 then some (.error EINVAL, self)
      else
        let startBlock := requestedOffset / blockSize
        let endBlock := divCeil requestedEnd blockSize
        let numBlocks := endBlock - startBlock
        match self.openFileCached S file with
        | (.error e, self) => some (.error e, self)
        | (.ok cachedFile, self) =>
          readBlocks S fuel file cachedFile blockSize requestedOffset requestedEnd
            (List.range' startBlock numBlocks) [] self

/-- One request. -/
structure Request where
  file : VerifiableFile
  offset : Int64
  size : UInt32

/-- A sequence of requests: the answers in order, and the state at the end. -/
def run (S : Storage σ η) (fuel : Nat) :
    List Request → VerityFS σ η → Option (List (Except Errno Bytes) × VerityFS σ η)
  | [], self => some ([], self)
  | r :: rest, self => do
    let (answer, self) ← self.readFile S fuel r.file r.offset r.size
    let (answers, self) ← run S fuel rest self
    return (answer :: answers, self)

/-! ## Cached blocks are verified blocks -/

/-- Every cached block is a verified one, and the verified blocks have property `P`. -/
structure Inv (P : BlockKey → Bytes → Prop) (fs : VerityFS σ η) : Prop where
  cached : ∀ e ∈ fs.blockCache.entries, e ∈ fs.verified
  checked : ∀ e ∈ fs.verified, P e.1 e.2

variable {P : BlockKey → Bytes → Prop} {S : Storage σ η} {fuel : Nat} {file : VerifiableFile}

theorem inv_new (s : σ) (blockCap handleCap : Nat) :
    Inv P (new (η := η) s blockCap handleCap) :=
  ⟨by simp [new, withCapacity, Lru.new], by simp [new]⟩

/-- Opening a file leaves the blocks alone. -/
theorem openFileCached_inv {self self' : VerityFS σ η} {r : Except Errno η} (hinv : Inv P self)
    (hopen : self.openFileCached S file = (r, self')) :
    Inv P self' ∧ self'.verified = self.verified := by
  unfold openFileCached at hopen
  split at hopen <;> (cases hopen; exact ⟨⟨hinv.cached, hinv.checked⟩, rfl⟩)

/-- The data of a block is a verified block of the new state. -/
theorem blockData_inv {handle : η} {i B : Nat} {self self' : VerityFS σ η} {r : Except Errno Bytes}
    (hP : ∀ raw, file.verifyDataBlock i raw = some (.ok ()) → P ⟨file.ino, i⟩ raw)
    (hinv : Inv P self) (hr : self.blockData S fuel file handle i B = some (r, self')) :
    Inv P self' ∧ self.verified ⊆ self'.verified ∧
      ∀ v, r = .ok v → (⟨file.ino, i⟩, v) ∈ self'.verified := by
  unfold blockData at hr
  dsimp only at hr
  split at hr
  · next cached blockCache hget =>
    obtain ⟨hmem, hsame⟩ := Lru.get_eq_some hget
    cases hr
    refine ⟨⟨fun e he => hinv.cached e ((hsame e).mp he), hinv.checked⟩, List.Subset.refl _, ?_⟩
    intro v hv
    cases hv
    exact hinv.cached _ hmem
  · split at hr
    · cases hr
    · cases hr
      exact ⟨⟨hinv.cached, hinv.checked⟩, List.Subset.refl _, fun v hv => by cases hv⟩
    · next raw storage hread =>
      split at hr
      · cases hr
      · cases hr
        exact ⟨⟨hinv.cached, hinv.checked⟩, List.Subset.refl _, fun v hv => by cases hv⟩
      · next hok =>
        cases hr
        refine ⟨⟨?_, ?_⟩, List.subset_cons_self _ _, ?_⟩
        · intro e he
          rcases Lru.mem_entries_put he with rfl | he
          · exact List.mem_cons_self
          · exact List.mem_cons_of_mem _ (hinv.cached e he)
        · intro e he
          rcases List.mem_cons.mp he with rfl | he
          · exact hP raw hok
          · exact hinv.checked e he
        · intro v hv
          cases hv
          exact List.mem_cons_self

/-- One step of the loop, for a block that overlaps the range. -/
theorem readBlocks_cons {handle : η} {B lo hi i : Nat} {rest : List Nat} {output : Bytes}
    {self : VerityFS σ η} (hover : max lo (i * B) < min hi (i * B + B)) :
    readBlocks S fuel file handle B lo hi (i :: rest) output self =
      match self.blockData S fuel file handle i B with
      | none => none
      | some (.error e, self) => some (.error e, self)
      | some (.ok block, self) =>
        readBlocks S fuel file handle B lo hi rest
          (output ++ slice (max lo (i * B) - i * B) (min hi (i * B + B) - i * B) block) self := by
  rw [readBlocks]
  dsimp only
  rw [if_neg (Nat.not_le.mpr hover)]
  split
  · rfl
  · rfl
  · next block self' _ =>
    -- clamping to the length of the block does not change what is copied
    rw [slice_min_length]
    split
    · next hge => rw [← slice_min_length, slice_eq_nil hge, List.append_nil]
    · rfl

/-- The blocks below `divCeil n B` are those that start before `n`. -/
theorem lt_divCeil_iff {B n i : Nat} (hB : 0 < B) : i < divCeil n B ↔ i * B < n := by
  rw [divCeil, ← Nat.succ_le_iff, Nat.le_div_iff_mul_le hB, Nat.succ_mul]
  omega

theorem le_divCeil_mul {B : Nat} (hB : 0 < B) (n : Nat) : n ≤ divCeil n B * B :=
  Nat.le_of_not_lt fun h => Nat.lt_irrefl _ ((lt_divCeil_iff hB).mpr h)

/-- Every block of the requested range overlaps it. -/
theorem overlap {B lo hi i : Nat} (hB : 0 < B) (hlohi : lo < hi)
    (hi' : i ∈ List.range' (lo / B) (divCeil hi B - lo / B)) :
    max lo (i * B) < min hi (i * B + B) := by
  obtain ⟨hge, hlt⟩ := List.mem_range'_1.mp hi'
  have hstart : lo < i * B + B := by
    have h1 := Nat.lt_mul_div_succ lo hB
    have h2 := Nat.mul_le_mul_left B hge
    rw [Nat.mul_add, Nat.mul_one] at h1
    rw [Nat.mul_comm i B]
    omega
  have hend : i * B < hi := (lt_divCeil_iff hB).mp (by omega)
  omega

theorem div_le_divCeil {B lo hi : Nat} (hlohi : lo ≤ hi) : lo / B ≤ divCeil hi B := by
  rcases Nat.eq_zero_or_pos B with rfl | hB
  · simp
  · exact Nat.div_le_div_right (by omega)

/-! ## What a call and a run return -/

/-- The loop keeps the invariant, and forgets no verified block. -/
theorem readBlocks_inv {handle : η} {B lo hi : Nat} {r : Except Errno Bytes}
    {self' : VerityFS σ η}
    (hP : ∀ i raw, file.verifyDataBlock i raw = some (.ok ()) → P ⟨file.ino, i⟩ raw)
    (idxs : List Nat) : ∀ (output : Bytes) (self : VerityFS σ η), Inv P self →
      readBlocks S fuel file handle B lo hi idxs output self = some (r, self') →
      Inv P self' ∧ self.verified ⊆ self'.verified := by
  induction idxs with
  | nil =>
    intro output self hinv hr
    cases hr
    exact ⟨hinv, List.Subset.refl _⟩
  | cons i rest ih =>
    intro output self hinv hr
    rw [readBlocks] at hr
    dsimp only at hr
    split at hr
    · exact ih output self hinv hr
    · split at hr
      · cases hr
      · next e self₁ hblock =>
        cases hr
        obtain ⟨hinv₁, hsub, -⟩ := blockData_inv (hP i) hinv hblock
        exact ⟨hinv₁, hsub⟩
      · next block self₁ hblock =>
        obtain ⟨hinv₁, hsub, -⟩ := blockData_inv (hP i) hinv hblock
        split at hr
        all_goals
          obtain ⟨hinv', hsub'⟩ := ih _ self₁ hinv₁ hr
          exact ⟨hinv', List.Subset.trans hsub hsub'⟩

/-- If the verified blocks of the file are blocks of `D`, the loop puts a slice of `D` together. -/
theorem readBlocks_output {handle : η} {B lo hi : Nat} {D out : Bytes} {self' : VerityFS σ η}
    (hP : ∀ i raw, file.verifyDataBlock i raw = some (.ok ()) → P ⟨file.ino, i⟩ raw)
    (hD : ∀ i v, (⟨file.ino, i⟩, v) ∈ self'.verified → v = dataBlock B D i) (n : Nat) :
    ∀ (i : Nat) (output : Bytes) (self : VerityFS σ η), Inv P self →
      (∀ j ∈ List.range' i n, max lo (j * B) < min hi (j * B + B)) →
      output = slice lo (min hi (i * B)) D →
      readBlocks S fuel file handle B lo hi (List.range' i n) output self =
        some (.ok out, self') →
      out = slice lo (min hi ((i + n) * B)) D := by
  induction n with
  | zero =>
    intro i output self _ _ hout hr
    cases hr
    exact hout
  | succ n ih =>
    intro i output self hinv hover hout hr
    have hover_i := hover i (by simp)
    rw [List.range'_succ, readBlocks_cons hover_i] at hr
    split at hr
    · cases hr
    · cases hr
    · next block self₁ hblock =>
      obtain ⟨hinv₁, -, hmem⟩ := blockData_inv (hP i) hinv hblock
      obtain ⟨-, hsub⟩ := readBlocks_inv hP _ _ self₁ hinv₁ hr
      have hdata : block = dataBlock B D i := hD i block (hsub (hmem block rfl))
      have hlater : ∀ j ∈ List.range' (i + 1) n, max lo (j * B) < min hi (j * B + B) := by
        intro j hj
        exact hover j (by rw [List.range'_succ]; exact List.mem_cons_of_mem _ hj)
      rw [show i + (n + 1) = i + 1 + n by omega]
      refine ih (i + 1) _ self₁ hinv₁ hlater ?_ hr
      rw [hout, hdata, dataBlock, slice_piece (by omega) (by omega), slice_step (by omega),
        Nat.succ_mul]

/-- Unfolds a request that gets as far as opening the file. -/
theorem readFile_eq {offset : Int64} {size : UInt32} {B : Nat} {self : VerityFS σ η}
    (hoff : ¬ offset < 0) (hsize : size ≠ 0) (hbs : file.blockSize = some (some B)) (hB : B ≠ 0) :
    self.readFile S fuel file offset size =
      match self.openFileCached S file with
      | (.error e, self) => some (.error e, self)
      | (.ok cachedFile, self) =>
        readBlocks S fuel file cachedFile B offset.toInt.toNat
          (offset.toInt.toNat + size.toNat)
          (List.range' (offset.toInt.toNat / B)
            (divCeil (offset.toInt.toNat + size.toNat) B - offset.toInt.toNat / B)) [] self := by
  simp only [readFile, if_neg hoff, if_neg hsize, hbs, if_neg hB]

theorem toNat_pos_of_ne_zero {size : UInt32} (hsize : size ≠ 0) : 0 < size.toNat := by
  rw [Nat.pos_iff_ne_zero]
  exact fun h0 => hsize (UInt32.toNat_inj.mp h0)

/-- What a call can do: nothing at all, fail to open the file, or go through the blocks. -/
theorem readFile_cases {offset : Int64} {size : UInt32} {r : Except Errno Bytes}
    {self self' : VerityFS σ η} (hr : self.readFile S fuel file offset size = some (r, self')) :
    (self' = self ∧ ((size = 0 ∧ r = .ok []) ∨ ∃ e, r = .error e)) ∨
    (∃ e, self.openFileCached S file = (.error e, self') ∧ r = .error e) ∨
    ∃ B handle self₁, 0 < B ∧ 0 < size.toNat ∧ file.blockSize = some (some B) ∧
      self.openFileCached S file = (.ok handle, self₁) ∧
      readBlocks S fuel file handle B offset.toInt.toNat (offset.toInt.toNat + size.toNat)
        (List.range' (offset.toInt.toNat / B)
          (divCeil (offset.toInt.toNat + size.toNat) B - offset.toInt.toNat / B)) [] self₁ =
        some (r, self') := by
  unfold readFile at hr
  split at hr
  · cases hr
    exact Or.inl ⟨rfl, Or.inr ⟨_, rfl⟩⟩
  · split at hr
    · next hsize =>
      cases hr
      exact Or.inl ⟨rfl, Or.inl ⟨hsize, rfl⟩⟩
    · next hsize =>
      have hpos := toNat_pos_of_ne_zero hsize
      dsimp only at hr
      split at hr
      · cases hr
      · cases hr
        exact Or.inl ⟨rfl, Or.inr ⟨_, rfl⟩⟩
      · next B hbs =>
        split at hr
        · cases hr
          exact Or.inl ⟨rfl, Or.inr ⟨_, rfl⟩⟩
        · next hB =>
          split at hr
          · next e self₁ hopen =>
            cases hr
            exact Or.inr (Or.inl ⟨e, hopen, rfl⟩)
          · next handle self₁ hopen =>
            exact Or.inr (Or.inr ⟨B, handle, self₁, by omega, hpos, hbs, hopen, hr⟩)

/-- A call keeps the invariant, and forgets no verified block. -/
theorem readFile_inv {offset : Int64} {size : UInt32} {r : Except Errno Bytes}
    {self self' : VerityFS σ η}
    (hP : ∀ i raw, file.verifyDataBlock i raw = some (.ok ()) → P ⟨file.ino, i⟩ raw)
    (hinv : Inv P self) (hr : self.readFile S fuel file offset size = some (r, self')) :
    Inv P self' ∧ self.verified ⊆ self'.verified := by
  rcases readFile_cases hr with ⟨rfl, -⟩ | ⟨e, hopen, -⟩ | ⟨B, handle, self₁, -, -, -, hopen, hr⟩
  · exact ⟨hinv, List.Subset.refl _⟩
  · obtain ⟨hinv', hver⟩ := openFileCached_inv hinv hopen
    exact ⟨hinv', hver ▸ List.Subset.refl _⟩
  · obtain ⟨hinv₁, hver⟩ := openFileCached_inv hinv hopen
    obtain ⟨hinv', hsub⟩ := readBlocks_inv hP _ _ self₁ hinv₁ hr
    exact ⟨hinv', hver ▸ hsub⟩

/-- If the verified blocks of the file are blocks of `D`, a call that succeeds returns the requested
part of `D`. -/
theorem readFile_output {offset : Int64} {size : UInt32} {D out : Bytes}
    {self self' : VerityFS σ η}
    (hP : ∀ i raw, file.verifyDataBlock i raw = some (.ok ()) → P ⟨file.ino, i⟩ raw)
    (hinv : Inv P self)
    (hD : ∀ B, 0 < B → file.blockSize = some (some B) →
      ∀ i v, (⟨file.ino, i⟩, v) ∈ self'.verified → v = dataBlock B D i)
    (hr : self.readFile S fuel file offset size = some (.ok out, self')) :
    out = slice offset.toInt.toNat (offset.toInt.toNat + size.toNat) D := by
  rcases readFile_cases hr with ⟨-, ⟨rfl, hout⟩ | ⟨e, he⟩⟩ | ⟨e, -, he⟩ |
    ⟨B, handle, self₁, hB, hsize, hbs, hopen, hr⟩
  · cases hout
    exact (slice_eq_nil (by simp) D).symm
  · cases he
  · cases he
  · obtain ⟨hinv₁, -⟩ := openFileCached_inv hinv hopen
    have hout := readBlocks_output hP (hD B hB hbs) _ _ [] self₁ hinv₁
      (fun j hj => overlap hB (by omega) hj)
      (slice_eq_nil (Nat.le_trans (Nat.min_le_right _ _) (Nat.div_mul_le_self _ _)) D).symm hr
    rw [Nat.add_sub_of_le (div_le_divCeil (by omega)),
      Nat.min_eq_left (le_divCeil_mul hB _)] at hout
    exact hout

/-- What a run of requests on files keeps, and what its successful answers are. -/
theorem run_inv {D : VerifiableFile → Bytes} {reqs : List Request} :
    ∀ {self : VerityFS σ η} {answers : List (Except Errno Bytes)} {self' : VerityFS σ η},
    (∀ r ∈ reqs, ∀ i raw, r.file.verifyDataBlock i raw = some (.ok ()) → P ⟨r.file.ino, i⟩ raw) →
    Inv P self → run S fuel reqs self = some (answers, self') →
    Inv P self' ∧ self.verified ⊆ self'.verified ∧
      ((∀ r ∈ reqs, ∀ B, 0 < B → r.file.blockSize = some (some B) →
          ∀ i v, (⟨r.file.ino, i⟩, v) ∈ self'.verified → v = dataBlock B (D r.file) i) →
        ∀ (k : Nat) (r : Request) (out : Bytes), reqs[k]? = some r → answers[k]? = some (.ok out) →
          out = slice r.offset.toInt.toNat (r.offset.toInt.toNat + r.size.toNat) (D r.file)) := by
  induction reqs with
  | nil =>
    intro self answers self' _ hinv hr
    cases hr
    exact ⟨hinv, List.Subset.refl _, fun _ k r out hk => by simp at hk⟩
  | cons r rest ih =>
    intro self answers self' hP hinv hr
    obtain ⟨⟨answer, self₁⟩, hread, hr⟩ := Option.bind_eq_some_iff.mp hr
    obtain ⟨⟨answers', self₂⟩, hrest, hr⟩ := Option.bind_eq_some_iff.mp hr
    cases hr
    have hPr := hP r List.mem_cons_self
    obtain ⟨hinv₁, hsub₁⟩ := readFile_inv hPr hinv hread
    obtain ⟨hinv', hsub', hout⟩ := ih (fun r' hr' => hP r' (List.mem_cons_of_mem _ hr')) hinv₁ hrest
    refine ⟨hinv', List.Subset.trans hsub₁ hsub', ?_⟩
    intro hD k r' out hk hans
    cases k with
    | zero =>
      cases hk
      rw [List.getElem?_cons_zero, Option.some.injEq] at hans
      subst hans
      refine readFile_output hPr hinv ?_ hread
      exact fun B hB hbs i v hv => hD r List.mem_cons_self B hB hbs i v (hsub' hv)
    | succ k =>
      exact hout (fun r' hr' => hD r' (List.mem_cons_of_mem _ hr')) k r' out hk hans

end VerityFS

end CryptPilot.VerityFuse
