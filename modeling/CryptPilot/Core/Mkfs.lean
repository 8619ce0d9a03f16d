import CryptPilot.Core.Blktrace
import CryptPilot.Core.Operations
import CryptPilot.Data.Pages
import CryptPilot.Data.Prog

/-!
# A file system on a device with integrity

`IntegrityNoWipeMakeFs` of `fs/mkfs.rs`. A new device with integrity has no valid checksums, so
reading a sector that was not written before fails. To wipe all of it would take long. Instead `mkfs`
and `blkid` are run on a dummy device of the same size, with `blktrace` recording what they read and
write, and the pages they touch are copied to the real device.

After a run that succeeds, what the recorded events touch is on the real device as on the dummy, and
nothing else has changed (`forceMkfs_replays`). Events that the kernel has dropped are counted, but
the count is not used. So what they touch is copied only if other events touch the same pages
(`forceMkfs_copied_iff`).
-/

namespace CryptPilot.Core.Mkfs

open CryptPilot.Data CryptPilot.Data.Prog CryptPilot.Data.Pages CryptPilot.Core.Blktrace

/-! ## The pages that were touched -/

section
variable (pageSize : Nat)

/-- Whether an event counts. Discards do not. -/
def counts (event : BlkTraceEvent) : Bool :=
  !event.isDiscard && (event.isRead || event.isWrite)

/-- The interval of bytes that an event touches, in the arithmetic of `u64`. -/
def bytesStart (event : BlkTraceEvent) : Nat := event.event.sector * 512 % 2 ^ 64

def bytesEnd (event : BlkTraceEvent) : Nat := (bytesStart event + event.event.bytes) % 2 ^ 64

/-- The loop over the pages of one event. -/
def addPositions (positions : List Nat) (event : BlkTraceEvent) : List Nat :=
  if counts event then
    (pagesOf pageSize (bytesStart event) (bytesEnd event)).foldl insertNew positions
  else positions

/-- `rw_positions`. -/
def rwPositions (events : List BlkTraceEvent) : List Nat := events.foldl (addPositions pageSize) []

end

/-! ## The code -/

/-- What is done to the devices. -/
inductive Op where
  | deviceSize
  | setupDummy (deviceSize blockSize : Nat)
  | monitor
  | mkfs (fsType : MakeFsType)
  | blkid
  | shutdown
  | pageSize
  | openDummy
  | openReal
  | seekDummy (offset : Nat)
  | seekReal (offset : Nat)
  | readExactDummy (n : Nat)
  | writeAllReal (buf : Bytes)
  | flushReal
  deriving DecidableEq

/-- What an operation gives if it does not fail. -/
@[reducible] def Answer : Op → Type
  | .deviceSize => Nat × Nat
  | .shutdown => List BlkTraceEvent × Nat
  | .pageSize => Nat
  | .readExactDummy _ => Bytes
  | _ => Unit

@[reducible] def Res (op : Op) : Type := Except String (Answer op)

/-- Calls an operation, and stops if it fails. -/
def act (op : Op) : Prog Op Res (Answer op) := .step op .done

/-- Copies one page. -/
def migratePage (pageSize page : Nat) : Prog Op Res Unit := do
  act (.seekDummy (page * pageSize))
  act (.seekReal (page * pageSize))
  let buf ← act (.readExactDummy pageSize)
  act (.writeAllReal buf)

def migrate (pageSize : Nat) : List Nat → Prog Op Res Unit
  | [] => pure ()
  | page :: pages => do
    migratePage pageSize page
    migrate pageSize pages

/-- `IntegrityNoWipeMakeFs::force_mkfs`. -/
def forceMkfs (fsType : MakeFsType) : Prog Op Res Unit := do
  let (deviceSize, blockSize) ← act .deviceSize
  context "Failed to create dummy device" (act (.setupDummy deviceSize blockSize))
  act .monitor
  act (.mkfs fsType)
  act .blkid
  let (events, _) ← act .shutdown
  let pageSize ← act .pageSize
  context "Failed to migrate data from tmp device to the real device" do
    act .openDummy
    act .openReal
    migrate pageSize (rwPositions pageSize events)
    act .flushReal

/-! ## The devices -/

/-- The dummy and the real device with the positions in them, the operations that were performed
while they were recorded, and those of them that were delivered as events. `writes` is what was
written to the real device, and where. -/
structure Devices where
  dummy : Bytes
  real : Bytes
  dummyPos : Nat
  realPos : Nat
  pageSize : Nat
  performed : List BlkTraceEvent
  delivered : List BlkTraceEvent
  writes : List (Nat × Bytes)

/-- What an operation does if it does not fail.
* `mkfs` and `blkid` perform any operations on the dummy device, and `mkfs` may write to it.
* Any of the operations may be missing among the events, but then the kernel has counted a drop. -/
def effect (s : Devices) : (op : Op) → Answer op → Devices → Prop
  | .deviceSize, (deviceSize, _), s' => deviceSize = s.real.length ∧ s' = s
  | .setupDummy deviceSize _, _, s' => s' = { s with dummy := List.replicate deviceSize 0 }
  | .monitor, _, s' => s' = { s with performed := [] }
  | .mkfs _, _, s' => ∃ dummy events, dummy.length = s.dummy.length ∧
      s' = { s with dummy := dummy, performed := s.performed ++ events }
  | .blkid, _, s' => ∃ events, s' = { s with performed := s.performed ++ events }
  | .shutdown, (events, dropped), s' => events.Sublist s.performed ∧
      (events ≠ s.performed → 0 < dropped) ∧ s' = { s with delivered := events }
  | .pageSize, pageSize, s' => pageSize = s.pageSize ∧ s' = s
  | .openDummy, _, s' => s' = { s with dummyPos := 0 }
  | .openReal, _, s' => s' = { s with realPos := 0 }
  | .seekDummy offset, _, s' => s' = { s with dummyPos := offset }
  | .seekReal offset, _, s' => s' = { s with realPos := offset }
  | .readExactDummy n, buf, s' => s.dummyPos + n ≤ s.dummy.length ∧
      buf = slice s.dummyPos (s.dummyPos + n) s.dummy ∧ s' = { s with dummyPos := s.dummyPos + n }
  | .writeAllReal buf, _, s' => s.realPos + buf.length ≤ s.real.length ∧
      s' = { s with
        real := overwrite s.realPos buf s.real
        realPos := s.realPos + buf.length
        writes := s.writes ++ [(s.realPos, buf)] }
  | .flushReal, _, s' => s' = s

/-- After a failure, the devices may be in any state. -/
def sem (s : Devices) (op : Op) (r : Res op) (s' : Devices) : Prop :=
  ∀ answer, r = .ok answer → effect s op answer s'

theorem sem_ok {s s' : Devices} {op : Op} {answer : Answer op} (h : effect s op answer s') :
    sem s op (.ok answer) s' := by
  rintro _ ⟨⟩
  exact h

/-- There is no condition on the calls. -/
def anyCall (_ : Devices) (_ : Op) : Prop := True

theorem ensures_act (s : Devices) (op : Op) : (act op).Ensures sem anyCall (effect s op) s :=
  ⟨trivial, fun _ _ hsem answer hr => hsem answer hr⟩

/-- One page: what is written is what was read, at the same offset. -/
theorem ensures_migratePage (s : Devices) (pageSize page : Nat) :
    (migratePage pageSize page).Ensures sem anyCall (fun _ s' =>
      page * pageSize + pageSize ≤ s.dummy.length ∧ page * pageSize + pageSize ≤ s.real.length ∧
      s' = { s with
        real := copyPage pageSize s.dummy s.real page
        dummyPos := page * pageSize + pageSize
        realPos := page * pageSize + pageSize
        writes := s.writes ++ [(page * pageSize,
          slice (page * pageSize) (page * pageSize + pageSize) s.dummy)] }) s := by
  refine .bind (ensures_act _ _) fun _ s₁ hs₁ => ?_
  obtain rfl : s₁ = { s with dummyPos := page * pageSize } := hs₁
  refine .bind (ensures_act _ _) fun _ s₂ hs₂ => ?_
  obtain rfl : s₂ = { s with dummyPos := page * pageSize, realPos := page * pageSize } := hs₂
  refine .bind (ensures_act _ _) fun buf s₃ hs₃ => ?_
  obtain ⟨hdummy, rfl, rfl⟩ := hs₃
  refine (ensures_act _ _).mono fun _ s₄ hs₄ => ?_
  obtain ⟨hreal, rfl⟩ := hs₄
  dsimp only at hdummy hreal ⊢
  rw [length_slice_page hdummy] at hreal ⊢
  exact ⟨hdummy, hreal, rfl⟩

/-- What the devices have in common before and after pages are copied. -/
structure Migrated (s s' : Devices) (pageSize : Nat) (pages : List Nat) : Prop where
  fits_dummy : ∀ page ∈ pages, page * pageSize + pageSize ≤ s.dummy.length
  fits_real : ∀ page ∈ pages, page * pageSize + pageSize ≤ s.real.length
  dummy_eq : s'.dummy = s.dummy
  real_eq : s'.real = copyPages pageSize s.dummy s.real pages
  writes_eq : s'.writes = s.writes ++ pages.map fun page =>
    (page * pageSize, slice (page * pageSize) (page * pageSize + pageSize) s.dummy)
  performed_eq : s'.performed = s.performed
  delivered_eq : s'.delivered = s.delivered

/-- **The loop** copies one page after the other. -/
theorem ensures_migrate (s : Devices) (pageSize : Nat) (pages : List Nat) :
    (migrate pageSize pages).Ensures sem anyCall (fun _ s' => Migrated s s' pageSize pages) s := by
  induction pages generalizing s with
  | nil =>
    exact ensures_pure.mpr
      ⟨by simp, by simp, rfl, rfl, (List.append_nil s.writes).symm, rfl, rfl⟩
  | cons page pages ih =>
    refine .bind (ensures_migratePage s pageSize page) ?_
    rintro _ s₁ ⟨hdummy, hreal, rfl⟩
    refine (ih _).mono fun _ s' h => ?_
    have hlen := length_copyPage hdummy hreal
    exact
      { fits_dummy := List.forall_mem_cons.mpr ⟨hdummy, h.fits_dummy⟩
        fits_real := List.forall_mem_cons.mpr ⟨hreal, hlen ▸ h.fits_real⟩
        dummy_eq := h.dummy_eq
        real_eq := h.real_eq
        writes_eq := by rw [h.writes_eq, List.append_assoc]; rfl
        performed_eq := h.performed_eq
        delivered_eq := h.delivered_eq }

/-- What a run that succeeds has done: the pages of the delivered events were copied. -/
theorem ensures_forceMkfs (s : Devices) (fsType : MakeFsType) :
    (forceMkfs fsType).Ensures sem anyCall (fun _ s' => s'.delivered.Sublist s'.performed ∧
      ∃ s₀ : Devices, s₀.real = s.real ∧ s₀.writes = s.writes ∧
        Migrated s₀ s' s.pageSize (rwPositions s.pageSize s'.delivered)) s := by
  refine .bind (ensures_act _ _) ?_
  rintro ⟨deviceSize, blockSize⟩ s₁ ⟨rfl, rfl⟩
  refine .bind (.context (ensures_act _ _)) ?_
  rintro - s₂ ⟨⟩
  refine .bind (ensures_act _ _) ?_
  rintro - s₃ ⟨⟩
  refine .bind (ensures_act _ _) ?_
  rintro - s₄ ⟨dummy, events, -, rfl⟩
  refine .bind (ensures_act _ _) ?_
  rintro - s₅ ⟨events', rfl⟩
  refine .bind (ensures_act _ _) ?_
  rintro ⟨delivered, dropped⟩ t ⟨hdelivered, -, ht⟩
  have hreal : t.real = s₁.real := by rw [ht]
  have hwrites : t.writes = s₁.writes := by rw [ht]
  have hpage : t.pageSize = s₁.pageSize := by rw [ht]
  obtain rfl : t.delivered = delivered := by rw [ht]
  have hsub : t.delivered.Sublist t.performed := by
    rw [ht]
    exact hdelivered
  -- the rest only has to do with `t`
  clear ht
  refine .bind (ensures_act _ _) ?_
  rintro pageSize s₇ ⟨rfl, rfl⟩
  refine .context (.bind (ensures_act _ _) ?_)
  rintro - s₈ ⟨⟩
  refine .bind (ensures_act _ _) ?_
  rintro - s₉ ⟨⟩
  refine .bind (ensures_migrate _ _ _) fun _ s' h => ?_
  refine (ensures_act _ _).mono ?_
  rintro - s'' ⟨⟩
  rw [h.delivered_eq, h.performed_eq, ← hpage]
  exact ⟨hsub, { s₇ with dummyPos := 0, realPos := 0 }, hreal, hwrites, h⟩

/-! ## Bytes and pages -/

/-- An event inside a device of some size. -/
def Inside (size : Nat) (event : BlkTraceEvent) : Prop :=
  event.event.sector * 512 + event.event.bytes ≤ size

/-- A byte that an event reads or writes. -/
def Touches (event : BlkTraceEvent) (b : Nat) : Prop :=
  counts event = true ∧ event.event.sector * 512 ≤ b ∧
    b < event.event.sector * 512 + event.event.bytes

/-- A byte of the pages that an event reads or writes. -/
def Covers (pageSize : Nat) (event : BlkTraceEvent) (b : Nat) : Prop :=
  counts event = true ∧ event.event.sector * 512 / pageSize * pageSize ≤ b ∧
    b < (event.event.sector * 512 + event.event.bytes + pageSize - 1) / pageSize * pageSize

/-- The writes that a byte is part of. -/
def writesAt (writes : List (Nat × Bytes)) (b : Nat) : List (Nat × Bytes) :=
  writes.filter fun w => decide (w.1 ≤ b ∧ b < w.1 + w.2.length)

/-- The byte was written, with its value on the dummy. -/
def Copied (s : Devices) (b : Nat) : Prop :=
  ∃ w ∈ writesAt s.writes b, w.2[b - w.1]? = s.dummy[b]?

section
variable {pageSize page size b : Nat} {event : BlkTraceEvent} {events : List BlkTraceEvent}

theorem mem_foldl_addPositions {positions : List Nat} :
    page ∈ events.foldl (addPositions pageSize) positions ↔ page ∈ positions ∨
      ∃ event ∈ events, counts event = true ∧
        page ∈ pagesOf pageSize (bytesStart event) (bytesEnd event) := by
  induction events generalizing positions with
  | nil => simp
  | cons event events ih =>
    rw [List.foldl_cons, ih, addPositions]
    split_ifs with hcounts
    · simp [mem_foldl_insertNew, or_assoc, hcounts]
    · simp [hcounts]

theorem nodup_rwPositions : (rwPositions pageSize events).Nodup := by
  refine List.foldlRecOn events _ List.nodup_nil fun positions h event _ => ?_
  rw [addPositions]
  split_ifs
  · exact nodup_foldl_insertNew h _
  · exact h

/-- The arithmetic does not overflow for an event inside a device. -/
theorem mem_pagesOf_bytes (hsize : size < 2 ^ 64) (hinside : Inside size event) :
    page ∈ pagesOf pageSize (bytesStart event) (bytesEnd event) ↔
      page ∈ pagesOf pageSize (event.event.sector * 512)
        (event.event.sector * 512 + event.event.bytes) := by
  rw [Inside] at hinside
  rw [bytesEnd, bytesStart, Nat.mod_eq_of_lt (by omega), Nat.mod_eq_of_lt (by omega)]

theorem div_mem_pagesOf_iff (hpage : 0 < pageSize) {start stop : Nat} :
    b / pageSize ∈ pagesOf pageSize start stop ↔
      start / pageSize * pageSize ≤ b ∧ b < (stop + pageSize - 1) / pageSize * pageSize := by
  rw [pagesOf, List.mem_range'_1, ← Nat.le_div_iff_mul_le hpage, ← Nat.div_lt_iff_lt_mul hpage]
  omega

theorem div_mem_rwPositions (hpage : 0 < pageSize) (hsize : size < 2 ^ 64)
    (hinside : ∀ event ∈ events, Inside size event) :
    b / pageSize ∈ rwPositions pageSize events ↔ ∃ event ∈ events, Covers pageSize event b := by
  rw [rwPositions, mem_foldl_addPositions]
  simp only [List.not_mem_nil, false_or]
  refine exists_congr fun event => and_congr_right fun hmem => and_congr_right fun _ => ?_
  rw [mem_pagesOf_bytes hsize (hinside event hmem)]
  exact div_mem_pagesOf_iff hpage

theorem covers_iff (hpage : 0 < pageSize) (hbytes : 0 < event.event.bytes) :
    Covers pageSize event b ↔ ∃ b', Touches event b' ∧ b' / pageSize = b / pageSize := by
  rw [Covers, ← div_mem_pagesOf_iff hpage, mem_pagesOf_iff hpage (by omega)]
  simp only [Touches, and_assoc, exists_and_left]

theorem writesAt_map (hpage : 0 < pageSize) {dummy : Bytes} {pages : List Nat}
    (hnodup : pages.Nodup) (hfits : ∀ page ∈ pages, page * pageSize + pageSize ≤ dummy.length) :
    writesAt (pages.map fun page =>
        (page * pageSize, slice (page * pageSize) (page * pageSize + pageSize) dummy)) b =
      if b / pageSize ∈ pages then
        [(b / pageSize * pageSize,
          slice (b / pageSize * pageSize) (b / pageSize * pageSize + pageSize) dummy)]
      else [] := by
  have hsame : ∀ page ∈ pages,
      decide (page * pageSize ≤ b ∧ b < page * pageSize +
        (slice (page * pageSize) (page * pageSize + pageSize) dummy).length) =
      (page == b / pageSize) := by
    intro page hmem
    rw [length_slice_page (hfits page hmem), beq_eq_decide, decide_eq_decide, eq_comm,
      Nat.div_eq_iff hpage]
    omega
  rw [writesAt, List.filter_map]
  simp only [Function.comp_def]
  rw [List.filter_congr hsame, List.filter_beq]
  split_ifs with hmem
  · rw [List.count_eq_one_of_mem hnodup hmem]
    rfl
  · rw [List.count_eq_zero_of_not_mem hmem]
    rfl

end

section
variable {s s' : Devices} {pageSize b : Nat} {pages : List Nat}

theorem Migrated.getElem?_real (h : Migrated s s' pageSize pages) (hpage : 0 < pageSize) :
    s'.real[b]? = if b / pageSize ∈ pages then s'.dummy[b]? else s.real[b]? := by
  rw [h.real_eq, h.dummy_eq]
  exact getElem?_copyPages hpage h.fits_dummy h.fits_real b

theorem Migrated.writesAt_eq (h : Migrated s s' pageSize pages) (hpage : 0 < pageSize)
    (hnodup : pages.Nodup) (hwrites : s.writes = []) :
    writesAt s'.writes b = if b / pageSize ∈ pages then
        [(b / pageSize * pageSize,
          slice (b / pageSize * pageSize) (b / pageSize * pageSize + pageSize) s'.dummy)]
      else [] := by
  rw [h.writes_eq, h.dummy_eq, hwrites, List.nil_append]
  exact writesAt_map hpage hnodup h.fits_dummy

theorem Migrated.copied_iff (h : Migrated s s' pageSize pages) (hpage : 0 < pageSize)
    (hnodup : pages.Nodup) (hwrites : s.writes = []) :
    Copied s' b ↔ b / pageSize ∈ pages := by
  rw [Copied, h.writesAt_eq hpage hnodup hwrites]
  split_ifs with hmem
  · have hle : b / pageSize * pageSize ≤ b := Nat.div_mul_le_self b pageSize
    have hlt : b < b / pageSize * pageSize + pageSize := Nat.lt_div_mul_add hpage
    refine iff_of_true ⟨_, List.mem_singleton_self _, ?_⟩ hmem
    rw [slice, List.getElem?_drop, Nat.add_sub_cancel' hle, List.getElem?_take_of_lt hlt]
  · simp [hmem]

end

/-! ## Runs that succeed -/

section
variable {fsType : MakeFsType} {s s' : Devices} {es : List (Event Op Res)}

theorem migrated_of_run (hpath : Prog.Path (forceMkfs fsType) es (.done (.ok ())))
    (hsteps : Steps sem s es s') :
    s'.delivered.Sublist s'.performed ∧
      ∃ s₀ : Devices, s₀.real = s.real ∧ s₀.writes = s.writes ∧
        Migrated s₀ s' s.pageSize (rwPositions s.pageSize s'.delivered) :=
  ((ensures_forceMkfs s fsType).path hpath hsteps).1 () rfl

/-! A device with three pages. `mkfs` writes two of them, and the event for the first one is lost.
`blkid` reads the third. -/

def pageEvent (action page : Nat) : BlkTraceEvent where
  event := ⟨magicNumber, 0, 0, 8 * page, 4096, action, 0, 0, 0, 0, 0⟩
  data := []

def pageRead : Nat → BlkTraceEvent := pageEvent (1 <<< 16)

def pageWrite : Nat → BlkTraceEvent := pageEvent (1 <<< 17)

/-- A page that has one byte everywhere. -/
def pageOf (byte : UInt8) : Bytes := List.replicate 4096 byte

def unformatted : Devices := ⟨[], pageOf 9 ++ pageOf 9 ++ pageOf 9, 0, 0, 4096, [], [], []⟩

def lossyCalls : List (Event Op Res) :=
  [⟨.deviceSize, .ok (12288, 512)⟩, ⟨.setupDummy 12288 512, .ok ()⟩, ⟨.monitor, .ok ()⟩,
    ⟨.mkfs .ext4, .ok ()⟩, ⟨.blkid, .ok ()⟩, ⟨.shutdown, .ok ([pageWrite 1, pageRead 2], 1)⟩,
    ⟨.pageSize, .ok 4096⟩, ⟨.openDummy, .ok ()⟩, ⟨.openReal, .ok ()⟩,
    ⟨.seekDummy 4096, .ok ()⟩, ⟨.seekReal 4096, .ok ()⟩, ⟨.readExactDummy 4096, .ok (pageOf 1)⟩,
    ⟨.writeAllReal (pageOf 1), .ok ()⟩,
    ⟨.seekDummy 8192, .ok ()⟩, ⟨.seekReal 8192, .ok ()⟩, ⟨.readExactDummy 4096, .ok (pageOf 0)⟩,
    ⟨.writeAllReal (pageOf 0), .ok ()⟩, ⟨.flushReal, .ok ()⟩]

def formatted : Devices where
  dummy := pageOf 1 ++ pageOf 1 ++ pageOf 0
  real := pageOf 9 ++ pageOf 1 ++ pageOf 0
  dummyPos := 12288
  realPos := 12288
  pageSize := 4096
  performed := [pageWrite 0, pageWrite 1, pageRead 2]
  delivered := [pageWrite 1, pageRead 2]
  writes := [(4096, pageOf 1), (8192, pageOf 0)]

theorem path_lossyCalls : Prog.Path (forceMkfs .ext4) lossyCalls (.done (.ok ())) := by
  have hpages : rwPositions 4096 [pageWrite 1, pageRead 2] = [1, 2] := by decide
  refine .cons _ (.cons _ (.cons _ (.cons _ (.cons _ (.cons _ (.cons _ ?_))))))
  change Prog.Path (context "Failed to migrate data from tmp device to the real device" do
    act .openDummy
    act .openReal
    migrate 4096 (rwPositions 4096 [pageWrite 1, pageRead 2])
    act .flushReal) _ _
  rw [hpages]
  exact .cons _ (.cons _ (.cons _ (.cons _ (.cons _ (.cons _ (.cons _ (.cons _ (.cons _ (.cons _
    (.cons _ (.nil _)))))))))))

theorem length_pageOf {byte : UInt8} : (pageOf byte).length = 4096 := List.length_replicate

theorem length_pages {a b c : UInt8} : (pageOf a ++ pageOf b ++ pageOf c).length = 12288 := by
  simp only [List.length_append, length_pageOf]

theorem overwrite_second {a b c byte : UInt8} :
    overwrite 4096 (pageOf byte) (pageOf a ++ pageOf b ++ pageOf c) =
      pageOf a ++ pageOf byte ++ pageOf c := by
  simp [overwrite, List.drop_append, length_pageOf, List.drop_of_length_le]

theorem overwrite_third {a b c byte : UInt8} :
    overwrite 8192 (pageOf byte) (pageOf a ++ pageOf b ++ pageOf c) =
      pageOf a ++ pageOf b ++ pageOf byte := by
  simp [overwrite, List.take_append, length_pageOf, List.drop_of_length_le, List.take_of_length_le]

theorem steps_lossyCalls : Steps sem unformatted lossyCalls formatted := by
  have hsecond : pageOf 1 = slice 4096 (4096 + 4096) formatted.dummy := by
    simp [slice, formatted, List.take_append, length_pageOf, List.take_of_length_le]
  have hthird : pageOf 0 = slice 8192 (8192 + 4096) formatted.dummy := by
    simp [slice, formatted, List.drop_append, length_pageOf, List.drop_of_length_le,
      List.take_of_length_le]
  refine .cons (sem_ok ⟨length_pages.symm, rfl⟩) ?_
  refine .cons (sem_ok rfl) (.cons (sem_ok rfl) ?_)
  refine .cons (sem_ok ⟨formatted.dummy, [pageWrite 0, pageWrite 1], ?_, rfl⟩) ?_
  · exact length_pages.trans List.length_replicate.symm
  refine .cons (sem_ok ⟨[pageRead 2], rfl⟩) (.cons (sem_ok ⟨by decide, by decide, rfl⟩) ?_)
  refine .cons (sem_ok ⟨rfl, rfl⟩) (.cons (sem_ok rfl) (.cons (sem_ok rfl) ?_))
  -- the second page
  refine .cons (sem_ok rfl) (.cons (sem_ok rfl) (.cons (sem_ok ⟨?_, hsecond, rfl⟩) ?_))
  · exact (by decide : 8192 ≤ 12288).trans_eq length_pages.symm
  refine .cons (sem_ok ⟨?_, rfl⟩) ?_
  · dsimp only [unformatted]
    rw [length_pages, length_pageOf]
    decide
  -- the third one
  refine .cons (sem_ok rfl) (.cons (sem_ok rfl) (.cons (sem_ok ⟨?_, hthird, rfl⟩) ?_))
  · exact length_pages.ge
  refine .cons (sem_ok ⟨?_, rfl⟩) (.cons (sem_ok rfl) (steps_nil.mpr ?_))
  · dsimp only [unformatted]
    rw [overwrite_second, length_pages, length_pageOf]
  · dsimp only [unformatted]
    rw [overwrite_second, overwrite_third, length_pageOf]
    rfl

theorem inside_formatted : ∀ event ∈ formatted.performed,
    0 < event.event.bytes ∧ Inside unformatted.real.length event := by
  rw [show unformatted.real.length = 12288 from length_pages]
  unfold Inside
  decide

/-- **What is recorded is replayed.** For delivered events that are not empty:
* what they touch is on the real device as on the dummy;
* what is in no page they touch is unchanged;
* each byte of a page they touch was written once, together with the page. -/
theorem forceMkfs_replays (hpath : Prog.Path (forceMkfs fsType) es (.done (.ok ())))
    (hsteps : Steps sem s es s') (hpage : 0 < s.pageSize) (hwrites : s.writes = [])
    (hsize : s.real.length < 2 ^ 64)
    (hinside : ∀ event ∈ s'.delivered, 0 < event.event.bytes ∧ Inside s.real.length event) :
    (∀ event ∈ s'.delivered, ∀ b, Touches event b → s'.real[b]? = s'.dummy[b]?) ∧
    (∀ b, (∀ event ∈ s'.delivered, ∀ b', Touches event b' → b' / s.pageSize ≠ b / s.pageSize) →
      s'.real[b]? = s.real[b]?) ∧
    ∀ event ∈ s'.delivered, ∀ b b', Touches event b' → b' / s.pageSize = b / s.pageSize →
      writesAt s'.writes b = [(b / s.pageSize * s.pageSize,
        slice (b / s.pageSize * s.pageSize) (b / s.pageSize * s.pageSize + s.pageSize)
          s'.dummy)] := by
  obtain ⟨-, s₀, hreal, hwrites₀, h⟩ := migrated_of_run hpath hsteps
  rw [hwrites] at hwrites₀
  have hmem : ∀ b, b / s.pageSize ∈ rwPositions s.pageSize s'.delivered ↔
      ∃ event ∈ s'.delivered, ∃ b', Touches event b' ∧ b' / s.pageSize = b / s.pageSize := by
    intro b
    rw [div_mem_rwPositions hpage hsize fun event hevent => (hinside event hevent).2]
    exact exists_congr fun event => and_congr_right fun hevent =>
      covers_iff hpage (hinside event hevent).1
  refine ⟨fun event hevent b hb => ?_, fun b hb => ?_, fun event hevent b b' hb' hsame => ?_⟩
  · rw [h.getElem?_real hpage, if_pos ((hmem b).mpr ⟨event, hevent, b, hb, rfl⟩)]
  · rw [h.getElem?_real hpage, if_neg, hreal]
    rw [hmem]
    rintro ⟨event, hevent, b', hb', hsame⟩
    exact hb event hevent b' hb' hsame
  · rw [h.writesAt_eq hpage nodup_rwPositions hwrites₀,
      if_pos ((hmem b).mpr ⟨event, hevent, b', hb', hsame⟩)]

theorem forceMkfs_replays_pages :
    (∀ event ∈ formatted.delivered, ∀ b, Touches event b →
      formatted.real[b]? = formatted.dummy[b]?) ∧
      Touches (pageWrite 1) 4096 ∧ Touches (pageRead 2) 8192 := by
  have hinside : ∀ event ∈ formatted.delivered,
      0 < event.event.bytes ∧ Inside unformatted.real.length event := by
    intro event hevent
    exact inside_formatted event (List.mem_cons_of_mem _ hevent)
  refine ⟨(forceMkfs_replays path_lossyCalls steps_lossyCalls (by decide) rfl ?_ hinside).1, ?_, ?_⟩
  · exact length_pages.trans_lt (by decide)
  · exact ⟨by decide, by decide, by decide⟩
  · exact ⟨by decide, by decide, by decide⟩

/-- **What is not recorded.** A run succeeds whether or not the kernel has dropped events. What the
operations touch was copied exactly if it is in a page of a delivered event. -/
theorem forceMkfs_copied_iff (hpath : Prog.Path (forceMkfs fsType) es (.done (.ok ())))
    (hsteps : Steps sem s es s') (hpage : 0 < s.pageSize) (hwrites : s.writes = [])
    (hsize : s.real.length < 2 ^ 64) (hinside : ∀ event ∈ s'.performed, Inside s.real.length event) :
    (∀ event ∈ s'.performed, ∀ b, Touches event b → Copied s' b) ↔
      ∀ event ∈ s'.performed, ∀ b, Touches event b →
        ∃ delivered ∈ s'.delivered, Covers s.pageSize delivered b := by
  obtain ⟨hsub, s₀, -, hwrites₀, h⟩ := migrated_of_run hpath hsteps
  rw [hwrites] at hwrites₀
  refine forall₂_congr fun event _ => forall₂_congr fun b _ => ?_
  rw [h.copied_iff hpage nodup_rwPositions hwrites₀]
  exact div_mem_rwPositions hpage hsize fun event hevent => hinside event (hsub.subset hevent)

theorem forceMkfs_copied_iff_pages :
    (∀ event ∈ formatted.performed, ∀ b, Touches event b → Copied formatted b) ↔
      ∀ event ∈ formatted.performed, ∀ b, Touches event b →
        ∃ delivered ∈ formatted.delivered, Covers 4096 delivered b := by
  refine forceMkfs_copied_iff path_lossyCalls steps_lossyCalls (by decide) rfl ?_ fun event hevent =>
    (inside_formatted event hevent).2
  exact length_pages.trans_lt (by decide)

/-- The page of the lost event is not copied, and the run succeeds. -/
theorem forceMkfs_lost :
    Prog.Path (forceMkfs .ext4) lossyCalls (.done (.ok ())) ∧
      Steps sem unformatted lossyCalls formatted ∧
      pageWrite 0 ∈ formatted.performed ∧ Touches (pageWrite 0) 0 ∧ ¬Copied formatted 0 := by
  have hnone : writesAt formatted.writes 0 = [] := by decide
  refine ⟨path_lossyCalls, steps_lossyCalls, List.mem_cons_self, ⟨by decide, by decide, by decide⟩, ?_⟩
  rw [Copied, hnone]
  simp

end

end CryptPilot.Core.Mkfs
