import CryptPilot.Volume.Initialized

/-!
# What the delta volume keeps

What a system writes goes to the delta volume. With `disk-persist` and a key that is kept, it is
there after the next boot, and after all that follow: once a boot got to its end, no boot formats
the device, makes a file system or clears the header of the snapshot. With `disk`, or a key that is
thrown away, every boot begins with an empty volume.

The first part is one pass over the boot stage (`careful_*`). It says what a boot that gets to its
end leaves behind, and that a boot that finds this does not harm it, wherever it stops.
-/

namespace CryptPilot.Volume

open CryptPilot.Data CryptPilot.Data.Prog CryptPilot.Core CryptPilot.Crypt CryptPilot.Fde

variable {δ : Type}

/-! ## Boots -/

/-- The header of the delta volume can be read. -/
def HeaderReads : (op : Op) → op.Res → Prop
  | .readHeader dev, r => dev = deltaLogicalVolume → ∃ header : Header, r = Except.ok header
  | _, _ => True

/-- What an operation does to the delta volume, in a boot in which its header can be read. -/
def BootStep (s : Disk δ) (op : Op) (r : op.Res) (s' : Disk δ) : Prop :=
  s.Step deltaLogicalVolume op r s' ∧ HeaderReads op r

/-- A signature that says how the volume is used. -/
def Signed (content : Content) : Prop := content = .fs .ext4 ∨ content = .cow

/-- The system runs, and is shut down. It writes to the volume, but leaves the header of the device
and the signature as they are. -/
structure PowerCycle (s s' : Disk δ) : Prop where
  present : s'.present = s.present
  header : s'.header = s.header
  mapped : s'.mapped = []
  content : Signed s.content → s'.content = s.content

/-- The configuration says that the volume is kept. -/
def Persists (config : FdeConfig) : Prop :=
  config.location = .diskPersist ∧ config.delta.encrypt.keyProvider.volumeType = .persistent

/-- The configuration says that the volume is on disk, and not kept. -/
def Volatile (config : FdeConfig) : Prop :=
  config.location = .disk ∨
    config.location = .diskPersist ∧ config.delta.encrypt.keyProvider.volumeType = .temporary

/-- An operation that destroys what is on the volume. -/
def Destroys : Op → Prop
  | .act (.cryptFormat dev _ _) => dev = deltaLogicalVolume
  | .act (.mkfs path _ _) | .act (.writeZeros path) =>
    path = deltaDevice ∨ path = deltaLogicalVolume
  | _ => False

/-! ## A volume in use -/

/-- What a boot that got to its end leaves behind. -/
structure Kept (s : Disk δ) : Prop where
  present : s.present = true
  ready : s.initState = .ready
  signed : Signed s.content

/-- The same, but for the mappings. -/
def SameVolume (s s' : Disk δ) : Prop := ∃ mapped, s' = { s with mapped := mapped }

/-- An operation that does no harm in a state. -/
def Gentle (s : Disk δ) : Op → Prop
  | .act (.lvcreate _) => s.present = true
  | .act (.dmsetup _ (.snapshot ..)) => s.content = .cow
  | op => op.Quiet

section
variable {s s' s'' : Disk δ} {op : Op} {r : op.Res}

theorem Kept.same (h : Kept s) (hs : SameVolume s s') : Kept s' := by
  obtain ⟨mapped, rfl⟩ := hs
  exact ⟨h.present, h.ready, h.signed⟩

theorem Kept.powerCycle (h : Kept s) (hs : PowerCycle s s') : Kept s' where
  present := hs.present.trans h.present
  ready := (congrArg Header.initState hs.header).trans h.ready
  signed := by
    rw [hs.content h.signed]
    exact h.signed

theorem SameVolume.trans (h : SameVolume s s') (h' : SameVolume s' s'') : SameVolume s s'' := by
  obtain ⟨mapped, rfl⟩ := h
  obtain ⟨mapped', rfl⟩ := h'
  exact ⟨mapped', rfl⟩

theorem gentle_of_quiet (h : op.Quiet) : Gentle s op := by
  unfold Gentle
  split
  · exact h.elim
  · exact h.elim
  · exact h

theorem Gentle.not_destroys (h : Gentle s op) : ¬Destroys op := by
  unfold Destroys
  split
  · exact fun _ => h
  · exact fun _ => h
  · exact fun _ => h
  · exact id

theorem Gentle.same (h : Gentle s op) (hstep : s.Step deltaLogicalVolume op r s') :
    SameVolume s s' := by
  have hinert (hop : op.Inert deltaLogicalVolume) : SameVolume s s' := ⟨_, hstep.inert hop⟩
  cases op with
  | act action =>
    change s.Acts deltaLogicalVolume action r s' at hstep
    cases action with
    | cryptFormat => exact h.elim
    | addByKey => exact h.elim
    | setLabel => exact h.elim
    | mkfs => exact h.elim
    | writeZeros => exact h.elim
    | activateByPassphrase name d passphrase noJournal =>
      cases name with
      | none => exact hinert trivial
      | some name =>
        obtain ⟨_, rfl⟩ := hstep
        split_ifs <;> exact ⟨_, rfl⟩
    | deactivate name =>
      subst hstep
      split_ifs <;> exact ⟨_, rfl⟩
    | lvcreate path =>
      rcases Disk.Acts.lvcreate hstep with habsent | heq
      · exact absurd (habsent.symm.trans h) (by decide)
      · exact ⟨_, heq⟩
    | dmsetup name table =>
      cases table with
      | linear => exact hinert trivial
      | snapshot size origin path persistent =>
        have hcow : { s with content := .cow } = s := by rw [← show s.content = .cow from h]
        rcases Disk.Acts.snapshot hstep with heq | heq
        · exact ⟨_, heq.trans hcow⟩
        · exact ⟨_, heq⟩
    | _ => exact hinert trivial
  | _ => exact hinert trivial

end

/-! ## One boot

`K` stands for: the volume was in use before. -/

/-- What may be called. -/
def Careful (K : Prop) (s : Disk δ) (op : Op) : Prop := K → Gentle s op

section
variable {debug : String → String} {K : Prop} {s : Disk δ}

/-- Programs that do nothing to the volume. -/
theorem careful_inert {α : Type} {p : Cmd α} (hp : p.Calls (Op.Inert deltaLogicalVolume)) :
    p.Ensures BootStep (Careful K) (fun _ s' => s' = s) s :=
  hp.ensures (I := (· = s)) (fun _ _ _ _ hop ht hstep => (hstep.1.inert hop).trans ht)
    (fun _ _ hop _ _ => gentle_of_quiet hop.quiet) rfl

/-- The same, followed by another program. -/
theorem careful_inert_bind {α β : Type} {p : Cmd α} {f : α → Cmd β} {Q : β → Disk δ → Prop}
    (hp : p.Calls (Op.Inert deltaLogicalVolume))
    (hf : ∀ a, (f a).Ensures BootStep (Careful K) Q s) :
    (p >>= f).Ensures BootStep (Careful K) Q s := by
  refine .bind (careful_inert hp) ?_
  rintro a _ rfl
  exact hf a

/-- If there is nothing to be kept, the device stays at least. -/
theorem careful_any {α : Type} {p : Cmd α} (hK : ¬K) (hpresent : s.present = true) :
    p.Ensures BootStep (Careful K) (fun _ s' => s'.present = true) s :=
  calls_true.ensures (fun _ _ _ _ _ h hstep => hstep.1.lasts.1 h) (fun _ _ _ _ hk => absurd hk hK)
    hpresent

theorem careful_ensureDelta (hK : K → s.present = true) :
    ensureDeltaVolumeExistAndExpanded.Ensures BootStep (Careful K)
      (fun _ s' => s'.present = true ∧ (K → s' = s)) s := by
  refine .bind (Q := fun present s' => s' = s ∧ (present = true → s.present = true)) ?_ ?_
  · refine ⟨fun _ => trivial, fun r s' hstep => ensures_pure.mpr ⟨hstep.1.2, ?_⟩⟩
    exact hstep.1.1.1 rfl
  · rintro present _ ⟨rfl, hpresent⟩
    cases present with
    | true =>
      refine careful_inert_bind (.attempt (calls_act trivial)) fun _ => ?_
      exact ensures_pure.mpr ⟨hpresent rfl, fun _ => rfl⟩
    | false =>
      refine .context (ensures_act_bind (fun hk => hK hk) fun s₁ hstep => ?_)
      obtain ⟨habsent, rfl⟩ := hstep.1.lvcreate
      have hnew : ¬K := fun hk => absurd (habsent.symm.trans (hK hk)) (by decide)
      exact (careful_any hnew rfl).mono fun _ _ h => ⟨h, fun hk => absurd hk hnew⟩

theorem careful_recreatesDelta {provider : KeyProviderConfig}
    (hpersistent : provider.volumeType = .persistent) :
    (recreatesDelta provider .diskPersist).Ensures BootStep (Careful K)
      (fun recreate s' => s' = s ∧ (recreate = false ↔ s.initState = .ready)) s := by
  unfold recreatesDelta
  rw [hpersistent]
  refine .bind (ensures_isInitialized (Q := fun initialized s' => s' = s ∧
    (initialized = true ↔ s.initState = .ready)) (fun _ => trivial) fun r s' hstep => ?_) ?_
  · obtain ⟨header, rfl⟩ := hstep.2 rfl
    obtain ⟨rfl, rfl⟩ := hstep.1.readHeader
    exact ⟨rfl, decide_eq_true_iff⟩
  · rintro initialized _ ⟨rfl, hinitialized⟩
    cases initialized with
    | true => exact ensures_pure.mpr ⟨rfl, by simpa using hinitialized⟩
    | false => exact ensures_pure.mpr ⟨rfl, by simpa using hinitialized⟩

theorem openAt_deltaDevice {mapped : List String} :
    Disk.OpenAt { s with mapped := deltaName :: mapped } deltaDevice :=
  ⟨deltaName, List.mem_cons_self, by decide⟩

theorem careful_openDelta {passphrase : Passphrase} {integrity : IntegrityType} :
    (openWithCheckPassphrase debug deltaName deltaLogicalVolume passphrase integrity).Ensures
      BootStep (Careful K) (fun _ s' => s' = { s with mapped := deltaName :: s.mapped }) s := by
  refine careful_inert_bind (.context inert_checkPassphrase) fun _ => .context ?_
  refine careful_inert_bind (calls_act trivial) fun _ => ?_
  refine careful_inert_bind (calls_act trivial) fun _ => ?_
  exact ensures_act.mpr ⟨fun _ => trivial, fun s' hstep => hstep.1.activate⟩

/-- The volume is open then. It was not formatted if it was ready. -/
theorem careful_setupDeltaVolumeLuks2 {config : DeltaConfig}
    (hpersistent : config.encrypt.keyProvider.volumeType = .persistent)
    (hpresent : s.present = true) (hK : K → s.initState = .ready) :
    (setupDeltaVolumeLuks2 debug config .diskPersist).Ensures BootStep (Careful K)
      (fun result s' => s'.present = true ∧ s'.OpenAt deltaDevice ∧
        (result.1 = false → s'.initState = .ready) ∧ (K → result.1 = false ∧ SameVolume s s')) s := by
  refine careful_inert_bind (.context (calls_getKey trivial)) fun passphrase => ?_
  refine .bind (careful_recreatesDelta hpersistent) ?_
  rintro recreate _ ⟨rfl, hrecreate⟩
  cases recreate with
  | true =>
    have hnew : ¬K := fun hk => absurd (hrecreate.mpr (hK hk)) (by decide)
    refine .bind (careful_any hnew hpresent) fun _ s₁ hpresent₁ => .bind careful_openDelta ?_
    rintro _ _ rfl
    exact ensures_pure.mpr ⟨hpresent₁, openAt_deltaDevice, nofun, fun hk => absurd hk hnew⟩
  | false =>
    refine careful_inert_bind (.doIf nofun) fun _ => .bind careful_openDelta ?_
    rintro _ _ rfl
    refine ensures_pure.mpr ⟨hpresent, openAt_deltaDevice, fun _ => hrecreate.mp rfl, fun _ => ?_⟩
    exact ⟨rfl, _, rfl⟩

/-- What `blkid` says tells a snapshot from everything else. -/
theorem content_of_probes {probe : BlkidProbeResult} (hprobe : s.content.Probes probe)
    (hsigned : Signed s.content) :
    probe ≠ .noSignatures ∧ (probe.isDmSnapshotCow = true → s.content = .cow) := by
  rcases hsigned with h | h <;> rw [h] at hprobe ⊢
  · obtain ⟨ptType, subsystem, rfl⟩ := hprobe
    have hlength : ¬"DM_snapshot_cow".toList.length ≤ MakeFsType.ext4.name.toList.length := by decide
    refine ⟨nofun, fun hcow => absurd (List.IsInfix.length_le ?_) hlength⟩
    exact of_decide_eq_true hcow
  · refine ⟨?_, fun _ => rfl⟩
    rintro rfl
    cases hprobe

theorem careful_prepareCowDevice (hopen : s.OpenAt deltaDevice) (hK : K → Signed s.content) :
    (prepareCowDevice debug deltaDevice true).Ensures BootStep (Careful K)
      (fun _ s' => s'.OpenAt deltaDevice ∧ s'.present = s.present ∧ s'.header = s.header ∧
        (K → s'.content = .cow)) s := by
  refine .bind (Q := fun probe s' => s' = s ∧ s.content.Probes probe) ?_ ?_
  · refine .context ⟨fun _ => trivial, fun r s' hstep probe hr => ?_⟩
    exact ⟨hstep.1.2, hstep.1.1 hopen probe hr⟩
  · rintro probe _ ⟨rfl, hprobe⟩
    cases probe with
    | noSignatures =>
      have hnew : ¬K := fun hk => (content_of_probes hprobe (hK hk)).1 rfl
      refine .context (careful_inert_bind (.context (calls_act trivial)) fun _ => ?_)
      refine ensures_act_bind (fun hk => absurd hk hnew) fun s₁ hstep => ?_
      obtain ⟨d, rfl⟩ := hstep.1.writeZeros (by decide) hopen
      refine .mono (careful_inert (calls_act trivial)) ?_
      rintro _ _ rfl
      exact ⟨hopen, rfl, rfl, fun hk => absurd hk hnew⟩
    | knownSignature fsType ptType subsystem =>
      dsimp only
      split
      · rename_i hcow
        exact ensures_pure.mpr ⟨hopen, rfl, rfl, fun hk => (content_of_probes hprobe (hK hk)).2 hcow⟩
      · exact ensures_fail

theorem careful_setupDmSnapshotDeviceChain {device : Path} (hopen : s.OpenAt deltaDevice)
    (hK : K → Signed s.content) :
    (setupDmSnapshotDeviceChain debug device deltaDevice true).Ensures BootStep (Careful K)
      (fun _ s' => s'.present = s.present ∧ s'.header = s.header ∧ s'.content = .cow) s := by
  refine careful_inert_bind inert_getDeviceSizeBytes fun _ => ?_
  refine careful_inert_bind inert_getDeviceSizeBytes fun _ => ?_
  refine careful_inert_bind (.context (calls_act trivial)) fun _ => ?_
  refine .bind (careful_prepareCowDevice hopen hK) fun _ s₁ ⟨hopen₁, hpresent, hheader, hcow⟩ => ?_
  refine .context (ensures_act.mpr ⟨hcow, fun s₂ hstep => ?_⟩)
  obtain rfl := hstep.1.snapshot hopen₁
  exact ⟨hpresent, hheader, rfl⟩

/-- Only a volume with a file system of the right type can be resized. -/
theorem careful_resizeExt4Filesystem (hopen : s.OpenAt deltaDevice) :
    (resizeExt4Filesystem deltaDevice).Ensures BootStep (Careful K)
      (fun _ s' => s' = s ∧ s.content = .fs .ext4) s := by
  refine .bind (Q := fun _ s' => s' = s ∧ s.content = .fs .ext4) ?_ ?_
  · refine .context (ensures_act.mpr ⟨fun _ => trivial, fun s' hstep => ?_⟩)
    exact ⟨hstep.1.2, hstep.1.1 rfl hopen⟩
  · rintro _ _ ⟨rfl, hcontent⟩
    exact .mono (careful_inert (.context (calls_act trivial))) fun _ _ h => ⟨h, hcontent⟩

/-- The volume is left with a signature. -/
theorem careful_setupDeltaBackend {config : FdeConfig} {recreate : Bool} {integrity : IntegrityType}
    (hlocation : config.location = .diskPersist) (hpresent : s.present = true)
    (hopen : s.OpenAt deltaDevice) (hready : recreate = false → s.initState = .ready)
    (hK : K → recreate = false ∧ Signed s.content) :
    (setupDeltaBackend debug config recreate integrity).Ensures BootStep (Careful K)
      (fun _ s' => s'.present = true ∧ (recreate = false → s'.initState = .ready) ∧
        Signed s'.content) s := by
  unfold setupDeltaBackend
  cases config.backend with
  | overlayfs =>
    cases recreate with
    | true =>
      have hnew : ¬K := fun hk => absurd (hK hk).1 (by decide)
      refine .context (ensures_act.mpr ⟨fun hk => absurd hk hnew, fun s' hstep => ?_⟩)
      obtain ⟨d, rfl⟩ := hstep.1.mkfs (by decide) hopen
      exact ⟨hpresent, nofun, .inl rfl⟩
    | false =>
      refine (careful_resizeExt4Filesystem hopen).mono ?_
      rintro _ _ ⟨rfl, hcontent⟩
      exact ⟨hpresent, hready, .inl hcontent⟩
  | dmSnapshot =>
    dsimp only
    rw [hlocation]
    refine .bind (careful_setupDmSnapshotDeviceChain hopen fun hk => (hK hk).2) ?_
    rintro _ s₁ ⟨hpresent₁, hheader, hcow⟩
    refine (careful_inert inert_resizeExt4Filesystem).mono ?_
    rintro _ _ rfl
    exact ⟨hpresent₁.trans hpresent,
      fun hrecreate => (congrArg Header.initState hheader).trans (hready hrecreate), .inr hcow⟩

theorem careful_mark (hnew : ¬K) (hpresent : s.present = true) (hsigned : Signed s.content) :
    (markVolumeAsInitialized debug deltaLogicalVolume).Ensures BootStep (Careful K)
      (fun _ => Kept) s := by
  refine .context (careful_inert_bind (calls_act trivial) fun _ => ?_)
  refine careful_inert_bind (calls_act trivial) fun _ => ?_
  refine ensures_act.mpr ⟨fun hk => absurd hk hnew, fun s' hstep => ?_⟩
  obtain ⟨header, hheader, rfl⟩ := hstep.1.setLabel
  exact ⟨hpresent, hheader.trans (by decide), hsigned⟩

theorem careful_setupDeltaOnDisk {config : FdeConfig} (hconfig : Persists config)
    (hK : K → Kept s) :
    (setupDeltaOnDisk debug config).Ensures BootStep (Careful K) (fun _ => Kept) s := by
  refine careful_inert_bind (.attempt (calls_act trivial)) fun _ => ?_
  refine .bind (careful_ensureDelta fun hk => (hK hk).present) ?_
  rintro _ s₁ ⟨hpresent₁, hsame₁⟩
  rw [hconfig.1]
  refine .bind (careful_setupDeltaVolumeLuks2 hconfig.2 hpresent₁ fun hk => ?_) ?_
  · rw [hsame₁ hk]
    exact (hK hk).ready
  · rintro ⟨recreate, integrity⟩ s₂ ⟨hpresent₂, hopen₂, hready₂, hsame₂⟩
    refine .bind (careful_setupDeltaBackend hconfig.1 hpresent₂ hopen₂ hready₂ fun hk => ?_) ?_
    · obtain ⟨hrecreate, hsame⟩ := hsame₂ hk
      rw [hsame₁ hk] at hsame
      exact ⟨hrecreate, ((hK hk).same hsame).signed⟩
    · rintro _ s₃ ⟨hpresent₃, hready₃, hsigned₃⟩
      refine .doIf (fun hrecreate => ?_) fun hrecreate => ⟨hpresent₃, hready₃ hrecreate, hsigned₃⟩
      have hnew : ¬K := fun hk => absurd ((hsame₂ hk).1.symm.trans hrecreate) (by decide)
      exact careful_mark hnew hpresent₃ hsigned₃

/-- **One boot with a volume that is kept.** If it gets to its end, the volume is in use; if it was
in use before, every operation is gentle. -/
theorem careful_setupVolumesRequiredByFde {config : FdeConfig} (hconfig : Persists config) :
    (setupVolumesRequiredByFde debug (.ok (some config))).Ensures BootStep (Careful (Kept s))
      (fun _ => Kept) s := by
  rw [setupVolumesRequiredByFde_some]
  refine careful_inert_bind inert_setupRootfs fun _ => ?_
  rw [if_pos (.inr hconfig.1)]
  exact careful_setupDeltaOnDisk hconfig id

end

/-! ## Many boots -/

abbrev Boot := Run Op Op.Res Unit (Except String (Option FdeConfig))

section
variable {debug : String → String} {s s' : Disk δ} {config : FdeConfig} {es : List Call}
  {rest : Cmd Unit}

/-- A boot that gets to its end leaves a volume in use behind. -/
theorem kept_of_completed (hconfig : Persists config)
    (hpath : Path (setupVolumesRequiredByFde debug (.ok (some config))) es (.done (.ok ())))
    (hsteps : Steps BootStep s es s') : Kept s' :=
  ((careful_setupVolumesRequiredByFde hconfig).path hpath hsteps).1 () rfl

/-- A boot does not harm a volume in use, wherever it stops. -/
theorem Kept.boot (hs : Kept s) (hconfig : Persists config)
    (hpath : Path (setupVolumesRequiredByFde debug (.ok (some config))) es rest)
    (hsteps : Steps BootStep s es s') : SameVolume s s' ∧ ∀ e ∈ es, ¬Destroys e.op := by
  have hcareful : (setupVolumesRequiredByFde debug (.ok (some config))).Ensures BootStep
      (Careful (Kept s)) (fun _ => Kept) s := careful_setupVolumesRequiredByFde hconfig
  constructor
  · refine hcareful.invariant (fun t op r t' hop ht hstep => ?_) hpath hsteps ⟨_, rfl⟩
    exact ht.trans ((hop hs).same hstep.1)
  · intro e he
    obtain ⟨pre, post, rfl⟩ := List.append_of_mem he
    obtain ⟨t, _, hop⟩ := (hcareful.path hpath hsteps).2 pre e post rfl
    exact (hop hs).not_destroys

theorem Kept.boots {history : List Boot} (hs : Kept s)
    (hruns : Runs (setupVolumesRequiredByFde debug) BootStep PowerCycle s history s')
    (hhistory : ∀ boot ∈ history, ∃ config, boot.input = .ok (some config) ∧ Persists config) :
    Kept s' := by
  induction hruns with
  | nil => exact hs
  | @cons s s₁ s₂ s' boot history hcycle hpath hsteps _ ih =>
    obtain ⟨config, hinput, hconfig⟩ := hhistory boot List.mem_cons_self
    rw [hinput] at hpath
    have hs₁ := hs.powerCycle hcycle
    have hs₂ := hs₁.same (hs₁.boot hconfig hpath hsteps).1
    exact ih hs₂ fun boot hmem => hhistory boot (List.mem_cons_of_mem _ hmem)

end

/-! ## Volumes that are not kept -/

/-- The delta volume is opened. -/
def Opens : Op → Prop
  | .act (.activateByPassphrase (some _) dev _ _) => dev = deltaLogicalVolume
  | _ => False

/-- The delta volume was formatted. -/
def Formatted (past : List Call) : Prop :=
  ∃ integrity, formatted deltaLogicalVolume integrity ∈ past

/-- The volume is only opened after it was formatted. -/
def OpensFormatted (past : List Call) (op : Op) : Prop := Opens op → Formatted past

section
variable {debug : String → String} {past : List Call} {config : FdeConfig}

theorem fresh_before {α : Type} {p : Cmd α} (hp : p.Calls fun op => ¬Opens op) :
    p.Ensures record OpensFormatted (fun _ _ => True) past :=
  hp.ensures_true fun _ _ hop hopens => absurd hopens hop

theorem fresh_inert {α : Type} {p : Cmd α} (hp : p.Calls (Op.Inert deltaLogicalVolume)) :
    p.Ensures record OpensFormatted (fun _ _ => True) past := by
  refine fresh_before (hp.mono fun op hop => ?_)
  unfold Opens
  split
  · exact hop
  · exact id

/-- After formatting, anything can follow. -/
theorem fresh_after {α : Type} {p : Cmd α} (h : Formatted past) :
    p.Ensures record OpensFormatted (fun _ => Formatted) past := by
  refine calls_true.ensures (fun past op r past' _ h hr => ?_) (fun _ _ _ h _ => h) h
  obtain ⟨integrity, hmem⟩ := h
  exact ⟨integrity, hr ▸ List.mem_append_left _ hmem⟩

theorem fresh_ensureDelta :
    ensureDeltaVolumeExistAndExpanded.Ensures record OpensFormatted (fun _ _ => True) past := by
  refine fresh_before (.bind (calls_pathExists id) fun present => ?_)
  cases present with
  | true => exact .bind (.attempt (calls_act id)) fun _ => calls_done
  | false => exact .context (.bind (calls_act id) fun _ => .bind (calls_act id) fun _ => calls_act id)

theorem fresh_recreatesDelta (hconfig : Volatile config) :
    (recreatesDelta config.delta.encrypt.keyProvider config.location).Ensures record OpensFormatted
      (fun recreate _ => recreate = true) past := by
  unfold recreatesDelta
  split
  · exact ensures_pure.mpr rfl
  · rename_i hpersistent
    have hdisk : config.location = .disk := hconfig.resolve_right fun h => hpersistent h.2
    refine .bind (fresh_inert (calls_isInitialized trivial)) fun initialized past' _ => ?_
    rw [hdisk]
    cases initialized with
    | false => exact ensures_pure.mpr rfl
    | true => exact ensures_pure.mpr rfl

theorem fresh_format {passphrase : Passphrase} {integrity : IntegrityType} :
    (format debug deltaLogicalVolume passphrase integrity).Ensures record OpensFormatted
      (fun _ => Formatted) past := by
  refine .context (.bind (fresh_inert (calls_act trivial)) fun _ past₁ _ => ?_)
  refine ensures_act_bind False.elim fun past₂ h₂ => fresh_after ⟨integrity, ?_⟩
  rw [h₂]
  exact List.mem_append_right _ (List.mem_singleton_self _)

theorem fresh_setupDeltaVolumeLuks2 (hconfig : Volatile config) :
    (setupDeltaVolumeLuks2 debug config.delta config.location).Ensures record OpensFormatted
      (fun _ => Formatted) past := by
  refine .bind (fresh_inert (.context (calls_getKey trivial))) fun passphrase past₁ _ => ?_
  refine .bind (fresh_recreatesDelta hconfig) ?_
  rintro _ past₂ rfl
  exact .bind fresh_format fun _ past₃ h₃ => fresh_after h₃

/-- **A volume that is not kept** is formatted before it is opened. -/
theorem fresh_setupVolumesRequiredByFde (hconfig : Volatile config) :
    (setupVolumesRequiredByFde debug (.ok (some config))).Ensures record OpensFormatted
      (fun _ => Formatted) past := by
  have hlocation : config.location = .disk ∨ config.location = .diskPersist :=
    hconfig.imp_right And.left
  rw [setupVolumesRequiredByFde_some]
  refine .bind (fresh_inert inert_setupRootfs) fun _ past₁ _ => ?_
  rw [if_pos hlocation]
  refine .bind (fresh_inert (.attempt (calls_act trivial))) fun _ past₂ _ => ?_
  refine .bind fresh_ensureDelta fun _ past₃ _ => ?_
  exact .bind (fresh_setupDeltaVolumeLuks2 hconfig) fun _ past₄ h₄ => fresh_after h₄

/-- What was written before a device was formatted cannot be read any more. -/
theorem data_none_of_formatted {s s' : Disk δ} {es : List Call} (h : Formatted es)
    (hsteps : Steps BootStep s es s') : s'.data = none := by
  obtain ⟨integrity, hmem⟩ := h
  obtain ⟨pre, post, rfl⟩ := List.append_of_mem hmem
  obtain ⟨t, _, hsteps⟩ := steps_append.mp hsteps
  obtain ⟨t', hformat, hpost⟩ := steps_cons.mp hsteps
  obtain ⟨_, header, _, rfl⟩ := hformat.1.cryptFormat
  exact hpost.invariant (I := fun s => s.data = none) rfl fun _ _ _ _ hs hstep => hstep.1.lasts.2 hs

end

section
variable {debug : String → String} {s₀ s s₁ s₂ : Disk δ} {history : List Boot} {boot : Boot}

/-- **What the delta volume keeps**, after any number of boots, each of which may stop anywhere.

If a boot before got to its end, and since then the volume is to be kept, a boot does not destroy
what it finds. If the volume is not to be kept, a boot that gets to its end has formatted the device
before it opened the volume, and nothing from before can be read. -/
theorem delta_data
    (hhistory : Runs (setupVolumesRequiredByFde debug) BootStep PowerCycle s₀ history s)
    (hcycle : PowerCycle s s₁)
    (hpath : Path (setupVolumesRequiredByFde debug boot.input) boot.events boot.rest)
    (hsteps : Steps BootStep s₁ boot.events s₂) :
    (∀ earlier completed later, history = earlier ++ completed :: later →
      completed.rest = .done (.ok ()) →
      (∀ boot' ∈ completed :: (later ++ [boot]),
        ∃ config, boot'.input = .ok (some config) ∧ Persists config) →
      (∀ e ∈ boot.events, ¬Destroys e.op) ∧ s₂.data = s₁.data) ∧
    (∀ config, boot.input = .ok (some config) → Volatile config → boot.rest = .done (.ok ()) →
      Formatted boot.events ∧
      (∀ pre e post, boot.events = pre ++ e :: post → Opens e.op → Formatted pre) ∧
      s₂.data = none) := by
  constructor
  · rintro earlier completed later rfl hcompleted hconfigs
    obtain ⟨t, _, hruns⟩ := runs_append.mp hhistory
    rcases hruns with _ | ⟨_, hpath', hsteps', hlater⟩
    obtain ⟨config', hinput', hconfig'⟩ := hconfigs completed List.mem_cons_self
    rw [hinput', hcompleted] at hpath'
    have hkept := kept_of_completed hconfig' hpath' hsteps'
    have hs : Kept s := hkept.boots hlater fun boot' hmem => hconfigs boot' (by simp [hmem])
    obtain ⟨config, hinput, hconfig⟩ := hconfigs boot (by simp)
    rw [hinput] at hpath
    obtain ⟨⟨mapped, rfl⟩, hgentle⟩ := (hs.powerCycle hcycle).boot hconfig hpath hsteps
    exact ⟨hgentle, rfl⟩
  · intro config hinput hconfig hdone
    rw [hinput, hdone] at hpath
    obtain ⟨hrest, hopens⟩ := (fresh_setupVolumesRequiredByFde hconfig).trace hpath
    have hformatted : Formatted boot.events := hrest () rfl
    exact ⟨hformatted, hopens, data_none_of_formatted hformatted hsteps⟩

end

/-! ## Two boots of a system -/

/-- The upper layer of an overlay, kept on disk or not. -/
def overlayConfig (location : DeltaLocation) : FdeConfig where
  rootfs := ⟨some location, some .overlayfs, none⟩
  delta := ⟨false, ⟨.exec ⟨"cat", ["/etc/delta.key"]⟩⟩⟩

def rootfsCalls : List Call :=
  [did .vgchange, ⟨.loadMetadata, Except.ok ⟨1, "f00d"⟩⟩,
    did (.veritysetup rootfsLogicalVolume rootfsHashLogicalVolume rootfsName "f00d"),
    did .expandSystemPv]

def openDeltaCalls : List Call :=
  [did (.cryptInit deltaLogicalVolume), did (.cryptLoad deltaLogicalVolume),
    did (.activateByPassphrase none deltaLogicalVolume [107] false),
    did (.cryptInit deltaLogicalVolume), did (.cryptLoad deltaLogicalVolume),
    did (.activateByPassphrase (some deltaName) deltaLogicalVolume [107] false)]

/-- The delta volume is created, and formatted. -/
def createDeltaCalls : List Call :=
  [⟨.pathExists deltaLogicalVolume, false⟩, did (.lvcreate deltaLogicalVolume),
    did (.openWrite deltaLogicalVolume), did (.writeZeros deltaLogicalVolume),
    ⟨.getKey (overlayConfig .disk).delta.encrypt.keyProvider, Except.ok [107]⟩,
    ⟨.readHeader deltaLogicalVolume, Except.ok Header.unused⟩,
    did (.cryptInit deltaLogicalVolume),
    did (.cryptFormat deltaLogicalVolume luks2SubsystemInitializing .none),
    did (.addByKey deltaLogicalVolume [107])]

/-- It gets a file system, and is ready. -/
def markDeltaCalls : List Call :=
  [did (.mkfs deltaDevice .ext4 .none), did (.cryptInit deltaLogicalVolume),
    did (.cryptLoad deltaLogicalVolume), did (.setLabel deltaLogicalVolume luks2SubsystemName)]

/-- It is found again. -/
def findDeltaCalls : List Call :=
  [⟨.pathExists deltaLogicalVolume, true⟩, did (.lvextend deltaLogicalVolume),
    ⟨.getKey (overlayConfig .disk).delta.encrypt.keyProvider, Except.ok [107]⟩,
    ⟨.readHeader deltaLogicalVolume, Except.ok Header.readyMark⟩]

def firstBoot (location : DeltaLocation) : Boot where
  input := .ok (some (overlayConfig location))
  events := rootfsCalls ++ (createDeltaCalls ++ (openDeltaCalls ++ markDeltaCalls))
  rest := .done (.ok ())

def secondBoot : Boot where
  input := .ok (some (overlayConfig .diskPersist))
  events := rootfsCalls ++ (findDeltaCalls ++ (openDeltaCalls ++
    [did (.tune2fs deltaDevice), did (.resize2fs deltaDevice)]))
  rest := .done (.ok ())

theorem path_firstBoot (location : DeltaLocation) (h : location ≠ .ram) :
    Path (setupVolumesRequiredByFde id (firstBoot location).input) (firstBoot location).events
      (.done (.ok ())) := by
  apply path_of_replay
  cases location with
  | disk => decide +kernel
  | diskPersist => decide +kernel
  | ram => exact absurd rfl h

theorem path_secondBoot : Path (setupVolumesRequiredByFde id secondBoot.input) secondBoot.events
    (.done (.ok ())) :=
  path_of_replay (by decide +kernel)

/-- The system was just installed. -/
def installed : Disk Unit := ⟨false, Header.unused, [], .blank, none⟩

/-- In the middle of the first boot. -/
def formattedDelta : Disk Unit := ⟨true, Header.initializingMark, [], .blank, none⟩

/-- After the first boot. -/
def created : Disk Unit := ⟨true, Header.readyMark, [deltaName], .fs .ext4, none⟩

/-- Something was written, and the system shut down. -/
def used : Disk Unit := ⟨true, Header.readyMark, [], .fs .ext4, some ()⟩

theorem steps_rootfsCalls {s : Disk Unit} : Steps BootStep s rootfsCalls s :=
  .cons ⟨rfl, trivial⟩ (.cons ⟨⟨trivial, rfl⟩, trivial⟩ (.cons ⟨rfl, trivial⟩
    (.cons ⟨rfl, trivial⟩ (.nil _))))

theorem steps_createDeltaCalls : Steps BootStep installed createDeltaCalls formattedDelta := by
  have hclosed : ¬installed.OpenAt deltaLogicalVolume := by
    rintro ⟨volume, hvolume, _⟩
    cases hvolume
  have hcreate : installed.Acts deltaLogicalVolume (.lvcreate deltaLogicalVolume) (.ok ())
      { installed with present := true } := ⟨rfl, rfl⟩
  have hclear : Disk.Acts deltaLogicalVolume { installed with present := true }
      (.writeZeros deltaLogicalVolume) (.ok ()) { installed with present := true } :=
    ⟨Header.unused, .inl rfl, rfl⟩
  have hformat : Disk.Acts deltaLogicalVolume { installed with present := true }
      (.cryptFormat deltaLogicalVolume luks2SubsystemInitializing .none) (.ok ()) formattedDelta :=
    Disk.acts_cryptFormat .none rfl initState_initializingMark
  have hkey : formattedDelta.Acts deltaLogicalVolume (.addByKey deltaLogicalVolume [107]) (.ok ())
      formattedDelta := Disk.acts_addByKey [107]
  exact .cons ⟨⟨⟨nofun, fun hopen => absurd hopen hclosed⟩, rfl⟩, trivial⟩
    (.cons ⟨hcreate, trivial⟩ (.cons ⟨rfl, trivial⟩ (.cons ⟨hclear, trivial⟩
    (.cons ⟨⟨trivial, rfl⟩, trivial⟩
    (.cons ⟨⟨fun _ _ h => (Except.ok.inj h).symm, rfl⟩, fun _ => ⟨_, rfl⟩⟩
    (.cons ⟨rfl, trivial⟩ (.cons ⟨hformat, trivial⟩
    (.cons ⟨hkey, trivial⟩ (.nil _)))))))))

theorem steps_openDeltaCalls {s : Disk Unit} :
    Steps BootStep s openDeltaCalls { s with mapped := deltaName :: s.mapped } := by
  have hname : '/' ∉ deltaName.toList := by decide
  have hactivate : s.Acts deltaLogicalVolume
      (.activateByPassphrase (some deltaName) deltaLogicalVolume [107] false) (.ok ())
      { s with mapped := deltaName :: s.mapped } := ⟨fun _ => hname, rfl⟩
  exact .cons ⟨rfl, trivial⟩ (.cons ⟨rfl, trivial⟩ (.cons ⟨rfl, trivial⟩ (.cons ⟨rfl, trivial⟩
    (.cons ⟨rfl, trivial⟩ (.cons ⟨hactivate, trivial⟩ (.nil _))))))

theorem steps_markDeltaCalls :
    Steps BootStep { formattedDelta with mapped := [deltaName] } markDeltaCalls created := by
  have hmkfs : Disk.Acts deltaLogicalVolume { formattedDelta with mapped := [deltaName] }
      (.mkfs deltaDevice .ext4 .none) (.ok ())
      ⟨true, Header.initializingMark, [deltaName], .fs .ext4, none⟩ :=
    Disk.acts_mkfs .ext4 .none (by decide) ⟨deltaName, List.mem_cons_self, by decide⟩
  have hlabel : Disk.Acts deltaLogicalVolume
      ⟨true, Header.initializingMark, [deltaName], .fs .ext4, none⟩
      (.setLabel deltaLogicalVolume luks2SubsystemName) (.ok ()) created :=
    Disk.acts_setLabel initState_readyMark
  exact .cons ⟨hmkfs, trivial⟩ (.cons ⟨rfl, trivial⟩ (.cons ⟨rfl, trivial⟩
    (.cons ⟨hlabel, trivial⟩ (.nil _))))

theorem steps_findDeltaCalls : Steps BootStep used findDeltaCalls used :=
  .cons ⟨⟨⟨fun _ _ => rfl, fun _ => rfl⟩, rfl⟩, trivial⟩ (.cons ⟨rfl, trivial⟩
    (.cons ⟨⟨trivial, rfl⟩, trivial⟩
    (.cons ⟨⟨fun _ _ h => (Except.ok.inj h).symm, rfl⟩, fun _ => ⟨_, rfl⟩⟩ (.nil _))))

theorem steps_firstBoot (location : DeltaLocation) :
    Steps BootStep installed (firstBoot location).events created := by
  refine steps_append.mpr ⟨_, steps_rootfsCalls, ?_⟩
  refine steps_append.mpr ⟨_, steps_createDeltaCalls, ?_⟩
  exact steps_append.mpr ⟨_, steps_openDeltaCalls, steps_markDeltaCalls⟩

theorem steps_secondBoot :
    Steps BootStep used secondBoot.events { used with mapped := [deltaName] } := by
  refine steps_append.mpr ⟨_, steps_rootfsCalls, ?_⟩
  refine steps_append.mpr ⟨_, steps_findDeltaCalls, ?_⟩
  refine steps_append.mpr ⟨_, steps_openDeltaCalls, ?_⟩
  exact .cons ⟨⟨fun _ _ => rfl, rfl⟩, trivial⟩ (.cons ⟨⟨fun _ _ => rfl, rfl⟩, trivial⟩ (.nil _))

/-- The second boot finds what was written after the first one. Without `disk-persist`, the first
boot already begins with an empty volume. -/
theorem delta_data_two_boots :
    ((∀ e ∈ secondBoot.events, ¬Destroys e.op) ∧
      (used.data = some () ∧ { used with mapped := [deltaName] }.data = used.data)) ∧
    Formatted (firstBoot .disk).events ∧ created.data = none := by
  have hinstalled : PowerCycle installed installed := ⟨rfl, rfl, rfl, fun _ => rfl⟩
  have hused : PowerCycle created used := ⟨rfl, rfl, rfl, fun _ => rfl⟩
  have hconfig : Persists (overlayConfig .diskPersist) := ⟨rfl, rfl⟩
  have hfirst : Runs (setupVolumesRequiredByFde id) BootStep PowerCycle installed
      [firstBoot .diskPersist] created :=
    runs_singleton.mpr ⟨installed, hinstalled, path_firstBoot _ nofun, steps_firstBoot _⟩
  have hkept := (delta_data hfirst hused path_secondBoot steps_secondBoot).1 []
    (firstBoot .diskPersist) [] rfl rfl (by simpa using ⟨⟨_, rfl, hconfig⟩, ⟨_, rfl, hconfig⟩⟩)
  have hfresh := (delta_data (.nil installed) hinstalled (path_firstBoot .disk nofun)
    (steps_firstBoot .disk)).2 _ rfl (.inl rfl) rfl
  exact ⟨⟨hkept.1, rfl, hkept.2⟩, hfresh.1, hfresh.2.2⟩

end CryptPilot.Volume
