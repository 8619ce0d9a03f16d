import CryptPilot.Crypt.InitRun
import CryptPilot.Fde.BeforeSysroot

/-!
# A volume that is marked ready was initialized

Four kinds of runs write the marker in the header of a device: `init`, opening a temporary volume,
and the boot stage with a delta volume on disk. A run can fail or be killed at any point, and then
any other run can follow.

No program sets the marker before everything else is done (`orderly_*`), nothing else sets it
(`Disk.Step.ready`), and formatting removes it. So a marker that is there was set by the run that
formatted the device last (`ready_initialized`).
-/

namespace CryptPilot.Volume

open CryptPilot.Data CryptPilot.Data.Prog CryptPilot.Core CryptPilot.Crypt CryptPilot.Fde

/-! ## Calls -/

/-- A call that formatted the device. One that failed changed nothing. -/
def Formats (dev : Path) (e : Call) : Prop :=
  ∃ subsystem integrity, e = ⟨.act (.cryptFormat dev subsystem integrity), Except.ok ()⟩

def gotKey (provider : KeyProviderConfig) (passphrase : Passphrase) : Call :=
  ⟨.getKey provider, Except.ok passphrase⟩

def addedKeySlot (dev : Path) (passphrase : Passphrase) : Call :=
  ⟨.act (.addByKey dev passphrase), Except.ok ()⟩

def opened (volume : String) (dev : Path) (passphrase : Passphrase) (noJournal : Bool) : Call :=
  ⟨.act (.activateByPassphrase (some volume) dev passphrase noJournal), Except.ok ()⟩

def madeFs (path : Path) (fs : MakeFsType) (integrity : IntegrityType) : Call :=
  ⟨.act (.mkfs path fs integrity), Except.ok ()⟩

/-- `P` holds of the calls before and after the last one that formatted the device. -/
def SinceFormat (dev : Path) (P : List Call → List Call → Prop) (past : List Call) : Prop :=
  ∃ pre e post, past = pre ++ e :: post ∧ Formats dev e ∧ (∀ e ∈ post, ¬Formats dev e) ∧ P pre post

/-- The volume got a key slot for a key of the provider. -/
def Keyed (dev : Path) (provider : KeyProviderConfig) (passphrase : Passphrase)
    (pre post : List Call) : Prop :=
  gotKey provider passphrase ∈ pre ∧ addedKeySlot dev passphrase ∈ post

/-- A file system was made on the volume, at the path that `nodeOf` gives to an open volume. -/
def HasFs (dev : Path) (passphrase : Passphrase) (nodeOf : String → Path) (fs : MakeFsType)
    (post : List Call) : Prop :=
  ∃ volume noJournal integrity,
    [opened volume dev passphrase noJournal, madeFs (nodeOf volume) fs integrity] <:+: post

/-- The volume was initialized with a key of the provider, and with a file system if there has to be
one. -/
def Complete (dev : Path) (provider : KeyProviderConfig) (makefs : Option MakeFsType)
    (nodeOf : String → Path) (pre post : List Call) : Prop :=
  ∃ passphrase, Keyed dev provider passphrase pre post ∧
    ∀ fs, makefs = some fs → HasFs dev passphrase nodeOf fs post

theorem SinceFormat.mono {dev : Path} {P P' : List Call → List Call → Prop} {past : List Call}
    (h : SinceFormat dev P past)
    (hP : ∀ pre post, (∀ e ∈ post, e ∈ past) → P pre post → P' pre post) :
    SinceFormat dev P' past := by
  obtain ⟨pre, e, post, rfl, he, hpost, hp⟩ := h
  refine ⟨pre, e, post, rfl, he, hpost, hP pre post (fun e' he' => ?_) hp⟩
  exact List.mem_append_right _ (List.mem_cons_of_mem _ he')

theorem SinceFormat.append {dev : Path} {P P' : List Call → List Call → Prop}
    {past es : List Call} (h : SinceFormat dev P past) (hes : ∀ e ∈ es, ¬Formats dev e)
    (hP : ∀ pre post, P pre post → P' pre (post ++ es)) : SinceFormat dev P' (past ++ es) := by
  obtain ⟨pre, e, post, rfl, he, hpost, hp⟩ := h
  refine ⟨pre, e, post ++ es, by simp, he, ?_, hP pre post hp⟩
  simpa [or_imp, forall_and] using ⟨hpost, hes⟩

/-- What is added after the last call does not undo what was done. -/
theorem Complete.append {dev : Path} {provider : KeyProviderConfig} {makefs : Option MakeFsType}
    {nodeOf : String → Path} {pre post : List Call} (h : Complete dev provider makefs nodeOf pre post)
    (es : List Call) : Complete dev provider makefs nodeOf pre (post ++ es) := by
  obtain ⟨passphrase, ⟨hkey, hslot⟩, hfs⟩ := h
  refine ⟨passphrase, ⟨hkey, List.mem_append_left _ hslot⟩, fun fs hmakefs => ?_⟩
  obtain ⟨volume, noJournal, integrity, hcalls⟩ := hfs fs hmakefs
  exact ⟨volume, noJournal, integrity, hcalls.trans (List.prefix_append _ _).isInfix⟩

/-! ## Programs -/

/-- When a program that uses a provider and makes a file system may format and set the label. -/
def Orderly (provider : KeyProviderConfig) (makefs : Option MakeFsType) (past : List Call) :
    Op → Prop
  | .act (.cryptFormat _ subsystem _) => subsystem = luks2SubsystemInitializing
  | .act (.setLabel dev _) => SinceFormat dev (Complete dev provider makefs volumePath) past
  | _ => True

section
variable {debug : String → String} {provider : KeyProviderConfig} {makefs : Option MakeFsType}
  {dev : Path} {passphrase : Passphrase} {integrity : IntegrityType} {past : List Call}

theorem orderly_of_neutral {op : Op} (h : op.Neutral) : Orderly provider makefs past op := by
  cases op with
  | act action => cases action <;> trivial
  | _ => trivial

theorem not_formats_of_neutral {op : Op} (h : op.Neutral) (r : op.Res) (dev : Path) :
    ¬Formats dev ⟨op, r⟩ := by
  rintro ⟨subsystem, integrity, heq⟩
  cases heq
  exact h

/-- Other operations keep what was done since formatting. -/
theorem SinceFormat.keep {P : List Call → List Call → Prop}
    (h : SinceFormat dev P past) (hP : ∀ pre post es, P pre post → P pre (post ++ es)) {op : Op}
    {r : op.Res} {past' : List Call} (hpast : record past op r past') (hop : op.Neutral) :
    SinceFormat dev P past' := by
  rw [hpast]
  refine h.append (fun e he => ?_) fun pre post => hP pre post _
  rw [List.mem_singleton.mp he]
  exact not_formats_of_neutral hop r dev

/-- Programs that neither format nor set a label. -/
theorem orderly_neutral {α : Type} {p : Cmd α} {P : List Call → List Call → Prop}
    (hp : p.Calls Op.Neutral) (h : SinceFormat dev P past)
    (hP : ∀ pre post es, P pre post → P pre (post ++ es)) :
    p.Ensures record (Orderly provider makefs) (fun _ => SinceFormat dev P) past :=
  hp.ensures (fun _ _ _ _ hop h hr => h.keep hP hr hop) (fun _ _ hop _ => orderly_of_neutral hop) h

/-- The same before the device is formatted. -/
theorem orderly_before {α : Type} {p : Cmd α} (hp : p.Calls Op.Neutral) :
    p.Ensures record (Orderly provider makefs) (fun _ _ => True) past :=
  hp.ensures_true fun _ _ => orderly_of_neutral

/-- Formatting puts the key that was fetched into a slot. -/
theorem orderly_format (hkey : gotKey provider passphrase ∈ past) :
    (format debug dev passphrase integrity).Ensures record (Orderly provider makefs)
      (fun _ => SinceFormat dev (Keyed dev provider passphrase)) past := by
  refine .context (ensures_act_bind trivial fun past₁ h₁ => ?_)
  refine ensures_act_bind rfl fun past₂ h₂ => ensures_act.mpr ⟨trivial, fun past₃ h₃ => ?_⟩
  refine ⟨past₁, ⟨.act (.cryptFormat dev luks2SubsystemInitializing integrity), Except.ok ()⟩,
    [addedKeySlot dev passphrase], ?_, ⟨_, _, rfl⟩, ?_, ?_, List.mem_singleton_self _⟩
  · rw [h₃, h₂, List.append_assoc]
    rfl
  · rintro e he ⟨subsystem, integrity', heq⟩
    rw [List.mem_singleton.mp he] at heq
    cases heq
  · rw [h₁]
    exact List.mem_append_left _ hkey

/-- Opening a volume ends with the call that opens it. -/
theorem orderly_open {P : List Call → List Call → Prop} {volume : String}
    (hP : ∀ pre post es, P pre post → P pre (post ++ es)) (h : SinceFormat dev P past) :
    (openWithCheckPassphrase debug volume dev passphrase integrity).Ensures record
      (Orderly provider makefs) (fun _ past' => ∃ past₀ noJournal, SinceFormat dev P past₀ ∧
        past' = past₀ ++ [opened volume dev passphrase noJournal]) past := by
  have hcheck : (checkPassphrase debug dev passphrase).Calls Op.Neutral :=
    quiet_checkPassphrase.mono fun _ => Op.Quiet.neutral
  refine .bind (.context (orderly_neutral hcheck h hP)) fun _ past₁ h₁ => .context ?_
  refine ensures_act_bind trivial fun past₂ h₂ => ensures_act_bind trivial fun past₃ h₃ => ?_
  refine ensures_act.mpr ⟨trivial, fun past₄ h₄ => ⟨past₃, _, ?_, h₄⟩⟩
  exact (h₁.keep hP h₂ trivial).keep hP h₃ trivial

/-- A file system that is made right after opening the volume is on that volume. -/
theorem orderly_forceMkfs {volume : String} {fs : MakeFsType} {noJournal : Bool}
    (h : SinceFormat dev (Keyed dev provider passphrase) past) :
    (forceMkfs debug (volumePath volume) fs integrity).Ensures record (Orderly provider makefs)
      (fun _ => SinceFormat dev (Complete dev provider (some fs) volumePath))
      (past ++ [opened volume dev passphrase noJournal]) := by
  refine .context (ensures_act.mpr ⟨trivial, fun past' hpast' => ?_⟩)
  rw [hpast', List.append_assoc]
  refine h.append ?_ fun pre post hkeyed => ⟨passphrase, ?_, ?_⟩
  · rintro e he ⟨subsystem, integrity', rfl⟩
    rcases List.mem_pair.mp he with heq | heq <;> cases heq
  · exact ⟨hkeyed.1, List.mem_append_left _ hkeyed.2⟩
  · rintro _ ⟨⟩
    exact ⟨volume, noJournal, integrity, (List.suffix_append _ _).isInfix⟩

/-- The label is set last. -/
theorem orderly_mark (h : SinceFormat dev (Complete dev provider makefs volumePath) past) :
    (markVolumeAsInitialized debug dev).Ensures record (Orderly provider makefs) (fun _ _ => True)
      past := by
  have hP (pre post es : List Call) (h : Complete dev provider makefs volumePath pre post) :=
    h.append es
  refine .context (ensures_act_bind trivial fun past₁ h₁ => ensures_act_bind trivial fun past₂ h₂ => ?_)
  exact ensures_act.mpr ⟨(h.keep hP h₁ trivial).keep hP h₂ trivial, fun _ _ => trivial⟩

end

/-! ## The commands -/

section
variable {debug : String → String} {past : List Call}

/-- A key that is fetched is there when the rest of the program needs it. -/
theorem orderly_getKey {β : Type} {provider : KeyProviderConfig} {makefs : Option MakeFsType}
    {message : String} {f : Passphrase → Cmd β} {Q : β → List Call → Prop}
    (h : ∀ passphrase past', gotKey provider passphrase ∈ past' →
      (f passphrase).Ensures record (Orderly provider makefs) Q past') :
    (context message (getKey provider) >>= f).Ensures record (Orderly provider makefs) Q past := by
  refine .bind (.context (ensures_getKey.mpr ⟨trivial, fun passphrase past' hpast' => ?_⟩))
    fun passphrase past' hpast' => h passphrase past' hpast'
  rw [hpast']
  exact List.mem_append_right _ (List.mem_singleton_self _)

theorem keyed_append {dev : Path} {provider : KeyProviderConfig} {passphrase : Passphrase}
    (pre post es : List Call) (h : Keyed dev provider passphrase pre post) :
    Keyed dev provider passphrase pre (post ++ es) :=
  ⟨h.1, List.mem_append_left _ h.2⟩

/-- Without a file system, a key is all there has to be. -/
theorem SinceFormat.complete {dev : Path} {provider : KeyProviderConfig} {passphrase : Passphrase}
    (h : SinceFormat dev (Keyed dev provider passphrase) past) :
    SinceFormat dev (Complete dev provider none volumePath) past :=
  h.mono fun _ _ _ hkeyed => ⟨passphrase, hkeyed, fun _ hnone => nomatch hnone⟩

theorem orderly_tempLuksVolumeOpen {dev : Path} {provider : KeyProviderConfig}
    {makefs : Option MakeFsType} {passphrase : Passphrase} {integrity : IntegrityType}
    (h : SinceFormat dev (Keyed dev provider passphrase) past) :
    (tempLuksVolumeOpen debug dev passphrase integrity).Ensures record (Orderly provider makefs)
      (fun volume past' => ∃ past₀ noJournal,
        SinceFormat dev (Keyed dev provider passphrase) past₀ ∧
        past' = past₀ ++ [opened volume dev passphrase noJournal]) past := by
  have hname : randomName.Calls Op.Neutral := ⟨trivial, fun _ => calls_done⟩
  refine .bind (orderly_neutral hname h keyed_append) fun name past₁ h₁ => ?_
  exact .bind (orderly_open keyed_append h₁) fun _ past₂ h₂ => ensures_pure.mpr h₂

theorem orderly_initFs {config : VolumeConfig} {provider : KeyProviderConfig}
    {passphrase : Passphrase} {integrity : IntegrityType}
    (h : SinceFormat config.dev (Keyed config.dev provider passphrase) past) :
    (initFs debug config passphrase integrity).Ensures record
      (Orderly provider config.extraConfig.makefs)
      (fun _ => SinceFormat config.dev
        (Complete config.dev provider config.extraConfig.makefs volumePath)) past := by
  unfold initFs
  cases config.extraConfig.makefs with
  | none => exact ensures_pure.mpr h.complete
  | some fs =>
    refine .bind (orderly_tempLuksVolumeOpen h) ?_
    rintro volume past₂ ⟨past₁, noJournal, h₁, rfl⟩
    refine .ensuring (orderly_forceMkfs h₁) (quiet_close.mono fun _ => Op.Quiet.neutral) ?_ ?_
    · exact fun _ _ _ _ _ hop h hr => h.keep (fun _ _ es h => h.append es) hr hop
    · exact fun _ _ => orderly_of_neutral

theorem orderly_persistentDiskInit {options : InitOptions} {config : VolumeConfig} :
    (persistentDiskInit debug options config).Ensures record
      (Orderly config.encrypt.keyProvider config.extraConfig.makefs) (fun _ _ => True) past := by
  refine .bind (orderly_before (neutral_of_quiet quiet_checkInitStatus)) fun _ _ _ => ?_
  refine .bind (orderly_before (neutral_of_quiet quiet_confirmInit)) fun _ _ _ => ?_
  refine .bind (orderly_before (neutral_of_quiet quiet_checkNotInUse)) fun _ _ _ => ?_
  refine orderly_getKey fun passphrase past hkey => ?_
  refine .bind (orderly_format hkey) fun _ past₁ h₁ => ?_
  exact .bind (orderly_initFs h₁) fun _ past₂ h₂ => orderly_mark h₂

theorem orderly_init {options : InitOptions} {config : VolumeConfig} :
    (init debug options config).Ensures record
      (Orderly config.encrypt.keyProvider config.extraConfig.makefs) (fun _ _ => True) past := by
  unfold init
  cases config.volumeType with
  | temporary => exact ensures_pure.mpr trivial
  | persistent => exact orderly_persistentDiskInit

/-- The volume was just opened. If making the file system fails, it is closed again. -/
theorem orderly_openFs {config : VolumeConfig} {provider : KeyProviderConfig}
    {passphrase : Passphrase} {integrity : IntegrityType} {noJournal : Bool}
    (h : SinceFormat config.dev (Keyed config.dev provider passphrase) past) :
    (openFs debug config integrity).Ensures record (Orderly provider config.extraConfig.makefs)
      (fun _ => SinceFormat config.dev
        (Complete config.dev provider config.extraConfig.makefs volumePath))
      (past ++ [opened config.volume config.dev passphrase noJournal]) := by
  unfold openFs
  cases config.extraConfig.makefs with
  | none =>
    have hopened : Op.Neutral (opened config.volume config.dev passphrase noJournal).op := trivial
    exact ensures_pure.mpr (h.keep keyed_append rfl hopened).complete
  | some fs =>
    refine .bind (orderly_forceMkfs h).attempt fun outcome past₁ h₁ => ?_
    cases outcome with
    | ok u => exact ensures_pure.mpr (h₁ u rfl)
    | error e =>
      exact .bind (orderly_before (neutral_of_quiet quiet_close)) fun _ _ _ => ensures_fail

theorem orderly_temporaryDiskOpen {config : VolumeConfig} :
    (temporaryDiskOpen debug config).Ensures record
      (Orderly config.encrypt.keyProvider config.extraConfig.makefs) (fun _ _ => True) past := by
  refine orderly_getKey fun passphrase past hkey => ?_
  refine .bind (orderly_format hkey) fun _ past₁ h₁ => ?_
  refine .bind (orderly_open keyed_append h₁) ?_
  rintro _ _ ⟨past₂, noJournal, h₂, rfl⟩
  exact .bind (orderly_openFs h₂) fun _ past₃ h₃ => orderly_mark h₃

theorem orderly_openForSpecificVolume {config : VolumeConfig} {checkFs : Bool} :
    (openForSpecificVolume debug config checkFs).Ensures record
      (Orderly config.encrypt.keyProvider config.extraConfig.makefs) (fun _ _ => True) past := by
  have hcheck : ∀ past, (checkFsReady debug config checkFs).Ensures record
      (Orderly config.encrypt.keyProvider config.extraConfig.makefs) (fun _ _ => True) past :=
    fun _ => orderly_before (neutral_of_quiet quiet_checkFsReady)
  refine .bind (orderly_before (calls_pathExists trivial)) fun active _ _ => ?_
  cases active with
  | true => exact ensures_pure.mpr trivial
  | false =>
    refine .bind (orderly_before (neutral_of_quiet quiet_checkNotInUse)) fun _ _ _ => ?_
    cases config.volumeType with
    | temporary => exact .bind orderly_temporaryDiskOpen fun _ past _ => hcheck past
    | persistent =>
      refine .bind (orderly_before (neutral_of_quiet quiet_persistentDiskOpen)) ?_
      exact fun _ past _ => hcheck past

end

/-! ## The boot stage -/

/-- The file system that the boot stage makes on the delta volume. -/
def makefsOf (config : FdeConfig) : Option MakeFsType :=
  match config.backend with
  | .overlayfs => some .ext4
  | .dmSnapshot => none

section
variable {debug : String → String} {past : List Call} {config : FdeConfig}

/-- A volume whose content has to be made was formatted, and then opened. -/
def Recreated (config : FdeConfig) (past : List Call) : Prop :=
  ∃ past₀ passphrase noJournal,
    SinceFormat deltaLogicalVolume
      (Keyed deltaLogicalVolume config.delta.encrypt.keyProvider passphrase) past₀ ∧
    past = past₀ ++ [opened deltaName deltaLogicalVolume passphrase noJournal]

theorem orderly_setupDeltaVolumeLuks2 {makefs : Option MakeFsType} :
    (setupDeltaVolumeLuks2 debug config.delta config.location).Ensures record
      (Orderly config.delta.encrypt.keyProvider makefs)
      (fun result past' => result.1 = true → Recreated config past') past := by
  refine orderly_getKey fun passphrase past hkey => ?_
  have hkeep : ∀ past op r past', op.Neutral → gotKey config.delta.encrypt.keyProvider passphrase ∈ past →
      record past op r past' → gotKey config.delta.encrypt.keyProvider passphrase ∈ past' := by
    rintro past op r _ _ hmem rfl
    exact List.mem_append_left _ hmem
  refine .bind ((neutral_of_inert inert_recreatesDelta).ensures hkeep
    (fun _ _ hop _ => orderly_of_neutral hop) hkey) fun recreate past₁ hkey₁ => ?_
  cases recreate with
  | true =>
    refine .bind (orderly_format hkey₁) fun _ past₂ h₂ => .bind (orderly_open keyed_append h₂) ?_
    rintro _ past₃ ⟨past₀, noJournal, h₀, hpast₃⟩
    exact ensures_pure.mpr fun _ => ⟨past₀, passphrase, noJournal, h₀, hpast₃⟩
  | false =>
    refine .bind (orderly_before (.doIf fun h => nomatch h)) fun _ past₂ _ => ?_
    refine .bind (orderly_before (neutral_of_quiet quiet_openWithCheckPassphrase)) fun _ _ _ => ?_
    exact ensures_pure.mpr fun h => nomatch h

theorem Recreated.neutral (h : Recreated config past) :
    ∃ passphrase, SinceFormat deltaLogicalVolume
      (Keyed deltaLogicalVolume config.delta.encrypt.keyProvider passphrase) past := by
  obtain ⟨past₀, passphrase, noJournal, h₀, rfl⟩ := h
  have hop : Op.Neutral (opened deltaName deltaLogicalVolume passphrase noJournal).op := trivial
  exact ⟨passphrase, h₀.keep keyed_append rfl hop⟩

theorem orderly_setupDeltaBackend {recreate : Bool} {integrity : IntegrityType}
    (h : recreate = true → Recreated config past) :
    (setupDeltaBackend debug config recreate integrity).Ensures record
      (Orderly config.delta.encrypt.keyProvider (makefsOf config))
      (fun _ past' => recreate = true → SinceFormat deltaLogicalVolume
        (Complete deltaLogicalVolume config.delta.encrypt.keyProvider (makefsOf config) volumePath)
        past') past := by
  unfold setupDeltaBackend makefsOf
  cases config.backend with
  | overlayfs =>
    cases recreate with
    | true =>
      obtain ⟨past₀, passphrase, noJournal, h₀, rfl⟩ := h rfl
      have hpath : deltaDevice = volumePath deltaName := by decide
      rw [hpath]
      exact (orderly_forceMkfs h₀).mono fun _ _ h _ => h
    | false =>
      refine (orderly_before (neutral_of_inert inert_resizeExt4Filesystem)).mono ?_
      exact fun _ _ _ h => nomatch h
  | dmSnapshot =>
    have hchain : (setupDmSnapshotDeviceChain debug (dmVerityOutput .dmSnapshot).2 deltaDevice
        (config.location = .diskPersist) >>= fun _ => resizeExt4Filesystem rootfsDevice).Calls
          Op.Neutral :=
      .bind neutral_setupDmSnapshotDeviceChain fun _ => neutral_of_inert inert_resizeExt4Filesystem
    cases recreate with
    | true =>
      obtain ⟨passphrase, hpast⟩ := (h rfl).neutral
      exact (orderly_neutral hchain hpast keyed_append).mono fun _ _ h _ => h.complete
    | false => exact (orderly_before hchain).mono fun _ _ _ h => nomatch h

theorem orderly_setupDeltaOnDisk :
    (setupDeltaOnDisk debug config).Ensures record
      (Orderly config.delta.encrypt.keyProvider (makefsOf config)) (fun _ _ => True) past := by
  refine .bind (orderly_before (.attempt (calls_act trivial))) fun _ _ _ => ?_
  refine .bind (orderly_before neutral_ensureDeltaVolumeExistAndExpanded) fun _ _ _ => ?_
  refine .bind orderly_setupDeltaVolumeLuks2 fun result past₁ h₁ => ?_
  refine .bind (orderly_setupDeltaBackend h₁) fun _ past₂ h₂ => ?_
  exact .doIf (fun hrecreate => orderly_mark (h₂ hrecreate)) fun _ => trivial

theorem orderly_setupVolumesRequiredByFde :
    (setupVolumesRequiredByFde debug (.ok (some config))).Ensures record
      (Orderly config.delta.encrypt.keyProvider (makefsOf config)) (fun _ _ => True) past := by
  rw [setupVolumesRequiredByFde_some]
  refine .bind (orderly_before (neutral_of_inert inert_setupRootfs)) fun _ _ _ => ?_
  split_ifs
  · exact orderly_setupDeltaOnDisk
  · exact orderly_before neutral_setupDeltaInRam

end

/-! ## Histories -/

/-- A run of one of the programs, for one volume. -/
inductive Command where
  | init (options : InitOptions) (config : VolumeConfig)
  | openVolume (config : VolumeConfig) (checkFs : Bool)
  | closeVolume (volume : String)
  | beforeSysroot (config : Except String (Option FdeConfig))

namespace Command

def prog (debug : String → String) : Command → Cmd Unit
  | .init options config => Crypt.init debug options config
  | .openVolume config checkFs => openForSpecificVolume debug config checkFs
  | .closeVolume volume => Crypt.closeVolume volume
  | .beforeSysroot config => setupVolumesRequiredByFde debug config

/-- The key provider of a run that can initialize a volume, and the file system it has to make. -/
def setup : Command → Option (KeyProviderConfig × Option MakeFsType)
  | .init _ config | .openVolume config _ =>
    some (config.encrypt.keyProvider, config.extraConfig.makefs)
  | .closeVolume _ => none
  | .beforeSysroot (.ok (some config)) => some (config.delta.encrypt.keyProvider, makefsOf config)
  | .beforeSysroot _ => none

end Command

abbrev History := List (Run Op Op.Res Unit Command)

/-- The last run that formatted the device got as far as adding a key slot for its key, and making
the file system it is configured to make on the open volume. -/
def Initialized (dev : Path) (history : History) : Prop :=
  ∃ before run after provider makefs,
    history = before ++ run :: after ∧ run.input.setup = some (provider, makefs) ∧
    SinceFormat dev (Complete dev provider makefs Disk.node) run.events ∧
    ∀ later ∈ after, ∀ e ∈ later.events, ¬Formats dev e

/-- What happens to a disk between runs: no other tool writes the header. -/
def Idle {δ : Type} (s s' : Disk δ) : Prop := s'.header = s.header

/-- **Every program is orderly**, or neither formats nor sets a label. -/
theorem orderly_prog (debug : String → String) (command : Command) :
    (∃ provider makefs, command.setup = some (provider, makefs) ∧
      (command.prog debug).Ensures record (Orderly provider makefs) (fun _ _ => True) []) ∨
    (command.prog debug).Calls Op.Neutral := by
  cases command with
  | init options config => exact .inl ⟨_, _, rfl, orderly_init⟩
  | openVolume config checkFs => exact .inl ⟨_, _, rfl, orderly_openForSpecificVolume⟩
  | closeVolume volume => exact .inr (neutral_of_quiet quiet_closeVolume)
  | beforeSysroot config =>
    rcases config with e | _ | config
    · exact .inr calls_done
    · exact .inr calls_done
    · exact .inl ⟨_, _, rfl, orderly_setupVolumesRequiredByFde⟩

section
variable {δ : Type} {debug : String → String} {dev : Path} {command : Command}
  {es pre post : List Call} {rest : Cmd Unit} {e : Call}

/-- What a run does, it does when it may. -/
theorem orderly_of_path (hpath : Path (command.prog debug) es rest) (hes : es = pre ++ e :: post) :
    (∃ provider makefs, command.setup = some (provider, makefs) ∧
      Orderly provider makefs pre e.op) ∨ e.op.Neutral := by
  rcases orderly_prog debug command with ⟨provider, makefs, hsetup, horderly⟩ | hneutral
  · exact .inl ⟨provider, makefs, hsetup, (horderly.trace hpath).2 pre e post hes⟩
  · exact .inr (hneutral.path hpath e (by simp [hes]))

/-- No run formats a device with the marker of one that is ready. -/
theorem formats_initializing {subsystem : String} {integrity : IntegrityType}
    (hpath : Path (command.prog debug) es rest)
    (he : ⟨.act (.cryptFormat dev subsystem integrity), Except.ok ()⟩ ∈ es) :
    subsystem = luks2SubsystemInitializing := by
  obtain ⟨pre, post, hes⟩ := List.append_of_mem he
  rcases orderly_of_path hpath hes with ⟨_, _, _, horderly⟩ | hneutral
  · exact horderly
  · exact hneutral.elim

/-- A run that marks a volume has initialized it before. -/
theorem complete_of_marksReady (hpath : Path (command.prog debug) es rest)
    (hes : es = pre ++ e :: post) (he : Disk.MarksReady dev e) :
    ∃ provider makefs, command.setup = some (provider, makefs) ∧
      SinceFormat dev (Complete dev provider makefs volumePath) pre ∧ ¬Formats dev e := by
  rcases he with rfl | ⟨integrity, rfl⟩
  · rcases orderly_of_path hpath hes with ⟨provider, makefs, hsetup, horderly⟩ | hneutral
    · refine ⟨provider, makefs, hsetup, horderly, ?_⟩
      rintro ⟨subsystem, integrity, heq⟩
      cases heq
    · exact hneutral.elim
  · have hsubsystem : luks2SubsystemName = luks2SubsystemInitializing :=
      formats_initializing hpath (hes ▸ List.mem_append_right _ List.mem_cons_self)
    exact absurd hsubsystem (by decide)

/-- A device that stays ready was not formatted. -/
theorem not_formats_of_ready {t t' : Disk δ} (hpath : Path (command.prog debug) es rest)
    (he : e ∈ es) (hstep : t.Step dev e.op e.res t') (ht' : t'.initState = .ready) :
    ¬Formats dev e := by
  rintro ⟨subsystem, integrity, rfl⟩
  obtain ⟨_, header, hheader, rfl⟩ := hstep.cryptFormat
  have hname := Disk.ofSubsystem_eq_ready.mp (hheader.symm.trans ht')
  exact absurd (hname.symm.trans (formats_initializing hpath he)) (by decide)

/-- The path at which a file system is made is that of the open volume. -/
theorem Complete.node {provider : KeyProviderConfig} {makefs : Option MakeFsType} {t t' : Disk δ}
    (h : Complete dev provider makefs volumePath pre post)
    (hsteps : Steps (Disk.Step dev) t es t') (hes : ∀ e ∈ post, e ∈ es) :
    Complete dev provider makefs Disk.node pre post := by
  obtain ⟨passphrase, hkeyed, hfs⟩ := h
  refine ⟨passphrase, hkeyed, fun fs hmakefs => ?_⟩
  obtain ⟨volume, noJournal, integrity, hcalls⟩ := hfs fs hmakefs
  have hopened : opened volume dev passphrase noJournal ∈ es :=
    hes _ (hcalls.subset List.mem_cons_self)
  obtain ⟨u, u', hstep⟩ := hsteps.mem hopened
  rw [Disk.Step.volumePath hstep] at hcalls
  exact ⟨volume, noJournal, integrity, hcalls⟩

end

/-! ## Opening -/

/-- The header of the device was read, and said that the volume is ready. -/
def ReadReady (dev : Path) (past : List Call) : Prop :=
  ∃ header : Header, ⟨.readHeader dev, Except.ok header⟩ ∈ past ∧ header.initState = .ready

/-- A persistent volume is only opened if its header says that it is ready. -/
def OpensReady (dev : Path) (past : List Call) (op : Op) : Prop :=
  ∀ volume d passphrase noJournal,
    op = .act (.activateByPassphrase (some volume) d passphrase noJournal) → ReadReady dev past

theorem opensReady_openForSpecificVolume {debug : String → String} {config : VolumeConfig}
    {checkFs : Bool} (hpersistent : config.volumeType = .persistent) :
    (openForSpecificVolume debug config checkFs).Ensures record (OpensReady config.dev)
      (fun _ _ => True) [] := by
  -- once it was read, it was read
  have hrest {α : Type} (p : Cmd α) {past : List Call} (h : ReadReady config.dev past) :
      p.Ensures record (OpensReady config.dev) (fun _ => ReadReady config.dev) past := by
    refine calls_true.ensures (fun past op r past' _ h hr => ?_) (fun _ _ _ h _ _ _ _ _ => h) h
    obtain ⟨header, hmem, hready⟩ := h
    exact ⟨header, hr ▸ List.mem_append_left _ hmem, hready⟩
  have hbefore {α : Type} {p : Cmd α} (past : List Call)
      (hp : p.Calls fun op => ∀ action, op ≠ .act action) :
      p.Ensures record (OpensReady config.dev) (fun _ _ => True) past :=
    hp.ensures_true fun _ _ hop _ _ _ _ heq => absurd heq (hop _)
  refine .bind (hbefore _ (calls_pathExists nofun)) fun active past₁ _ => ?_
  cases active with
  | true => exact ensures_pure.mpr trivial
  | false =>
    rw [hpersistent]
    refine .bind (hbefore _ (.bind (calls_isDevInUse nofun) fun _ => calls_bailIf)) fun _ past₂ _ => ?_
    have hopen : (persistentDiskOpen debug config).Ensures record (OpensReady config.dev)
        (fun _ => ReadReady config.dev) past₂ := by
      refine .bind (ensures_isInitialized (Q := fun b past => b = true → ReadReady config.dev past)
        nofun fun r past₃ hr hready => ?_) fun initialized past₃ h₃ => ?_
      · obtain ⟨header, rfl, hheader⟩ := initStateOf_eq_ready (of_decide_eq_true hready)
        exact ⟨header, hr ▸ List.mem_append_right _ (List.mem_singleton_self _), hheader⟩
      · refine .bind (Q := fun _ => ReadReady config.dev) (.bailIf fun h => h₃ (by simpa using h)) ?_
        exact fun _ _ h => hrest _ h
    exact .bind hopen fun _ _ h => (hrest _ h).mono fun _ _ _ => trivial

section
variable {δ : Type} {debug : String → String} {dev : Path} {s s' : Disk δ} {history : History}

/-- **A volume that is marked ready was initialized**, whatever happened before: runs of any length,
each of them cut off at any point. So a persistent volume that is opened was initialized. -/
theorem ready_initialized (hs : s.initState ≠ .ready)
    (hruns : Runs (Command.prog debug) (Disk.Step dev) Idle s history s') :
    (s'.initState = .ready → Initialized dev history) ∧
    ∀ (config : VolumeConfig) (checkFs : Bool) (events : List Call) (rest : Cmd Unit)
      (s₁ s₂ : Disk δ) (passphrase : Passphrase) (noJournal : Bool),
      config.dev = dev → config.volumeType = .persistent → Idle s' s₁ →
      Path (openForSpecificVolume debug config checkFs) events rest →
      Steps (Disk.Step dev) s₁ events s₂ →
      opened config.volume dev passphrase noJournal ∈ events → Initialized dev history := by
  have hready : s'.initState = .ready → Initialized dev history := by
    intro hs'
    obtain ⟨before, run, after, pre, e, post, t, t', hhistory, hpath, hes, hstep, ht, ht', hsince⟩ :=
      hruns.last_change (I := fun s => s.initState = .ready)
        (fun s s' hidle h => (congrArg Header.initState hidle).symm.trans h) hs hs'
    obtain ⟨provider, makefs, hsetup, hcomplete, hmark⟩ :=
      complete_of_marksReady hpath hes ((hstep.ready ht').resolve_left ht)
    have hrun : run ∈ history := by simp [hhistory]
    obtain ⟨_, u, u', hsteps⟩ := hruns.mem hrun
    refine ⟨before, run, after, provider, makefs, hhistory, hsetup, ?_, ?_⟩
    · have hafter : ∀ e' ∈ e :: post, ¬Formats dev e' := by
        intro e' he'
        rcases List.mem_cons.mp he' with rfl | he'
        · exact hmark
        · obtain ⟨v, v', hv, _, hv'⟩ := hsince e' (.inl he')
          exact not_formats_of_ready hpath (by simp [hes, he']) hv hv'
      have hall := hcomplete.append hafter fun _ _ h => h.append (e :: post)
      rw [← hes] at hall
      exact hall.mono fun _ _ hmem h => h.node hsteps hmem
    · intro later hlater e' he'
      obtain ⟨v, v', hv, _, hv'⟩ := hsince e' (.inr ⟨later, hlater, he'⟩)
      exact not_formats_of_ready (hruns.mem (by simp [hhistory, hlater])).1 he' hv hv'
  refine ⟨hready, ?_⟩
  rintro config checkFs events rest s₁ s₂ passphrase noJournal rfl hpersistent hidle hpath hsteps hmem
  -- the header said so when it was read, and no operation before had made it say so
  obtain ⟨pre, post, hevents⟩ := List.append_of_mem hmem
  obtain ⟨header, hread, hheader⟩ := ((opensReady_openForSpecificVolume hpersistent).trace hpath).2
    pre _ post hevents _ _ _ _ rfl
  obtain ⟨pre₁, pre₂, rfl⟩ := List.append_of_mem hread
  rw [hevents, List.append_assoc, List.cons_append] at hsteps
  obtain ⟨t, hpre₁, hrest⟩ := steps_append.mp hsteps
  obtain ⟨t', hstep, _⟩ := steps_cons.mp hrest
  have ht : t.initState = .ready := (congrArg Header.initState hstep.readHeader.1).symm.trans hheader
  have hquiet : ∀ e ∈ pre₁, ¬Disk.MarksReady config.dev e := fun e he =>
    ((quiet_openForSpecificVolume hpersistent).path hpath e (by simp [hevents, he])).not_marksReady
  have hs₁ := Disk.ready_of_steps hpre₁ hquiet ht
  exact hready ((congrArg Header.initState hidle).symm.trans hs₁)

end

/-- `init` with `--yes`, on a device that was never used. -/
def firstRun : Run Op Op.Res Unit Command where
  input := .init ⟨false, true⟩ .data
  events := initCalls ⟨false, true⟩ .data (.ok Header.unused) [107]
  rest := .done (.ok ())

theorem ready_initialized_firstRun :
    newDisk.initState ≠ .ready ∧ Initialized "/dev/sdb" [firstRun] := by
  have hnew : newDisk.initState ≠ .ready := initState_unused.trans_ne nofun
  have hpath : Path (init id ⟨false, true⟩ .data)
      (initCalls ⟨false, true⟩ .data (.ok Header.unused) [107]) (.done (.ok ())) :=
    path_init id ⟨false, true⟩ rfl rfl (r := .ok Header.unused) hnew [107]
  have hsteps : Steps (Disk.Step VolumeConfig.data.dev) newDisk
      (initCalls ⟨false, true⟩ .data (.ok Header.unused) [107])
      { newDisk with header := Header.readyMark } :=
    steps_initCalls rfl rfl (fun _ h => (Except.ok.inj h).symm) [107]
  have hruns : Runs (Command.prog id) (Disk.Step "/dev/sdb") Idle newDisk [firstRun] _ :=
    runs_singleton.mpr ⟨newDisk, rfl, hpath, hsteps⟩
  exact ⟨hnew, (ready_initialized hnew hruns).1 initState_readyMark⟩

end CryptPilot.Volume
