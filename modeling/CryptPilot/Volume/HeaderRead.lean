import CryptPilot.Volume.Initialized

/-!
# Formatting after the header was read

`init` without `--force-reinit`, and the boot stage for a persistent delta volume, look at the header
before they format a device (`checked_*`). They take a header that cannot be read for one without a
marker, so a volume that is ready is kept exactly if its header can be read (`format_guarded_iff`).
-/

namespace CryptPilot.Volume

open CryptPilot.Data CryptPilot.Data.Prog CryptPilot.Core CryptPilot.Crypt CryptPilot.Fde

/-! ## What comes before formatting -/

/-- The header of the device was read, or could not be read, and the volume was not taken for
ready. -/
def ReadNotReady (dev : Path) (past : List Call) : Prop :=
  ∃ r : Except String Header, ⟨.readHeader dev, r⟩ ∈ past ∧ initStateOf r ≠ .ready

/-- Nothing was written. -/
def Untouched (past : List Call) : Prop := ∀ e ∈ past, e.op.Quiet

/-- When a program may format a device. -/
def Checked (past : List Call) (op : Op) : Prop :=
  ∀ dev subsystem integrity, op = .act (.cryptFormat dev subsystem integrity) →
    ReadNotReady dev past ∧ Untouched past

/-- The device is not formatted. -/
def Op.Formatless (op : Op) : Prop :=
  ∀ dev subsystem integrity, op ≠ .act (.cryptFormat dev subsystem integrity)

section
variable {debug : String → String} {past : List Call}

theorem Untouched.concat {op : Op} {r : op.Res} {past' : List Call} (h : Untouched past)
    (hr : record past op r past') (hop : op.Quiet) : Untouched past' := by
  intro e he
  rw [hr] at he
  rcases List.mem_append.mp he with he | he
  · exact h e he
  · rw [List.mem_singleton.mp he]
    exact hop

theorem ReadNotReady.concat {dev : Path} {op : Op} {r : op.Res} {past' : List Call}
    (h : ReadNotReady dev past) (hr : record past op r past') : ReadNotReady dev past' := by
  obtain ⟨answer, hmem, hanswer⟩ := h
  exact ⟨answer, hr ▸ List.mem_append_left _ hmem, hanswer⟩

theorem formatless_of_quiet {op : Op} (h : op.Quiet) : Op.Formatless op := by
  rintro dev subsystem integrity rfl
  exact h

theorem checked_of_formatless {op : Op} (h : Op.Formatless op) : Checked past op :=
  fun dev subsystem integrity hop => absurd hop (h dev subsystem integrity)

/-- Programs that do not write come before formatting. -/
theorem checked_quiet {α : Type} {p : Cmd α} (hp : p.Calls Op.Quiet) (h : Untouched past) :
    p.Ensures record Checked (fun _ => Untouched) past :=
  hp.ensures (fun _ _ _ _ hop h hr => h.concat hr hop)
    (fun _ _ hop _ => checked_of_formatless (formatless_of_quiet hop)) h

theorem checked_quiet_read {α : Type} {p : Cmd α} {dev : Path} (hp : p.Calls Op.Quiet)
    (h : Untouched past ∧ ReadNotReady dev past) :
    p.Ensures record Checked (fun _ past' => Untouched past' ∧ ReadNotReady dev past') past :=
  hp.ensures (fun _ _ _ _ hop h hr => ⟨h.1.concat hr hop, h.2.concat hr⟩)
    (fun _ _ hop _ => checked_of_formatless (formatless_of_quiet hop)) h

/-- Programs that do not format can come after it. -/
theorem checked_formatless {α : Type} {p : Cmd α} (hp : p.Calls Op.Formatless) :
    p.Ensures record Checked (fun _ _ => True) past :=
  hp.ensures_true fun _ _ => checked_of_formatless

theorem checked_format {dev : Path} {passphrase : Passphrase} {integrity : IntegrityType}
    (h : Untouched past ∧ ReadNotReady dev past) :
    (format debug dev passphrase integrity).Ensures record Checked (fun _ _ => True) past := by
  refine .context (.bind (checked_quiet_read (calls_act trivial) h) fun _ past₁ h₁ => ?_)
  refine ensures_act_bind ?_ fun past₂ _ => checked_formatless (calls_act nofun)
  rintro _ _ _ ⟨⟩
  exact ⟨h₁.2, h₁.1⟩

/-! ## The programs -/

section
variable {config : VolumeConfig} {options : InitOptions}

theorem checked_determineStatus (hpersistent : config.volumeType = .persistent)
    (h : Untouched past) : (determineStatus debug config).Ensures record Checked
      (fun status past' => Untouched past' ∧
        (status.kind = .requiresInit ∨ status.kind = .initializing → ReadNotReady config.dev past'))
      past := by
  refine .bind (checked_quiet (calls_pathExists trivial) h) fun active past₁ h₁ => ?_
  cases active with
  | true => exact ensures_pure.mpr ⟨h₁, by simp⟩
  | false =>
    refine .bind (checked_quiet (calls_pathExists trivial) h₁) fun present past₂ h₂ => ?_
    cases present with
    | false => exact ensures_pure.mpr ⟨h₂, by simp⟩
    | true =>
      rw [hpersistent]
      refine .bind (ensures_attempt_getInitState nofun) ?_
      rintro _ past₃ ⟨r, rfl, hr⟩
      have h₃ : Untouched past₃ := h₂.concat hr trivial
      have hmem : ⟨.readHeader config.dev, r⟩ ∈ past₃ :=
        hr ▸ List.mem_append_right _ (List.mem_singleton_self _)
      cases hstate : initStateOf r with
      | ready => exact ensures_pure.mpr ⟨h₃, by simp⟩
      | initializing => exact ensures_pure.mpr ⟨h₃, fun _ => ⟨r, hmem, by simp [hstate]⟩⟩
      | none => exact ensures_pure.mpr ⟨h₃, fun _ => ⟨r, hmem, by simp [hstate]⟩⟩

theorem checked_checkInitStatus (hpersistent : config.volumeType = .persistent)
    (hforce : options.forceReinit = false) (h : Untouched past) :
    (checkInitStatus debug options config).Ensures record Checked
      (fun _ past' => Untouched past' ∧ ReadNotReady config.dev past') past := by
  refine .bind (checked_determineStatus hpersistent h) ?_
  rintro ⟨kind, description⟩ past₁ ⟨h₁, hread⟩
  cases kind with
  | requiresInit => exact ensures_pure.mpr ⟨h₁, hread (.inl rfl)⟩
  | initializing => exact ensures_pure.mpr ⟨h₁, hread (.inr rfl)⟩
  | readyToOpen => exact .bailIf fun hbail => by simp [hforce] at hbail
  | _ => exact ensures_fail

theorem formatless_initFs {passphrase : Passphrase} {integrity : IntegrityType} :
    (initFs debug config passphrase integrity).Calls Op.Formatless := by
  unfold initFs
  cases config.extraConfig.makefs with
  | none => exact calls_done
  | some makefs =>
    have hopen : (tempLuksVolumeOpen debug config.dev passphrase integrity).Calls Op.Quiet :=
      .bind ⟨trivial, fun _ => calls_done⟩ fun _ =>
        .bind quiet_openWithCheckPassphrase fun _ => calls_done
    refine .bind (hopen.mono fun _ => formatless_of_quiet) fun volume => ?_
    exact .ensuring (.context (calls_act nofun)) (quiet_close.mono fun _ => formatless_of_quiet)

/-- `init` without `--force-reinit` formats a device only if it did not take the volume for ready. -/
theorem checked_persistentDiskInit (hpersistent : config.volumeType = .persistent)
    (hforce : options.forceReinit = false) :
    (persistentDiskInit debug options config).Ensures record Checked (fun _ _ => True) [] := by
  refine .bind (checked_checkInitStatus hpersistent hforce nofun) fun _ past₁ h₁ => ?_
  refine .bind (checked_quiet_read quiet_confirmInit h₁) fun _ past₂ h₂ => ?_
  refine .bind (checked_quiet_read quiet_checkNotInUse h₂) fun _ past₃ h₃ => ?_
  refine .bind (checked_quiet_read (.context (calls_getKey trivial)) h₃) fun key past₄ h₄ => ?_
  refine .bind (checked_format h₄) fun _ past₅ _ => ?_
  refine .bind (checked_formatless formatless_initFs) fun _ past₆ _ => ?_
  refine checked_formatless (.context (.bind (calls_act nofun) fun _ => ?_))
  exact .bind (calls_act nofun) fun _ => calls_act nofun

end

/-- The same for a persistent delta volume with a key that is kept. -/
theorem checked_setupDeltaVolumeLuks2 {config : DeltaConfig}
    (hpersistent : config.encrypt.keyProvider.volumeType = .persistent) :
    (setupDeltaVolumeLuks2 debug config .diskPersist).Ensures record Checked (fun _ _ => True) [] := by
  have hrecreate {past : List Call} (h : Untouched past) :
      (recreatesDelta config.encrypt.keyProvider .diskPersist).Ensures record Checked
        (fun recreate past' => Untouched past' ∧
          (recreate = true → ReadNotReady deltaLogicalVolume past')) past := by
    unfold recreatesDelta
    rw [hpersistent]
    refine .bind (ensures_isInitialized (Q := fun b past' => Untouched past' ∧
      (b = false → ReadNotReady deltaLogicalVolume past')) nofun fun r past₁ hr => ?_)
      fun initialized past₁ h₁ => ?_
    · refine ⟨h.concat hr trivial, fun hready => ⟨r, ?_, of_decide_eq_false hready⟩⟩
      exact hr ▸ List.mem_append_right _ (List.mem_singleton_self _)
    · cases initialized with
      | false => exact ensures_pure.mpr ⟨h₁.1, fun _ => h₁.2 rfl⟩
      | true => exact ensures_pure.mpr ⟨h₁.1, nofun⟩
  refine .bind (checked_quiet (.context (calls_getKey trivial)) nofun) fun key past₁ h₁ => ?_
  refine .bind (hrecreate h₁) fun recreate past₂ h₂ => ?_
  refine .bind (Q := fun _ _ => True) (.doIf (fun h => checked_format ⟨h₂.1, h₂.2 h⟩) fun _ => trivial) ?_
  intro _ past₃ _
  refine checked_formatless (.bind ?_ fun _ => calls_done)
  exact quiet_openWithCheckPassphrase.mono fun _ => formatless_of_quiet

/-! ## Runs that format a device -/

/-- A run of the boot stage that formats the delta volume. -/
theorem path_setupDeltaVolumeLuks2 (debug : String → String) {config : DeltaConfig}
    (hpersistent : config.encrypt.keyProvider.volumeType = .persistent) {r : Except String Header}
    (hr : initStateOf r ≠ .ready) (passphrase : Passphrase) :
    ∃ rest, Path (setupDeltaVolumeLuks2 debug config .diskPersist)
      [⟨.getKey config.encrypt.keyProvider, Except.ok passphrase⟩,
        ⟨.readHeader deltaLogicalVolume, r⟩, ⟨.act (.cryptInit deltaLogicalVolume), Except.ok ()⟩,
        formatted deltaLogicalVolume (if config.integrity then .journal else .none)] rest := by
  have hkey := (path_getKey config.encrypt.keyProvider passphrase).context "Failed to get passphrase"
  have hread : Path (isInitialized deltaLogicalVolume) [⟨.readHeader deltaLogicalVolume, r⟩]
      (.done (.ok false)) := by
    have hstep := @path_step Op Op.Res VolumeInitState (Op.readHeader deltaLogicalVolume)
      (fun r => .done (.ok (initStateOf r))) r
    rw [isInitialized, getInitState_eq]
    exact .bind hstep (by rw [decide_eq_false hr]; exact .nil _)
  have hrecreate : Path (recreatesDelta config.encrypt.keyProvider .diskPersist)
      [⟨.readHeader deltaLogicalVolume, r⟩] (.done (.ok true)) := by
    unfold recreatesDelta
    rw [hpersistent]
    exact .bind hread (.nil _)
  obtain ⟨rest, hformat⟩ := path_format_formatted debug deltaLogicalVolume passphrase
    (if config.integrity then .journal else .none)
  exact ⟨_, .bind hkey (.bind hrecreate (hformat.andThen _))⟩

/-! ## What is guarded -/

/-- For an answer to reading the header: the device is only formatted after the header was read and
without the marker of a volume that is ready, and if the header cannot be read, the program fails
and leaves the device as it is. -/
def Guarded {α : Type} (p : Cmd α) (dev : Path) (r : Except String Header) : Prop :=
  ∀ es rest, Path p es rest → (∀ r' : Except String Header, ⟨.readHeader dev, r'⟩ ∈ es → r' = r) →
    (∀ pre subsystem integrity answer post,
      es = pre ++ ⟨.act (.cryptFormat dev subsystem integrity), answer⟩ :: post →
      ∃ header : Header, ⟨.readHeader dev, Except.ok header⟩ ∈ pre ∧ header.initState ≠ .ready) ∧
    ∀ message, ⟨.readHeader dev, Except.error message⟩ ∈ es →
      Untouched es ∧ ∀ result, rest = .done result → ∃ e, result = .error e

/-- A program that looks at the header first is guarded if the header can be read. -/
theorem guarded_of_checked {α : Type} {p : Cmd α} {dev : Path} {header : Header}
    (h : p.Ensures record Checked (fun _ _ => True) []) : Guarded p dev (.ok header) := by
  intro es rest hpath hreads
  refine ⟨?_, fun message hmem => nomatch hreads _ hmem⟩
  rintro pre subsystem integrity answer post rfl
  obtain ⟨⟨r, hmem, hr⟩, _⟩ := (h.trace hpath).2 pre _ post rfl dev subsystem integrity rfl
  obtain rfl := hreads r (List.mem_append_left _ hmem)
  exact ⟨header, hmem, hr⟩

/-- A program that formats a device whose header could not be read is not guarded. -/
theorem not_guarded {α : Type} {p rest : Cmd α} {dev : Path} {message : String}
    (integrity : IntegrityType) {es : List Call} (hpath : Path p es rest)
    (hformat : formatted dev integrity ∈ es)
    (hreads : ∀ r : Except String Header, ⟨.readHeader dev, r⟩ ∈ es → r = .error message) :
    ¬Guarded p dev (.error message) := by
  intro hguarded
  obtain ⟨pre, post, rfl⟩ := List.append_of_mem hformat
  obtain ⟨header, hmem, _⟩ := (hguarded _ rest hpath hreads).1 pre _ _ _ post rfl
  cases hreads _ (List.mem_append_left _ hmem)

/-- **A volume that is ready is kept if its header can be read, and only then**, by `init` without
`--force-reinit` and by the boot stage. -/
theorem format_guarded_iff (debug : String → String) (options : InitOptions)
    (config : VolumeConfig) (delta : DeltaConfig) (hforce : options.forceReinit = false)
    (hpersistent : config.volumeType = .persistent)
    (hdelta : delta.encrypt.keyProvider.volumeType = .persistent) (r : Except String Header) :
    (Guarded (init debug options config) config.dev r ↔ ∃ header, r = .ok header) ∧
    (Guarded (setupDeltaVolumeLuks2 debug delta .diskPersist) deltaLogicalVolume r ↔
      ∃ header, r = .ok header) := by
  cases r with
  | ok header =>
    refine ⟨iff_of_true ?_ ⟨header, rfl⟩, iff_of_true ?_ ⟨header, rfl⟩⟩
    · rw [init_of_persistent debug hpersistent]
      exact guarded_of_checked (checked_persistentDiskInit hpersistent hforce)
    · exact guarded_of_checked (checked_setupDeltaVolumeLuks2 hdelta)
  | error message =>
    -- a header that cannot be read is one without a marker
    have hnone : initStateOf (.error message) ≠ .ready := nofun
    obtain ⟨rest, hpath⟩ := path_init_formatted debug options hpersistent hnone []
    obtain ⟨rest', hpath'⟩ := path_setupDeltaVolumeLuks2 debug hdelta hnone []
    refine ⟨iff_of_false ?_ nofun, iff_of_false ?_ nofun⟩
    · refine not_guarded (if config.extraConfig.integrity = some true then .journal else .none) hpath
        (by simp [formatCalls]) fun r hmem => ?_
      grind [formatCalls, statusCalls, confirmCalls, formatted]
    · refine not_guarded (if delta.integrity then .journal else .none) hpath' (by simp) fun r hmem => ?_
      grind [formatted]

/-- A device that was never used. -/
theorem format_guarded_unused :
    Guarded (init id ⟨false, true⟩ .data) "/dev/sdb" (.ok Header.unused) ∧
    Guarded (setupDeltaVolumeLuks2 id ⟨false, VolumeConfig.data.encrypt⟩ .diskPersist)
      deltaLogicalVolume (.ok Header.unused) := by
  have h := format_guarded_iff id ⟨false, true⟩ .data ⟨false, VolumeConfig.data.encrypt⟩ rfl rfl rfl
    (.ok Header.unused)
  exact ⟨h.1.mpr ⟨_, rfl⟩, h.2.mpr ⟨_, rfl⟩⟩

/-- Reading the header of a volume that is ready fails once: `init --yes` succeeds, and what was on
the volume is gone. -/
theorem init_formats_readyDisk :
    readyDisk.initState = .ready ∧ readyDisk.data = some () ∧ ∃ es s',
      Path (init id ⟨false, true⟩ .data) es (.done (.ok ())) ∧
      Steps (Disk.Step "/dev/sdb") readyDisk es s' ∧
      ⟨.readHeader "/dev/sdb", Except.error "Input/output error (os error 5)"⟩ ∈ es ∧
      formatted "/dev/sdb" .none ∈ es ∧ s'.data = none := by
  have hpath : Path (init id ⟨false, true⟩ .data)
      (initCalls ⟨false, true⟩ .data (.error "Input/output error (os error 5)") [107])
      (.done (.ok ())) :=
    path_init id ⟨false, true⟩ rfl rfl (r := .error "Input/output error (os error 5)") nofun [107]
  have hsteps : Steps (Disk.Step VolumeConfig.data.dev) readyDisk
      (initCalls ⟨false, true⟩ .data (.error "Input/output error (os error 5)") [107])
      { readyDisk with content := .blank, data := none } :=
    steps_initCalls rfl rfl (by simp) [107]
  refine ⟨initState_readyMark, rfl, _, _, hpath, hsteps, ?_, ?_, rfl⟩
  · exact .tail _ (.tail _ (.head _))
  · exact .tail _ (.tail _ (.tail _ (.tail _ (.tail _ (.tail _ (.head _))))))

end

end CryptPilot.Volume
