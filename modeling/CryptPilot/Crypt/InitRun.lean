import CryptPilot.Crypt.Commands

/-!
# A run of `init`

The calls that `init` makes on a volume that it does not take for ready, if nothing fails, and what
they do to the disk: a volume without a file system of its own ends up empty, and ready.
-/

namespace CryptPilot.Crypt

open CryptPilot.Data CryptPilot.Data.Prog CryptPilot.Core

/-! ## Calls -/

/-- A device is formatted as every program does it. -/
def formatted (dev : Path) (integrity : IntegrityType) : Call :=
  ⟨.act (.cryptFormat dev luks2SubsystemInitializing integrity), Except.ok ()⟩

/-- How the status of a volume that is not open is found. -/
def statusCalls (config : VolumeConfig) (r : Except String Header) : List Call :=
  [⟨.pathExists ("/dev/mapper/" ++ config.volume), false⟩, ⟨.pathExists config.dev, true⟩,
    ⟨.readHeader config.dev, r⟩]

/-- How the user is asked, and agrees. -/
def confirmCalls (options : InitOptions) (config : VolumeConfig) : List Call :=
  if options.yes then [] else [⟨.stderrIsTerm, true⟩, ⟨.confirm config.dev, Except.ok true⟩]

/-- From the check that the device is not in use, to the call that formats it. -/
def formatCalls (config : VolumeConfig) (passphrase : Passphrase) : List Call :=
  [⟨.openExclusive config.dev, ExclusiveOpen.opened⟩,
    ⟨.getKey config.encrypt.keyProvider, Except.ok passphrase⟩,
    ⟨.act (.cryptInit config.dev), Except.ok ()⟩,
    formatted config.dev (if config.extraConfig.integrity = some true then .journal else .none)]

/-- A key slot, and the label. -/
def finishCalls (config : VolumeConfig) (passphrase : Passphrase) : List Call :=
  [⟨.act (.addByKey config.dev passphrase), Except.ok ()⟩,
    ⟨.act (.cryptInit config.dev), Except.ok ()⟩, ⟨.act (.cryptLoad config.dev), Except.ok ()⟩,
    ⟨.act (.setLabel config.dev luks2SubsystemName), Except.ok ()⟩]

/-- All of them. -/
def initCalls (options : InitOptions) (config : VolumeConfig) (r : Except String Header)
    (passphrase : Passphrase) : List Call :=
  statusCalls config r ++ (confirmCalls options config ++
    (formatCalls config passphrase ++ finishCalls config passphrase))

/-! ## The program makes them -/

theorem path_format_formatted (debug : String → String) (dev : Path) (passphrase : Passphrase)
    (integrity : IntegrityType) : ∃ rest, Path (format debug dev passphrase integrity)
      [⟨.act (.cryptInit dev), Except.ok ()⟩, formatted dev integrity] rest :=
  ⟨_, .andThen (.bind (path_act _) (.andThen (path_act _) _)) _⟩

theorem path_format (debug : String → String) (dev : Path) (passphrase : Passphrase)
    (integrity : IntegrityType) : Path (format debug dev passphrase integrity)
      [⟨.act (.cryptInit dev), Except.ok ()⟩, formatted dev integrity,
        ⟨.act (.addByKey dev passphrase), Except.ok ()⟩] (.done (.ok ())) :=
  .context (.bind (path_act _) (.bind (path_act _) (path_act _))) _

theorem path_markVolumeAsInitialized (debug : String → String) (dev : Path) :
    Path (markVolumeAsInitialized debug dev)
      [⟨.act (.cryptInit dev), Except.ok ()⟩, ⟨.act (.cryptLoad dev), Except.ok ()⟩,
        ⟨.act (.setLabel dev luks2SubsystemName), Except.ok ()⟩] (.done (.ok ())) :=
  .context (.bind (path_act _) (.bind (path_act _) (path_act _))) _

section
variable {config : VolumeConfig} {options : InitOptions} {r : Except String Header}

theorem path_determineStatus (debug : String → String)
    (hpersistent : config.volumeType = .persistent) (r : Except String Header) : ∃ status,
      Path (determineStatus debug config) (statusCalls config r) (.done (.ok status)) ∧
      (initStateOf r ≠ .ready → status.kind = .requiresInit ∨ status.kind = .initializing) := by
  have hread : Path (attempt (getInitState config.dev)) [⟨.readHeader config.dev, r⟩]
      (.done (.ok (.ok (initStateOf r)))) := by
    rw [getInitState_eq]
    exact @path_step Op Op.Res _ (Op.readHeader config.dev) _ r
  unfold determineStatus
  rw [hpersistent]
  cases hstate : initStateOf r
  all_goals
    rw [hstate] at hread
    exact ⟨_, .bind (path_pathExists _ false) (.bind (path_pathExists _ true) (.bind hread (.nil _))),
      by simp⟩

theorem path_checkInitStatus (debug : String → String)
    (hpersistent : config.volumeType = .persistent) (hr : initStateOf r ≠ .ready) :
    Path (checkInitStatus debug options config) (statusCalls config r) (.done (.ok ())) := by
  obtain ⟨status, hstatus, hkind⟩ := path_determineStatus debug hpersistent r
  rw [← List.append_nil (statusCalls config r)]
  refine .bind hstatus ?_
  rcases hkind hr with h | h <;> rw [h] <;> exact .nil _

theorem path_confirmInit :
    Path (confirmInit options config) (confirmCalls options config) (.done (.ok ())) := by
  have hterm : Path stderrIsTerm [⟨.stderrIsTerm, true⟩] (.done (.ok true)) :=
    @path_step Op Op.Res _ Op.stderrIsTerm _ true
  have hconfirm : Path (confirm config.dev) [⟨.confirm config.dev, Except.ok true⟩] (.done (.ok true)) :=
    @path_step Op Op.Res _ (Op.confirm config.dev) _ (Except.ok true)
  unfold confirmInit confirmCalls
  split_ifs
  · exact .nil _
  · exact .bind hterm (.bind (.nil _) (.bind hconfirm (.nil _)))

theorem path_checkNotInUse (debug : String → String) (dev : Path) :
    Path (checkNotInUse debug dev) [⟨.openExclusive dev, ExclusiveOpen.opened⟩] (.done (.ok ())) :=
  @path_step Op Op.Res _ (Op.openExclusive dev) _ ExclusiveOpen.opened

theorem init_of_persistent (debug : String → String)
    (hpersistent : config.volumeType = .persistent) :
    init debug options config = persistentDiskInit debug options config := by
  rw [init, hpersistent]

/-- `init` formats a device if it does not take it for ready. -/
theorem path_init_formatted (debug : String → String) (options : InitOptions)
    (hpersistent : config.volumeType = .persistent) (hr : initStateOf r ≠ .ready)
    (passphrase : Passphrase) : ∃ rest, Path (init debug options config)
      (statusCalls config r ++ (confirmCalls options config ++ formatCalls config passphrase)) rest := by
  obtain ⟨rest, hformat⟩ := path_format_formatted debug config.dev passphrase
    (if config.extraConfig.integrity = some true then .journal else .none)
  have hkey := (path_getKey config.encrypt.keyProvider passphrase).context "Failed to get passphrase"
  rw [init_of_persistent debug hpersistent]
  exact ⟨_, .bind (path_checkInitStatus debug hpersistent hr) (.bind path_confirmInit
    (.bind (path_checkNotInUse debug _) (.bind hkey (hformat.andThen _))))⟩

/-- Without a file system to make, this is all that `init` does. -/
theorem path_init (debug : String → String) (options : InitOptions)
    (hpersistent : config.volumeType = .persistent) (hmakefs : config.extraConfig.makefs = none)
    (hr : initStateOf r ≠ .ready) (passphrase : Passphrase) :
    Path (init debug options config) (initCalls options config r passphrase) (.done (.ok ())) := by
  have hkey := (path_getKey config.encrypt.keyProvider passphrase).context "Failed to get passphrase"
  have hfs (integrity : IntegrityType) :
      Path (initFs debug config passphrase integrity) [] (.done (.ok ())) := by
    rw [initFs, hmakefs]
    exact .nil _
  rw [init_of_persistent debug hpersistent]
  refine .bind (path_checkInitStatus debug hpersistent hr) (.bind path_confirmInit ?_)
  simp only [formatCalls, finishCalls, List.cons_append, List.nil_append]
  exact .bind (path_checkNotInUse debug _) (.bind hkey (.bind (path_format debug _ _ _)
    (.bind (hfs _) (path_markVolumeAsInitialized debug _))))

end

/-! ## What they do to the disk -/

section
variable {δ : Type} {config : VolumeConfig} {options : InitOptions} {s : Disk δ}

theorem steps_statusCalls {r : Except String Header} (hpresent : s.present = true)
    (hmapped : s.mapped = []) (hr : ∀ header, r = .ok header → header = s.header) :
    Steps (Disk.Step config.dev) s (statusCalls config r) s := by
  refine .cons ⟨⟨nofun, ?_⟩, rfl⟩ (.cons ⟨⟨fun _ _ => hpresent, fun _ => rfl⟩, rfl⟩ ?_)
  · rintro ⟨volume, hvolume, _⟩
    rw [hmapped] at hvolume
    cases hvolume
  · exact .cons ⟨fun _ => hr, rfl⟩ (.nil _)

theorem steps_confirmCalls :
    Steps (Disk.Step config.dev) s (confirmCalls options config) s := by
  unfold confirmCalls
  split_ifs
  · exact .nil _
  · exact .cons ⟨trivial, rfl⟩ (.cons ⟨trivial, rfl⟩ (.nil _))

theorem steps_formatCalls (hmapped : s.mapped = []) (passphrase : Passphrase) :
    Steps (Disk.Step config.dev) s (formatCalls config passphrase)
      { s with header := Header.initializingMark, content := .blank, data := none } := by
  refine .cons ⟨fun _ _ => hmapped, rfl⟩ (.cons ⟨trivial, rfl⟩ (.cons rfl (.cons ?_ (.nil _))))
  exact Disk.acts_cryptFormat (if config.extraConfig.integrity = some true then .journal else .none)
    hmapped initState_initializingMark

theorem steps_finishCalls (passphrase : Passphrase) :
    Steps (Disk.Step config.dev) s (finishCalls config passphrase)
      { s with header := Header.readyMark } :=
  .cons (Disk.acts_addByKey passphrase) (.cons rfl (.cons rfl
    (.cons (Disk.acts_setLabel initState_readyMark) (.nil _))))

/-- Together: whatever the disk had, it is empty now. -/
theorem steps_initCalls {r : Except String Header} (hpresent : s.present = true)
    (hmapped : s.mapped = []) (hr : ∀ header, r = .ok header → header = s.header)
    (passphrase : Passphrase) :
    Steps (Disk.Step config.dev) s (initCalls options config r passphrase)
      { s with header := Header.readyMark, content := .blank, data := none } := by
  refine steps_append.mpr ⟨s, steps_statusCalls hpresent hmapped hr, ?_⟩
  refine steps_append.mpr ⟨s, steps_confirmCalls, ?_⟩
  exact steps_append.mpr ⟨_, steps_formatCalls hmapped passphrase, steps_finishCalls passphrase⟩

end

/-! ## A volume for examples -/

/-- A volume without a file system of its own, whose key is printed by a command. -/
def VolumeConfig.data : VolumeConfig where
  volume := "data"
  dev := "/dev/sdb"
  extraConfig := ⟨none, none⟩
  encrypt := ⟨.exec ⟨"cat", ["/etc/data.key"]⟩⟩

/-- Its device, as it was bought. -/
def newDisk : Disk Unit := ⟨true, Header.unused, [], .blank, none⟩

/-- Its device, with something written to the volume. -/
def readyDisk : Disk Unit := ⟨true, Header.readyMark, [], .other, some ()⟩

end CryptPilot.Crypt
