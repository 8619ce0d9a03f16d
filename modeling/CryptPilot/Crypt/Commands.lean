import CryptPilot.Core.Disk

/-!
# The commands `init`, `open` and `close`

`cmd/init.rs`, `cmd/open.rs` and `cmd/close.rs` for one volume, and the part of `cmd/show.rs` that
finds the status of a volume. A command for several volumes does them one after the other, up to
the first failure.
-/

namespace CryptPilot.Crypt

open CryptPilot.Data CryptPilot.Data.Prog CryptPilot.Core

/-! ## Configuration -/

structure ExtraConfig where
  makefs : Option MakeFsType
  integrity : Option Bool
  deriving DecidableEq

structure VolumeConfig where
  volume : String
  dev : Path
  extraConfig : ExtraConfig
  encrypt : EncryptConfig
  deriving DecidableEq

namespace VolumeConfig

def volumePath (self : VolumeConfig) : Path := Core.volumePath self.volume

def volumeType (self : VolumeConfig) : VolumeType := self.encrypt.keyProvider.volumeType

end VolumeConfig

/-! ## Status -/

inductive VolumeStatusKind where
  | deviceNotFound
  | checkFailed
  | requiresInit
  | initializing
  | readyToOpen
  | opened
  deriving DecidableEq

/-- `{:?}` -/
def VolumeStatusKind.debug : VolumeStatusKind → String
  | .deviceNotFound => "DeviceNotFound"
  | .checkFailed => "CheckFailed"
  | .requiresInit => "RequiresInit"
  | .initializing => "Initializing"
  | .readyToOpen => "ReadyToOpen"
  | .opened => "Opened"

structure VolumeStatus where
  kind : VolumeStatusKind
  description : String
  deriving DecidableEq

section
variable (debug : String → String)

def determineStatus (config : VolumeConfig) : Cmd VolumeStatus := do
  if ← isActive config.volume then
    return ⟨.opened, s!"Volume '{config.volume}' is currently opened and mapped at '{config.volumePath}'"⟩
  else if !(← pathExists config.dev) then
    return ⟨.deviceNotFound, s!"Device '{debug config.dev}' does not exist on filesystem"⟩
  else if config.volumeType ≠ .persistent then
    return ⟨.readyToOpen, s!"Volume '{config.volume}' uses {config.encrypt.keyProvider.variantName} key provider (temporary volume) and is ready to open"⟩
  else
    match ← attempt (getInitState config.dev) with
    | .ok .ready =>
      return ⟨.readyToOpen, s!"Device '{debug config.dev}' is properly initialized as LUKS2 volume and ready to open"⟩
    | .ok .initializing =>
      return ⟨.initializing, s!"⚠ Device '{debug config.dev}' is in initializing state - previous initialization was interrupted"⟩
    | .ok .none =>
      return ⟨.requiresInit, s!"Device '{debug config.dev}' exists but is not a valid LUKS2 volume - needs initialization"⟩
    | .error e =>
      return ⟨.checkFailed, s!"Failed to check initialization status for device '{debug config.dev}': {e}"⟩

/-! ## `init` -/

structure InitOptions where
  forceReinit : Bool
  yes : Bool

/-- The status that a volume must have. -/
def checkInitStatus (options : InitOptions) (config : VolumeConfig) : Cmd Unit := do
  let status ← determineStatus debug config
  match status.kind with
  | .deviceNotFound | .checkFailed | .opened =>
    fail s!"The status of device {debug config.dev} is incorrect: {status.kind.debug}({status.description})"
  | .requiresInit | .initializing => return ()
  | .readyToOpen =>
    bailIf (!options.forceReinit)
      s!"The device {debug config.dev} is already initialized. Use '--force-reinit' to force re-initialize the volume."

/-- Asks the user, unless `--yes` was given. -/
def confirmInit (options : InitOptions) (config : VolumeConfig) : Cmd Unit := do
  if options.yes then return ()
  else
    bailIf (!(← stderrIsTerm))
      "Standard error is not a terminal. Please use '--yes' to confirm the operation in non-interactive mode."
    bailIf (!(← confirm config.dev)) "Operation canceled"

def checkNotInUse (dev : Path) : Cmd Unit := do
  bailIf (← isDevInUse dev) s!"The device {debug dev} is currently in use"

/-- Makes the file system of a volume that was just formatted, on a mapping that is closed again. -/
def initFs (config : VolumeConfig) (passphrase : Passphrase) (integrity : IntegrityType) :
    Cmd Unit := do
  match config.extraConfig.makefs with
  | none => return ()
  | some makefs =>
    let tmpVolume ← tempLuksVolumeOpen debug config.dev passphrase integrity
    ensuring (forceMkfs debug (Core.volumePath tmpVolume) makefs integrity) (close tmpVolume)

def persistentDiskInit (options : InitOptions) (config : VolumeConfig) : Cmd Unit := do
  checkInitStatus debug options config
  confirmInit options config
  checkNotInUse debug config.dev
  let passphrase ← context "Failed to get passphrase" (getKey config.encrypt.keyProvider)
  let integrity := if config.extraConfig.integrity = some true then .journal else .none
  format debug config.dev passphrase integrity
  initFs debug config passphrase integrity
  markVolumeAsInitialized debug config.dev

/-- `InitCommand::run` for one volume. -/
def init (options : InitOptions) (config : VolumeConfig) : Cmd Unit :=
  match config.volumeType with
  | .temporary => pure ()
  | .persistent => persistentDiskInit debug options config

/-! ## `open` -/

/-- Makes the file system of a volume that was just opened, and closes the volume if that fails. -/
def openFs (config : VolumeConfig) (integrity : IntegrityType) : Cmd Unit := do
  match config.extraConfig.makefs with
  | none => return ()
  | some makefs =>
    match ← attempt (forceMkfs debug config.volumePath makefs integrity) with
    | .ok () => return ()
    | .error e => do
      close config.volume
      fail e

def temporaryDiskOpen (config : VolumeConfig) : Cmd Unit := do
  let passphrase ← context "Failed to get passphrase" (getKey config.encrypt.keyProvider)
  let integrity := if config.extraConfig.integrity = some true then .noJournal else .none
  format debug config.dev passphrase integrity
  openWithCheckPassphrase debug config.volume config.dev passphrase integrity
  openFs debug config integrity
  markVolumeAsInitialized debug config.dev

def persistentDiskOpen (config : VolumeConfig) : Cmd Unit := do
  bailIf (!(← isInitialized config.dev))
    s!"{debug config.dev} is not a valid LUKS2 volume, should be initialized before opening it"
  let passphrase ← context "Failed to get passphrase" (getKey config.encrypt.keyProvider)
  let integrity := if config.extraConfig.integrity = some true then .noJournal else .none
  openWithCheckPassphrase debug config.volume config.dev passphrase integrity

/-- The check for `--check-fs`. -/
def checkFsReady (config : VolumeConfig) (checkFs : Bool) : Cmd Unit := do
  if checkFs && config.extraConfig.makefs.isSome then
    if ← hasValuableData debug config.volumePath config.extraConfig.makefs then return ()
    else
      let _ ← attempt (close config.volume)
      fail s!"The filesystem on {debug config.volumePath} is not initialized but makefs is set, the volume maybe not fully initialized. Try running `cryptpilot-crypt init` again with `--force-reinit`"
  else return ()

def openForSpecificVolume (config : VolumeConfig) (checkFs : Bool) : Cmd Unit := do
  if ← isActive config.volume then return ()
  else
    checkNotInUse debug config.dev
    match config.volumeType with
    | .temporary => temporaryDiskOpen debug config
    | .persistent => persistentDiskOpen debug config
    checkFsReady debug config checkFs

end

/-! ## `close` -/

/-- `CloseCommand::run` for one volume. -/
def closeVolume (volume : String) : Cmd Unit := do
  if ← isActive volume then Core.close volume
  else return ()

/-! ## What does not write -/

section
variable {debug : String → String} {config : VolumeConfig} {volume : String}

theorem quiet_determineStatus : (determineStatus debug config).Calls Op.Quiet := by
  refine .bind (calls_pathExists trivial) fun active => ?_
  cases active with
  | true => exact calls_done
  | false =>
    refine .bind (calls_pathExists trivial) fun present => ?_
    split_ifs
    · exact calls_done
    · exact calls_done
    · refine .bind (.attempt (calls_getInitState trivial)) fun state => ?_
      rcases state with e | _ | _ | _ <;> exact calls_done

theorem quiet_checkInitStatus {options : InitOptions} :
    (checkInitStatus debug options config).Calls Op.Quiet := by
  refine .bind quiet_determineStatus fun status => ?_
  cases status.kind <;> first | exact calls_done | exact calls_bailIf

theorem quiet_confirmInit {options : InitOptions} : (confirmInit options config).Calls Op.Quiet := by
  unfold confirmInit
  split_ifs
  · exact calls_done
  · refine .bind ⟨trivial, fun _ => calls_done⟩ fun _ => .bind calls_bailIf fun _ => ?_
    exact .bind ⟨trivial, fun _ => calls_done⟩ fun _ => calls_bailIf

theorem quiet_checkNotInUse {dev : Path} : (checkNotInUse debug dev).Calls Op.Quiet :=
  .bind (calls_isDevInUse trivial) fun _ => calls_bailIf

theorem quiet_persistentDiskOpen : (persistentDiskOpen debug config).Calls Op.Quiet := by
  refine .bind (calls_isInitialized trivial) fun _ => .bind calls_bailIf fun _ => ?_
  exact .bind (.context (calls_getKey trivial)) fun _ => quiet_openWithCheckPassphrase

theorem quiet_checkFsReady {checkFs : Bool} :
    (checkFsReady debug config checkFs).Calls Op.Quiet := by
  unfold checkFsReady
  split_ifs
  · refine .bind quiet_hasValuableData fun valuable => ?_
    cases valuable with
    | true => exact calls_done
    | false => exact .bind (.attempt quiet_close) fun _ => calls_done
  · exact calls_done

/-- Opening a persistent volume writes nothing. -/
theorem quiet_openForSpecificVolume {checkFs : Bool} (h : config.volumeType = .persistent) :
    (openForSpecificVolume debug config checkFs).Calls Op.Quiet := by
  unfold openForSpecificVolume
  rw [h]
  refine .bind (calls_pathExists trivial) fun active => ?_
  cases active with
  | true => exact calls_done
  | false =>
    refine .bind quiet_checkNotInUse fun _ => ?_
    exact .bind quiet_persistentDiskOpen fun _ => quiet_checkFsReady

theorem quiet_closeVolume : (closeVolume volume).Calls Op.Quiet := by
  refine .bind (calls_pathExists trivial) fun active => ?_
  cases active with
  | true => exact quiet_close
  | false => exact calls_done

end

end CryptPilot.Crypt
