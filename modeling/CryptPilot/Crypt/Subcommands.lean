import CryptPilot.Crypt.VolumeConfigs

/-!
# The subcommands

`cli.rs` and the `run` of every command: each gets at the configured volumes, and goes through those
that it is for, one after the other. Most stop at the first failure. The boot service does not, and
`config check` does not if it is told to keep checking.
-/

namespace CryptPilot.Crypt

open CryptPilot.Data CryptPilot.Data.Prog CryptPilot.Core

section
variable (debug : String → String) (volumeConfigs : Except String (List VolumeFile))

/-- `InitCommand::run` -/
def InitCommand.run (options : InitOptions) (volume : List String) : Cmd Unit :=
  volume |> forEach fun volume => do
    let volumeConfig ← ofExcept (getVolumeConfig volumeConfigs volume)
    init debug options volumeConfig.config

/-- `OpenCommand::run` -/
def OpenCommand.run (volume : List String) (checkFs : Bool) : Cmd Unit :=
  volume |> forEach fun volume => do
    let volumeConfig ← ofExcept (getVolumeConfig volumeConfigs volume)
    openForSpecificVolume debug volumeConfig.config checkFs

/-- `CloseCommand::run`. It does not look at the configuration. -/
def CloseCommand.run (volume : List String) : Cmd Unit := forEach closeVolume volume

/-- `print_as_table` and `print_as_json` get at the status of each volume. What they print is left
out. -/
def printVolumes (volumes : List VolumeFile) : Cmd Unit :=
  volumes |> forEach fun volume => do
    let _ ← determineStatus debug volume.config
    return ()

/-- `ShowCommand::run` -/
def ShowCommand.run (volume : List String) : Cmd Unit := do
  let volumes ← ofExcept volumeConfigs
  let volumes := if volume.isEmpty then volumes else volumes.filter (·.volume ∈ volume)
  printVolumes debug volumes

/-! ## `cmd/boot_service/auto_open.rs` -/

/-- Volumes that are not set to be opened are skipped, and a failure is logged. -/
def autoOpen (volume : VolumeFile) : Cmd Unit :=
  if volume.autoOpen ≠ some true then return ()
  else do
    let _ ← attempt (openForSpecificVolume debug volume.config false)
    return ()

def setupUserProvidedVolumes : Cmd Unit := do
  let volumes ← ofExcept volumeConfigs
  if volumes.isEmpty then return ()
  else
    printVolumes debug volumes
    forEach (autoOpen debug) volumes
    printVolumes debug volumes

/-! ## `cmd/config/check.rs` -/

structure ConfigCheckOptions where
  keepChecking : Bool
  skipCheckPassphrase : Bool

/-- `continue_or_throw!`, with what it sets `is_error` to. -/
def continueOrThrow (options : ConfigCheckOptions) (error : String) : Cmd Bool :=
  if options.keepChecking then return true else fail error

/-- The check of the device: whether there was an error, and `dev_is_initialized`. -/
def checkDevice (options : ConfigCheckOptions) (volume : VolumeFile) : Cmd (Bool × Bool) := do
  let dev := volume.config.dev
  if !(← pathExists dev) then
    let isError ← continueOrThrow options
      s!"The device {debug dev} for volume \"{volume.volume}\" does not exist"
    return (isError, false)
  else
    match ← attempt (context s!"Failed to check if the device {debug dev} is initialized"
        (isInitialized dev)) with
    | .ok initialized =>
      if volume.autoOpen = some true && !initialized then
        let isError ← continueOrThrow options
          s!"The volume \"{volume.volume}\" is set to auto open but the device {debug dev} is not initialized"
        return (isError, initialized)
      else return (false, initialized)
    | .error error => do
      let isError ← continueOrThrow options error
      return (isError, false)

/-- The check of the key: whether there was an error. -/
def checkKey (options : ConfigCheckOptions) (volume : VolumeFile) (devIsInitialized : Bool) :
    Cmd Bool := do
  if options.skipCheckPassphrase then return false
  else
    let keyProvider := volume.config.encrypt.keyProvider
    match ← attempt (context s!"Failed to get key for volume \"{volume.volume}\" from key provider {keyProvider.debugName}"
        (getKey keyProvider)) with
    | .ok passphrase =>
      if devIsInitialized then
        match ← attempt (context s!"The passphrase for volume \"{volume.volume}\" is incorrect"
            (checkPassphrase debug volume.config.dev passphrase)) with
        | .ok () => return false
        | .error error => continueOrThrow options error
      else return false
    | .error error => continueOrThrow options error

def checkVolume (options : ConfigCheckOptions) (volume : VolumeFile) : Cmd Bool := do
  let (isError, devIsInitialized) ← checkDevice debug options volume
  let isError' ← checkKey debug options volume devIsInitialized
  return isError || isError'

/-- The loop over the volumes, with `is_error`. -/
def checkVolumes (options : ConfigCheckOptions) : Bool → List VolumeFile → Cmd Bool
  | isError, [] => return isError
  | isError, volume :: volumes => do
    let isError' ← checkVolume debug options volume
    checkVolumes options (isError || isError') volumes

def checkFailed : String := "Volume config check failed, please check the errors above"

/-- `ConfigCheckCommand::run` -/
def ConfigCheckCommand.run (options : ConfigCheckOptions) : Cmd Unit := do
  let volumes ← ofExcept (addContext "Load config failed" volumeConfigs)
  let isError ← checkVolumes debug options false volumes
  bailIf isError checkFailed

/-! ## `cli.rs` -/

inductive CryptSubcommand where
  | showVolumes (volume : List String)
  | init (options : InitOptions) (volume : List String)
  | openVolumes (volume : List String) (checkFs : Bool)
  | closeVolumes (volume : List String)
  | configCheck (options : ConfigCheckOptions)
  | bootService

def CryptSubcommand.run : CryptSubcommand → Cmd Unit
  | .showVolumes volume => ShowCommand.run debug volumeConfigs volume
  | .init options volume => InitCommand.run debug volumeConfigs options volume
  | .openVolumes volume checkFs => OpenCommand.run debug volumeConfigs volume checkFs
  | .closeVolumes volume => CloseCommand.run volume
  | .configCheck options => ConfigCheckCommand.run debug volumeConfigs options
  | .bootService => setupUserProvidedVolumes debug volumeConfigs

end

end CryptPilot.Crypt
