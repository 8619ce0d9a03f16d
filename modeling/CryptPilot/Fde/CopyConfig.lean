import CryptPilot.Data.Hex
import CryptPilot.Fde.AfterSysroot
import CryptPilot.Fde.InitrdState

/-!
# How the boot service gets its configuration

`bin/guest.rs`, `cmd/boot_service/copy_config.rs`, `cmd/boot_service/time_sync.rs`, the sources of
configurations in `config/`, and `measure/mod.rs`. The service is started once for each stage. If
there is no state of an earlier start, it takes the configuration from the cloud or else from the
initrd, measures what came from the cloud, and saves the state. Then the configuration is loaded from
the state, and the stage is run with it.

`cmd/config/dump.rs` prints a configuration as user data, with its hash.
-/

namespace CryptPilot.Fde

open CryptPilot.Data CryptPilot.Data.Prog CryptPilot.Data.Toml CryptPilot.Core

/-! ## Operations -/

inductive BootStage where
  | initrdFdeBeforeSysroot
  | initrdFdeAfterSysroot
  deriving DecidableEq

/-- What the service calls. The stages have operations of their own. -/
inductive GuestOp (Text : Type) where
  | exist (path : Path)
  | readToString (path : Path)
  | createDirAll (path : Path)
  | write (path : Path) (content : Text)
  | checkIsAliyunEcs
  | getAliyunEcsCloudinitUserData
  | getTimeFromNtp
  | clockSettime (time : Nat)
  /-- connects to the attestation agent -/
  | connect
  | extendRuntimeMeasurement (domain operation content : String)
  | runStage (stage : BootStage) (config : Option FdeConfig)
  deriving DecidableEq

def GuestOp.Res {Text : Type} : GuestOp Text → Type
  | .exist _ => Bool
  | .readToString _ | .getAliyunEcsCloudinitUserData => Except String Text
  | .getTimeFromNtp => Except String Nat
  | .createDirAll _ | .write .. | .checkIsAliyunEcs | .clockSettime _ | .connect
  | .extendRuntimeMeasurement .. | .runStage .. => Except String Unit

abbrev GuestCmd (Text α : Type) := Prog (GuestOp Text) GuestOp.Res α

/-- An operation that was called, with its answer. -/
abbrev GuestCall (Text : Type) := Event (GuestOp Text) GuestOp.Res

namespace GuestCmd

variable {Text : Type}

def exist (path : Path) : GuestCmd Text Bool := Prog.call (GuestOp.exist path)

def readToString (path : Path) : GuestCmd Text Text := .step (.readToString path) .done

def createDirAll (path : Path) : GuestCmd Text Unit := .step (.createDirAll path) .done

def write (path : Path) (content : Text) : GuestCmd Text Unit := .step (.write path content) .done

def checkIsAliyunEcs : GuestCmd Text Unit := .step .checkIsAliyunEcs .done

def getAliyunEcsCloudinitUserData : GuestCmd Text Text := .step .getAliyunEcsCloudinitUserData .done

def getTimeFromNtp : GuestCmd Text Nat := .step .getTimeFromNtp .done

def clockSettime (time : Nat) : GuestCmd Text Unit := .step (.clockSettime time) .done

def connect : GuestCmd Text Unit := .step .connect .done

def extendRuntimeMeasurement (domain operation content : String) : GuestCmd Text Unit :=
  .step (.extendRuntimeMeasurement domain operation content) .done

def runStage (stage : BootStage) (config : Option FdeConfig) : GuestCmd Text Unit :=
  .step (.runStage stage config) .done

end GuestCmd

/-! ## Texts

Beside TOML, texts have comments: lines that are empty or start with `#`. -/

/-- What may stand in a comment: no line break, and of the other control characters only a tab. -/
def commentChar (c : Char) : Bool := c = '\t' || (' ' ≤ c && c ≠ '\x7f')

/-- Texts of configurations. Comments in front of a text do not change what is read. -/
structure ConfigText (Text : Type) extends Format Text where
  /-- `trim().is_empty()` -/
  isBlank : Text → Bool
  startsWith : Text → String → Bool
  /-- A text with lines in front of it. -/
  withLines : List String → Text → Text
  sha384 : Text → Bytes
  isBlank_withLines : ∀ lines text,
    (∃ line ∈ lines, ∃ c ∈ line.toList, Data.Text.isWhitespace c = false) →
    isBlank (withLines lines text) = false
  startsWith_withLines : ∀ line lines text, startsWith (withLines (line :: lines) text) line = true
  parse_withLines : ∀ lines text,
    (∀ line ∈ lines, line.toList.all commentChar ∧ (line = "" ∨ line.toList.head? = some '#')) →
    parse (withLines lines text) = parse text

variable {Text α : Type}

section
variable (toml : ConfigText Text)

/-! ## `measure/mod.rs` -/

def calculateHashedMeasurementValue (contentToHash : Text) : String :=
  hexEncode (toml.sha384 contentToHash)

def aaelDomain : String := "cryptpilot.alibabacloud.com"

def operationNameLoadConfigUntrusted : String := "load_config_untrusted"

/-- `AutoDetectMeasure`: no agent, no measurement. -/
inductive AutoDetectMeasure where
  | aael
  | nope

def AutoDetectMeasure.new : GuestCmd Text AutoDetectMeasure := do
  match ← attempt GuestCmd.connect with
  | .ok () => return .aael
  | .error _ => return .nope

def AutoDetectMeasure.extendMeasurement (operation content : String) :
    AutoDetectMeasure → GuestCmd Text Unit
  | .aael => context "Failed to extend runtime measurement"
    (GuestCmd.extendRuntimeMeasurement aaelDomain operation content)
  | .nope => return ()

def AutoDetectMeasure.extendMeasurementHash (self : AutoDetectMeasure) (operation : String)
    (contentToHash : Text) : GuestCmd Text Unit :=
  self.extendMeasurement operation (calculateHashedMeasurementValue toml contentToHash)

/-! ## `config/mod.rs` -/

def FdeConfigBundle.genHashContentPretty (self : FdeConfigBundle) : Text :=
  toml.renderPretty self.serialize

def FdeConfigBundle.genHashHex (self : FdeConfigBundle) : String :=
  hexEncode (toml.sha384 (self.genHashContent toml.toFormat))

/-! ## Sources -/

def cloudInitFdeConfigBundleHeader : String := "#cryptpilot-fde-config"

/-- `CloudInitConfigSource::parse_from_user_data`. -/
def parseFromUserData (userData : Text) : Except String FdeConfigBundle := do
  if toml.isBlank userData then throw "The cloud-init user data is empty"
  if !toml.startsWith userData cloudInitFdeConfigBundleHeader then
    throw "Cannot find cryptplot header in cloud-init user data, maybe it is not cryptpilot config bundle"
  addContext "Failed to parse cloud-init user data"
    (toml.fromStr FdeConfigBundle.deserialize userData)

def loadConfigFromCloudInit : GuestCmd Text FdeConfigBundle := do
  context "Aliyun IMDS is not reachable, skip fetching config from cloud-init user data"
    GuestCmd.checkIsAliyunEcs
  let userData ← GuestCmd.getAliyunEcsCloudinitUserData
  Prog.ofExcept (parseFromUserData toml userData)

section
variable (debug : Path → String)

/-- `load_global_config` and `load_fde_config`: a file that need not be there. -/
def loadConfigFile (name : String) (deserialize : Table → Except DeError α) (configPath : Path) :
    GuestCmd Text (Option α) := do
  if ← GuestCmd.exist configPath then
    let config ← context s!"Failed to load {name} config from: {debug configPath}" do
      let content ← GuestCmd.readToString configPath
      Prog.ofExcept (addContext "Failed to parse content as TOML" (toml.fromStr deserialize content))
    return some config
  else return none

def cryptpilotConfigDirDefault : Path := "/etc/cryptpilot"

def loadGlobalConfig (configDir : Path) : GuestCmd Text (Option GlobalConfig) :=
  loadConfigFile toml debug "global" GlobalConfig.deserialize (joinPath configDir "global.toml")

def loadFdeConfig (configDir : Path) : GuestCmd Text (Option FdeConfig) :=
  loadConfigFile toml debug "FDE" FdeConfig.deserialize (joinPath configDir "fde.toml")

/-- `FileSystemConfigSource::get_fde_config_bundle`. -/
def getFdeConfigBundleFromDir (configDir : Path) : GuestCmd Text FdeConfigBundle := do
  let global ← loadGlobalConfig toml debug configDir
  let fde ← loadFdeConfig toml debug configDir
  return ⟨global, fde⟩

def loadConfigFromCurrentInitrdEnvironment : GuestCmd Text FdeConfigBundle :=
  getFdeConfigBundleFromDir toml debug cryptpilotConfigDirDefault

/-! ## `copy_config.rs` -/

/-- The end of `load_fde_config_bundle`, without a configuration from the cloud. -/
def loadTrustedFdeConfigBundle : GuestCmd Text FdeConfigBundle := do
  match ← attempt (loadConfigFromCurrentInitrdEnvironment toml debug) with
  | .ok config => return config
  | .error _ => fail "Failed to load config from any source"

def loadFdeConfigBundle (measurementIfFromUnsafeSource : Bool) : GuestCmd Text FdeConfigBundle := do
  match ← attempt (loadConfigFromCloudInit toml) with
  | .ok config =>
    if measurementIfFromUnsafeSource then
      let measure ← AutoDetectMeasure.new
      match ← attempt (context "Using cryptpilot config from untrusted source (cloud-init), but failed to measure it"
          (measure.extendMeasurementHash toml operationNameLoadConfigUntrusted
            (config.genHashContent toml.toFormat))) with
      | .ok () => return config
      -- what could not be measured is not used
      | .error _ => loadTrustedFdeConfigBundle toml debug
    else return config
  | .error _ => loadTrustedFdeConfigBundle toml debug

def cryptpilotInitrdStatePath : Path := "/var/run/cryptpilot/initrd_state.toml"

def saveInitrdState (state : InitrdState) : GuestCmd Text Unit := do
  GuestCmd.createDirAll "/var/run/cryptpilot"
  GuestCmd.write cryptpilotInitrdStatePath (state.save toml.toFormat)

def copyConfigToInitrdStateIfNotExist (measurementIfFromUnsafeSource : Bool) :
    GuestCmd Text Unit := do
  if ← GuestCmd.exist cryptpilotInitrdStatePath then return ()
  else
    let fdeConfigBundle ← loadFdeConfigBundle toml debug measurementIfFromUnsafeSource
    saveInitrdState toml ⟨fdeConfigBundle⟩

/-! ## `bin/guest.rs` -/

/-- `InitrdStateConfigSource::get_fde_config_bundle`. -/
def getFdeConfigBundleFromState : GuestCmd Text FdeConfigBundle := do
  let file ← attempt (GuestCmd.readToString cryptpilotInitrdStatePath)
  let state ← Prog.ofExcept (InitrdState.load toml.toFormat file)
  return state.fdeConfigBundle

/-- `CachedFdeConfigSource` over it, with what is cached so far. -/
def getFdeConfigBundleCached (cached : Option FdeConfigBundle) :
    GuestCmd Text (FdeConfigBundle × Option FdeConfigBundle) := do
  match cached with
  | some bundle => return (bundle, cached)
  | none =>
    let bundle ← getFdeConfigBundleFromState toml
    return (bundle, some bundle)

/-- A clock that cannot be read is no failure, one that cannot be set is. -/
def syncTimeToSystem : GuestCmd Text Unit := do
  match ← attempt GuestCmd.checkIsAliyunEcs with
  | .error _ => return ()
  | .ok () =>
    match ← attempt GuestCmd.getTimeFromNtp with
    | .error _ => return ()
    | .ok time => context "Failed to set system time" (GuestCmd.clockSettime time)

/-- `BootServiceCommand::run`. The stage asks for the configuration. -/
def runBootService (cached : Option FdeConfigBundle) (stage : BootStage) : GuestCmd Text Unit := do
  match stage with
  | .initrdFdeBeforeSysroot =>
    syncTimeToSystem
    context "Failed to setup volumes required by FDE" do
      let (bundle, _) ← getFdeConfigBundleCached toml cached
      GuestCmd.runStage stage bundle.fde
  | .initrdFdeAfterSysroot =>
    context "Failed to setup mounts required by FDE" do
      let (bundle, _) ← getFdeConfigBundleCached toml cached
      GuestCmd.runStage stage bundle.fde

/-- `main`. The global configuration says how much is logged, so it is loaded before the stage. -/
def guest (stage : BootStage) : GuestCmd Text Unit := do
  copyConfigToInitrdStateIfNotExist toml debug true
  let (_, cached) ← getFdeConfigBundleCached toml none
  runBootService toml cached stage

end

/-! ## `cmd/config/dump.rs` -/

/-- What is printed for a configuration. -/
def dumpText (bundle : FdeConfigBundle) : Text :=
  toml.withLines
    [cloudInitFdeConfigBundleHeader, "",
      "# This config is generated by cryptpilot. And you can also put this cloud-init user data of your instance",
      "#", "# The sha384 hash of this config is: " ++ bundle.genHashHex toml, "", ""]
    (bundle.genHashContentPretty toml)

/-- `ConfigDumpCommand::run`, for what was extracted from the kernels: the first configuration that
could be. -/
def configDump (kernels : List (Except String FdeConfigBundle)) : Except String Text :=
  match kernels.filterMap Except.toOption with
  | [] => .error "No fde config bundle found"
  | bundle :: _ => .ok (dumpText toml bundle)

end

end CryptPilot.Fde
