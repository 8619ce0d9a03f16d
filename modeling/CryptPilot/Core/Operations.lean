import CryptPilot.Data.Prog
import Mathlib.Data.Vector.Basic

/-!
# What the commands do to a machine

The commands of `cryptpilot-crypt` and the boot stages of `cryptpilot-fde` are programs over the
operations of this module: looking at device nodes, reading a header, asking the user, fetching a
key, calling libcryptsetup and running tools. Nothing is said here about what an operation does.

Everything that can fail has a message. Loading a kernel module has no result and is left out.
-/

namespace CryptPilot.Core

open CryptPilot.Data

abbrev Bytes := List UInt8

abbrev Path := String

abbrev Passphrase := Bytes

/-! ## `types.rs` -/

inductive IntegrityType where
  | none
  | journal
  | noJournal
  deriving DecidableEq

inductive MakeFsType where
  | swap
  | ext4
  | xfs
  | vfat
  deriving DecidableEq

/-- The name as text: what `Display` prints, and the type that `blkid` reports. -/
def MakeFsType.name : MakeFsType → String
  | .swap => "swap"
  | .ext4 => "ext4"
  | .xfs => "xfs"
  | .vfat => "vfat"

/-! ## Key providers -/

/-- What becomes of the data of a volume that is closed. -/
inductive VolumeType where
  | temporary
  | persistent
  deriving DecidableEq

inductive AuthMode where
  | clientKey (clientKey clientKeyPassword kmsCertPem : String)
  | ecsRamRole (ecsRamRoleName regionId : Option String)
  deriving DecidableEq

structure KmsConfig where
  kmsInstanceId : String
  secretName : String
  auth : AuthMode
  deriving DecidableEq

inductive CdhType where
  | oneShot (kbsUrl : String) (kbsRootCert : Option String)
  | daemon (cdhSocket : String)
  deriving DecidableEq

structure KbsConfig where
  cdhType : CdhType
  keyUri : String
  deriving DecidableEq

structure AliyunKmsConfig where
  oidcProviderArn : String
  roleArn : String
  regionId : String
  deriving DecidableEq

inductive Kms where
  | aliyun (config : AliyunKmsConfig)
  deriving DecidableEq

structure OidcConfig where
  command : String
  args : List String
  keyId : String
  kms : Kms
  deriving DecidableEq

structure ExecConfig where
  command : String
  args : List String
  deriving DecidableEq

inductive KeyProviderConfig where
  | otp
  | kms (config : KmsConfig)
  | kbs (config : KbsConfig)
  | tpm2
  | oidc (config : OidcConfig)
  | exec (config : ExecConfig)
  deriving DecidableEq

namespace KeyProviderConfig

def volumeType : KeyProviderConfig → VolumeType
  | .otp => .temporary
  | .kms _ | .kbs _ | .tpm2 | .oidc _ | .exec _ => .persistent

/-- `serde_variant::to_variant_name`. -/
def variantName : KeyProviderConfig → String
  | .otp => "otp"
  | .kms _ => "kms"
  | .kbs _ => "kbs"
  | .tpm2 => "tpm2"
  | .oidc _ => "oidc"
  | .exec _ => "exec"

def debugName : KeyProviderConfig → String
  | .otp => "Secure Random One-Time Password"
  | .kms config => match config.auth with
    | .clientKey .. => s!"KMS (key ID: {config.secretName}) via Client Key"
    | .ecsRamRole role _ =>
      let roleName := role.getD "(auto-discovered)"
      s!"KMS (key ID: {config.secretName}) via ECS RAM Role ({roleName})"
  | .kbs config => match config.cdhType with
    | .oneShot kbsUrl _ => s!"Key Broker Service ({kbsUrl})"
    | .daemon _ => "Key Broker Service (via CDH daemon)"
  | .tpm2 => "TPM"
  | .oidc config => s!"KMS (key ID: {config.keyId}) via OIDC token (provider: {config.command})"
  | .exec config => s!"External Command ({config.command})"

end KeyProviderConfig

structure EncryptConfig where
  keyProvider : KeyProviderConfig
  deriving DecidableEq

/-! ## Answers -/

/-- The binary header of a LUKS2 volume. -/
abbrev Header := List.Vector UInt8 4096

/-- How opening a device with `O_EXCL` ends. -/
inductive ExclusiveOpen where
  | opened
  | busy
  | failed (message : String)
  deriving DecidableEq

/-- What `blkid -p` says of a device. -/
inductive BlkidProbeResult where
  | noSignatures
  | knownSignature (fsType ptType subsystem : Option String)
  deriving DecidableEq

/-- What the initrd says of the root file system. -/
structure Metadata where
  type : UInt32
  rootHash : String
  deriving DecidableEq

/-- The tables that are given to `dmsetup create`. -/
inductive DmTable where
  /-- The root file system, and zeros behind it. -/
  | linear (size : UInt64) (device : Path) (zeros : UInt64)
  | snapshot (size : UInt64) (origin cow : Path) (persistent : Bool)
  deriving DecidableEq

/-! ## Operations -/

/-- Something that is done, or fails. -/
inductive Action where
  -- libcryptsetup
  | cryptInit (dev : Path)
  | cryptLoad (dev : Path)
  | cryptFormat (dev : Path) (subsystem : String) (integrity : IntegrityType)
  | addByKey (dev : Path) (passphrase : Passphrase)
  | setLabel (dev : Path) (subsystem : String)
  | activateByPassphrase (name : Option String) (dev : Path) (passphrase : Passphrase)
      (noJournal : Bool)
  | initByName (volume : String)
  | deactivate (volume : String)
  -- tools
  | mkfs (device : Path) (fs : MakeFsType) (integrity : IntegrityType)
  | vgchange
  | veritysetup (lower hashDevice : Path) (name rootHash : String)
  | expandSystemPv
  | lvcreate (volume : Path)
  | lvextend (volume : Path)
  | dmsetup (name : String) (table : DmTable)
  | tune2fs (device : Path)
  | resize2fs (device : Path)
  -- files
  | openRead (path : Path)
  | openWrite (path : Path)
  | writeZeros (path : Path)
  | syncAll (path : Path)
  | zramDisksize (id : UInt64) (kilobytes : UInt64)
  deriving DecidableEq

inductive Op where
  | act (action : Action)
  /-- `Path::exists` -/
  | pathExists (path : Path)
  /-- opens a device and reads the first 4096 bytes of it -/
  | readHeader (dev : Path)
  /-- opens a device with `O_EXCL`, and closes it again -/
  | openExclusive (dev : Path)
  | stderrIsTerm
  | confirm (dev : Path)
  | getKey (provider : KeyProviderConfig)
  /-- 20 random characters -/
  | randomName
  | blkid (device : Path)
  | loadMetadata
  | deviceSize (path : Path)
  | memTotalKb
  | zramHotAdd
  deriving DecidableEq

def Op.Res : Op → Type
  | .act _ => Except String Unit
  | .pathExists _ | .stderrIsTerm => Bool
  | .readHeader _ => Except String Header
  | .openExclusive _ => ExclusiveOpen
  | .confirm _ => Except String Bool
  | .getKey _ => Except String Passphrase
  | .randomName => String
  | .blkid _ => Except String BlkidProbeResult
  | .loadMetadata => Except String Metadata
  | .deviceSize _ | .memTotalKb | .zramHotAdd => Except String UInt64

abbrev Cmd (α : Type) := Prog Op Op.Res α

/-- An operation that was called, with its answer. -/
abbrev Call := Event Op Op.Res

/-- An action that succeeded. -/
def did (action : Action) : Call := ⟨.act action, Except.ok ()⟩

/-! ## Calls

An answer that can be a failure is the result of the call. -/

def act (action : Action) : Cmd Unit := .step (.act action) .done

def pathExists (path : Path) : Cmd Bool := Prog.call (Op.pathExists path)

def readHeader (dev : Path) : Cmd Header := .step (.readHeader dev) .done

def openExclusive (dev : Path) : Cmd ExclusiveOpen := Prog.call (Op.openExclusive dev)

def stderrIsTerm : Cmd Bool := Prog.call Op.stderrIsTerm

def confirm (dev : Path) : Cmd Bool := .step (.confirm dev) .done

def getKey (provider : KeyProviderConfig) : Cmd Passphrase := .step (.getKey provider) .done

def randomName : Cmd String := Prog.call Op.randomName

def blkid (device : Path) : Cmd BlkidProbeResult := .step (.blkid device) .done

def loadMetadata : Cmd Metadata := .step .loadMetadata .done

def deviceSize (path : Path) : Cmd UInt64 := .step (.deviceSize path) .done

def memTotalKb : Cmd UInt64 := .step .memTotalKb .done

def zramHotAdd : Cmd UInt64 := .step .zramHotAdd .done

theorem path_act (action : Action) :
    Prog.Path (act action) [⟨.act action, Except.ok ()⟩] (.done (.ok ())) :=
  @Prog.path_step Op Op.Res _ (Op.act action) _ (Except.ok ())

theorem path_pathExists (path : Path) (r : Bool) :
    Prog.Path (pathExists path) [⟨.pathExists path, r⟩] (.done (.ok r)) :=
  @Prog.path_step Op Op.Res _ (Op.pathExists path) _ r

theorem path_getKey (provider : KeyProviderConfig) (passphrase : Passphrase) :
    Prog.Path (getKey provider) [⟨.getKey provider, Except.ok passphrase⟩] (.done (.ok passphrase)) :=
  @Prog.path_step Op Op.Res _ (Op.getKey provider) _ (Except.ok passphrase)

section
variable {σ : Type} {sem : σ → (op : Op) → op.Res → σ → Prop} {G : σ → Op → Prop} {s : σ}

theorem ensures_act {action : Action} {Q : Unit → σ → Prop} : (act action).Ensures sem G Q s ↔
    G s (.act action) ∧ ∀ s', sem s (.act action) (Except.ok ()) s' → Q () s' :=
  ⟨fun h => ⟨h.1, fun s' hs' => h.2 _ s' hs' _ rfl⟩,
    fun h => ⟨h.1, fun _ s' hs' _ hr => h.2 s' (hr ▸ hs')⟩⟩

theorem ensures_act_bind {β : Type} {action : Action} {f : Unit → Cmd β} {Q : β → σ → Prop}
    (hG : G s (.act action))
    (h : ∀ s', sem s (.act action) (Except.ok ()) s' → (f ()).Ensures sem G Q s') :
    (act action >>= f).Ensures sem G Q s :=
  .bind (ensures_act.mpr ⟨hG, h⟩) fun _ _ h => h

theorem ensures_getKey {provider : KeyProviderConfig} {Q : Passphrase → σ → Prop} :
    (getKey provider).Ensures sem G Q s ↔ G s (.getKey provider) ∧
      ∀ passphrase s', sem s (.getKey provider) (Except.ok passphrase) s' → Q passphrase s' :=
  ⟨fun h => ⟨h.1, fun _ s' hs' => h.2 _ s' hs' _ rfl⟩,
    fun h => ⟨h.1, fun _ s' hs' _ hr => h.2 _ s' (hr ▸ hs')⟩⟩

end

end CryptPilot.Core
