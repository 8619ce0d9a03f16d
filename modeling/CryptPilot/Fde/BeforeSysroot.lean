import CryptPilot.Crypt.Commands

/-!
# The boot stage before the root file system is mounted

`cmd/boot_service/stage/before_sysroot.rs`. What the system writes goes to the delta volume: a
logical volume that is encrypted, and holds the upper layer of an overlay or the exception store of
a snapshot of the root file system.
-/

namespace CryptPilot.Fde

open CryptPilot.Data CryptPilot.Data.Prog CryptPilot.Core CryptPilot.Crypt

/-! ## Configuration -/

inductive DeltaLocation where
  | disk
  | diskPersist
  | ram
  deriving DecidableEq

inductive DeltaBackend where
  | overlayfs
  | dmSnapshot
  deriving DecidableEq

structure RootFsConfig where
  deltaLocation : Option DeltaLocation
  deltaBackend : Option DeltaBackend
  encrypt : Option EncryptConfig
  deriving DecidableEq

structure DeltaConfig where
  integrity : Bool
  encrypt : EncryptConfig
  deriving DecidableEq

structure FdeConfig where
  rootfs : RootFsConfig
  delta : DeltaConfig
  deriving DecidableEq

namespace FdeConfig

/-- The location, `disk` if there is none. -/
def location (self : FdeConfig) : DeltaLocation := self.rootfs.deltaLocation.getD .disk

/-- The backend, `dm-snapshot` if there is none. -/
def backend (self : FdeConfig) : DeltaBackend := self.rootfs.deltaBackend.getD .dmSnapshot

end FdeConfig

/-! ## Names -/

def volumeGroupName : String := "cryptpilot"

def rootfsLogicalVolume : Path := "/dev/mapper/cryptpilot-rootfs"

def rootfsHashLogicalVolume : Path := "/dev/mapper/cryptpilot-rootfs_hash"

def deltaLogicalVolume : Path := "/dev/mapper/cryptpilot-delta"

def rootfsName : String := "rootfs"

def rootfsDevice : Path := "/dev/mapper/rootfs"

def rootfsDecryptedName : String := "rootfs_decrypted"

def rootfsDecryptedLayerDevice : Path := "/dev/mapper/rootfs_decrypted"

def deltaName : String := "delta"

def deltaDevice : Path := "/dev/mapper/delta"

def rootfsVerityName : String := "rootfs_verity"

def rootfsVerityDevice : Path := "/dev/mapper/rootfs_verity"

def rootfsExtendedName : String := "rootfs_extended"

def rootfsExtendedDevice : Path := "/dev/mapper/rootfs_extended"

/-! ## The read-only part -/

section
variable (debug : String → String)

/-- Opens the root file system if it is encrypted. -/
def setupRootfsCrypt (config : FdeConfig) : Cmd Unit := do
  match config.rootfs.encrypt with
  | none => return ()
  | some encrypt =>
    bailIf (encrypt.keyProvider.volumeType = .temporary)
      s!"Key provider {debug encrypt.keyProvider.debugName} is not supported for rootfs volume"
    let passphrase ← context "Failed to get passphrase" (getKey encrypt.keyProvider)
    openWithCheckPassphrase debug rootfsDecryptedName rootfsLogicalVolume passphrase .none

def setupRootfsDmVerity (name rootHash : String) (lowerDmDevice : Path) : Cmd Unit :=
  context "Failed to setup rootfs_verity"
    (act (.veritysetup lowerDmDevice rootfsHashLogicalVolume name rootHash))

/-- The name and the device that dm-verity gives. -/
def dmVerityOutput : DeltaBackend → String × Path
  | .overlayfs => (rootfsName, rootfsDevice)
  | .dmSnapshot => (rootfsVerityName, rootfsVerityDevice)

def setupRootfs (config : FdeConfig) : Cmd Unit := do
  context s!"Failed to activate LVM volume group '{volumeGroupName}'" (act .vgchange)
  let metadata ← context "Failed to load metadata" loadMetadata
  bailIf (metadata.type ≠ 1) s!"Unsupported cryptpilot metadata type: {metadata.type}"
  setupRootfsCrypt debug config
  setupRootfsDmVerity (dmVerityOutput config.backend).1 metadata.rootHash
    (if config.rootfs.encrypt.isSome then rootfsDecryptedLayerDevice else rootfsLogicalVolume)

/-! ## The delta volume -/

/-- A new volume is not cleared by `lvcreate`, so its first 4096 bytes are. -/
def ensureDeltaVolumeExistAndExpanded : Cmd Unit := do
  if ← pathExists deltaLogicalVolume then
    let _ ← attempt (act (.lvextend deltaLogicalVolume))
  else
    context "Failed to create delta logical volume" do
      act (.lvcreate deltaLogicalVolume)
      act (.openWrite deltaLogicalVolume)
      act (.writeZeros deltaLogicalVolume)

/-- Whether the content of the volume has to be made anew. -/
def recreatesDelta (provider : KeyProviderConfig) (location : DeltaLocation) : Cmd Bool := do
  if provider.volumeType = .temporary then return true
  else if !(← isInitialized deltaLogicalVolume) then return true
  else if location = .disk then return true
  else return false

def setupDeltaVolumeLuks2 (config : DeltaConfig) (location : DeltaLocation) :
    Cmd (Bool × IntegrityType) := do
  let passphrase ← context "Failed to get passphrase" (getKey config.encrypt.keyProvider)
  let integrity := if config.integrity then .journal else .none
  let recreate ← recreatesDelta config.encrypt.keyProvider location
  doIf recreate (format debug deltaLogicalVolume passphrase integrity)
  openWithCheckPassphrase debug deltaName deltaLogicalVolume passphrase integrity
  return (recreate, integrity)

def resizeExt4Filesystem (device : Path) : Cmd Unit := do
  context s!"Failed to clear read-only flag on {device}" (act (.tune2fs device))
  context s!"Failed to resize ext4 filesystem on {device}" (act (.resize2fs device))

def wipeCowDeviceHeaderAsync (device : Path) : Cmd Unit := do
  context "Failed to open device for wiping" (act (.openWrite device))
  act (.writeZeros device)
  act (.syncAll device)

def getDeviceSizeBytes (device : Path) : Cmd UInt64 := do
  context s!"Failed to open device {debug device}" (act (.openRead device))
  context s!"Failed to get block device size in bytes {debug device}" (deviceSize device)

/-- What is done with the device for the exceptions before the snapshot is created. -/
def prepareCowDevice (cowDevice : Path) (persistent : Bool) : Cmd Unit := do
  if !persistent then
    context "Failed to wipe COW device" (wipeCowDeviceHeaderAsync cowDevice)
  else
    let probe ← probeDevice cowDevice
    match probe with
    | .noSignatures => context "Failed to wipe COW device" (wipeCowDeviceHeaderAsync cowDevice)
    | .knownSignature fsType ptType subsystem =>
      if probe.isDmSnapshotCow then return ()
      else fail s!"COW device has valuable data (fs_type={debugOption debug fsType}, pt_type={debugOption debug ptType}, subsystem={debugOption debug subsystem}), cannot overwrite in persistent mode"

def setupDmSnapshotDeviceChain (device cowDevice : Path) (persistent : Bool) : Cmd Unit := do
  let veritySize := (← getDeviceSizeBytes debug device) / 512
  let cowSize := (← getDeviceSizeBytes debug cowDevice) / 512
  let linearSize := veritySize + cowSize
  context "Failed to create dm-linear device"
    (act (.dmsetup rootfsExtendedName (.linear veritySize device cowSize)))
  prepareCowDevice debug cowDevice persistent
  context "Failed to create dm-snapshot device"
    (act (.dmsetup rootfsName (.snapshot linearSize rootfsExtendedDevice cowDevice persistent)))

/-- The delta volume on disk, for the backend that uses it. -/
def setupDeltaBackend (config : FdeConfig) (recreate : Bool) (integrity : IntegrityType) :
    Cmd Unit := do
  match config.backend with
  | .overlayfs =>
    if recreate then forceMkfs debug deltaDevice .ext4 integrity
    else resizeExt4Filesystem deltaDevice
  | .dmSnapshot =>
    setupDmSnapshotDeviceChain debug (dmVerityOutput config.backend).2 deltaDevice
      (config.location = .diskPersist)
    resizeExt4Filesystem rootfsDevice

def setupDeltaOnDisk (config : FdeConfig) : Cmd Unit := do
  let _ ← attempt (act .expandSystemPv)
  ensureDeltaVolumeExistAndExpanded
  let (recreate, integrity) ← setupDeltaVolumeLuks2 debug config.delta config.location
  setupDeltaBackend debug config recreate integrity
  doIf recreate (markVolumeAsInitialized debug deltaLogicalVolume)

def createZramCowDevice : Cmd Path := do
  let memTotalKb ← memTotalKb
  let zramId ← zramHotAdd
  context "Failed to set zram disksize" (act (.zramDisksize zramId memTotalKb))
  return s!"/dev/zram{zramId}"

def setupDeltaInRam (config : FdeConfig) : Cmd Unit := do
  match config.backend with
  | .overlayfs => return ()
  | .dmSnapshot =>
    let cowDevice ← createZramCowDevice
    setupDmSnapshotDeviceChain debug (dmVerityOutput config.backend).2 cowDevice false
    resizeExt4Filesystem rootfsDevice

/-- `setup_volumes_required_by_fde`, for the configuration that was found. -/
def setupVolumesRequiredByFde (config : Except String (Option FdeConfig)) : Cmd Unit := do
  match ← Prog.ofExcept config with
  | none => return ()
  | some config =>
    setupRootfs debug config
    if config.location = .disk ∨ config.location = .diskPersist then setupDeltaOnDisk debug config
    else setupDeltaInRam debug config

theorem setupVolumesRequiredByFde_some (config : FdeConfig) :
    setupVolumesRequiredByFde debug (.ok (some config)) = (do
      setupRootfs debug config
      if config.location = .disk ∨ config.location = .diskPersist then setupDeltaOnDisk debug config
      else setupDeltaInRam debug config) :=
  rfl

end

/-! ## What does nothing to the delta volume -/

section
variable {debug : String → String} {config : FdeConfig} {device cowDevice : Path}

theorem inert_setupRootfs : (setupRootfs debug config).Calls (Op.Inert deltaLogicalVolume) := by
  have hcrypt : (setupRootfsCrypt debug config).Calls (Op.Inert deltaLogicalVolume) := by
    unfold setupRootfsCrypt
    cases config.rootfs.encrypt with
    | none => exact calls_done
    | some encrypt =>
      refine .bind calls_bailIf fun _ => .bind (.context (calls_getKey trivial)) fun _ => ?_
      exact inert_openWithCheckPassphrase (by decide)
  refine .bind (.context (calls_act trivial)) fun _ => ?_
  refine .bind (.context ⟨trivial, fun _ => calls_done⟩) fun _ => .bind calls_bailIf fun _ => ?_
  exact .bind hcrypt fun _ => .context (calls_act trivial)

theorem inert_resizeExt4Filesystem :
    (resizeExt4Filesystem device).Calls (Op.Inert deltaLogicalVolume) :=
  .bind (.context (calls_act trivial)) fun _ => .context (calls_act trivial)

theorem inert_getDeviceSizeBytes :
    (getDeviceSizeBytes debug device).Calls (Op.Inert deltaLogicalVolume) :=
  .bind (.context (calls_act trivial)) fun _ => .context ⟨trivial, fun _ => calls_done⟩

theorem inert_recreatesDelta {provider : KeyProviderConfig} {location : DeltaLocation} :
    (recreatesDelta provider location).Calls (Op.Inert deltaLogicalVolume) := by
  unfold recreatesDelta
  split
  · exact calls_done
  · refine .bind (calls_isInitialized trivial) fun initialized => ?_
    split_ifs <;> exact calls_done

theorem inert_createZramCowDevice :
    createZramCowDevice.Calls (Op.Inert deltaLogicalVolume) := by
  refine .bind ⟨trivial, fun _ => calls_done⟩ fun _ => .bind ⟨trivial, fun _ => calls_done⟩ fun _ => ?_
  exact .bind (.context (calls_act trivial)) fun _ => calls_done

/-! Neither is a device formatted, nor a label set. -/

theorem neutral_of_inert {α : Type} {p : Cmd α} (hp : p.Calls (Op.Inert deltaLogicalVolume)) :
    p.Calls Op.Neutral :=
  hp.mono fun _ hop => hop.quiet.neutral

theorem neutral_of_quiet {α : Type} {p : Cmd α} (hp : p.Calls Op.Quiet) : p.Calls Op.Neutral :=
  hp.mono fun _ => Op.Quiet.neutral

theorem neutral_ensureDeltaVolumeExistAndExpanded :
    ensureDeltaVolumeExistAndExpanded.Calls Op.Neutral := by
  refine .bind (calls_pathExists trivial) fun present => ?_
  cases present with
  | true => exact .bind (.attempt (calls_act trivial)) fun _ => calls_done
  | false =>
    refine .context (.bind (calls_act trivial) fun _ => ?_)
    exact .bind (calls_act trivial) fun _ => calls_act trivial

theorem neutral_prepareCowDevice {persistent : Bool} :
    (prepareCowDevice debug cowDevice persistent).Calls Op.Neutral := by
  have hwipe : (wipeCowDeviceHeaderAsync cowDevice).Calls Op.Neutral :=
    .bind (.context (calls_act trivial)) fun _ => .bind (calls_act trivial) fun _ => calls_act trivial
  cases persistent with
  | false => exact .context hwipe
  | true =>
    refine .bind (.context ⟨trivial, fun _ => calls_done⟩) fun probe => ?_
    cases probe with
    | noSignatures => exact .context hwipe
    | knownSignature fsType ptType subsystem => dsimp only; split_ifs <;> exact calls_done

theorem neutral_setupDmSnapshotDeviceChain {persistent : Bool} :
    (setupDmSnapshotDeviceChain debug device cowDevice persistent).Calls Op.Neutral := by
  refine .bind (neutral_of_inert inert_getDeviceSizeBytes) fun _ => ?_
  refine .bind (neutral_of_inert inert_getDeviceSizeBytes) fun _ => ?_
  refine .bind (.context (calls_act trivial)) fun _ => ?_
  exact .bind neutral_prepareCowDevice fun _ => .context (calls_act trivial)

theorem neutral_setupDeltaInRam : (setupDeltaInRam debug config).Calls Op.Neutral := by
  unfold setupDeltaInRam
  cases config.backend with
  | overlayfs => exact calls_done
  | dmSnapshot =>
    refine .bind (neutral_of_inert inert_createZramCowDevice) fun _ => ?_
    refine .bind neutral_setupDmSnapshotDeviceChain fun _ => ?_
    exact neutral_of_inert inert_resizeExt4Filesystem

end

end CryptPilot.Fde
