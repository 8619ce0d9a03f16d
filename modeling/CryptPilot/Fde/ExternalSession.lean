import CryptPilot.Core.TmpMount
import CryptPilot.Data.Text
import CryptPilot.Fde.Attested
import CryptPilot.Fde.KernelArtifacts
import CryptPilot.Fde.Uki

/-!
# Opening the disk of another system

`new_from_disk` of `disk/external.rs`, what it calls to find the partitions, and what happens when
the disk is dropped. `show-reference-value` and `config dump` open a disk, read from it, and drop it
at the end. `config dump` also unpacks initrds in temporary directories (`disk/kernel.rs`).

A disk image is connected to an NBD device, and partitions are mounted to look for the one with the
right content. Fields are dropped in the order of their declaration, and the device is the first one.
So it is disconnected while its partitions are still mounted. Local variables are dropped the other
way round: if the disk can not be opened, `umount` has been called for everything that was mounted
when the device is disconnected.
-/

namespace CryptPilot.Fde

open CryptPilot.Data CryptPilot.Data.Prog CryptPilot.Data.Text CryptPilot.Core
open CryptPilot.Core.HostCmd

/-! ## The code -/

/-- `ExternalDiskType`, with the mounts it owns. -/
inductive MountedDiskType where
  | noFde (efiDev : Path) (efiDevTmpMount : TmpMountPoint) (rootDev : Path)
      (rootDevTmpMount : TmpMountPoint)
  | grub (bootDev : Path) (bootDevTmpMount : TmpMountPoint) (efiDev : Path)
      (efiDevTmpMount : TmpMountPoint)
  | uki (efiDev : Path) (efiDevTmpMount : TmpMountPoint)
  deriving DecidableEq

/-- The mounts in the order of the fields. -/
def MountedDiskType.tmpMounts : MountedDiskType → List TmpMountPoint
  | .noFde _ efi _ root => [efi, root]
  | .grub _ boot _ efi => [boot, efi]
  | .uki _ efi => [efi]

/-- `OnExternalFdeDisk`, with what it owns. -/
structure MountedFdeDisk where
  nbdDevice : Option NbdDevice
  diskType : MountedDiskType
  deriving DecidableEq

def dropNbdDevice : Option NbdDevice → HostCmd Unit
  | some device => device.drop
  | none => pure ()

/-- Fields are dropped in their order. -/
def MountedFdeDisk.drop (self : MountedFdeDisk) : HostCmd Unit := do
  dropNbdDevice self.nbdDevice
  forEach TmpMountPoint.drop self.diskType.tmpMounts

section
variable (debug : String → String) (unicodeN : Char → Bool)
  (parse : Bytes → Except String ObjectFile)

/-- A partition is mounted for a look at it. -/
def lookInto {α : Type} (dev : Path) (look : Path → HostCmd α) : HostCmd α := do
  let tmpMount ← TmpMountPoint.mount debug dev false
  ensuring (look tmpMount.mountDir) tmpMount.drop

def isEfiPart (mountPoint : Path) : HostCmd Bool := do
  let hasEfi ← exist (mountPoint ++ "/EFI")
  let hasVmlinuz ← glob (mountPoint ++ "/vmlinuz-*")
  return hasEfi && !hasVmlinuz

/-- The loop over the names of a directory. -/
def hasBootKernel (mountPoint : Path) : HostCmd Bool := do
  let (names, failure) ← readDir mountPoint
  if names.any fun name => "vmlinuz".toList.isPrefixOf name.toList then return true
  else match failure with
    | some error => fail error
    | none => return false

/-- The first partition that looks right. One that can not be mounted or read is passed over. -/
def firstPart (look : Path → HostCmd Bool) (message : String) : List Path → HostCmd Path
  | [] => fail message
  | dev :: rest => do
    match ← attempt (lookInto debug dev look) with
    | .ok true => return dev
    | .ok false | .error _ => firstPart look message rest

/-- `char::is_numeric`. What counts as a number beyond ASCII is a table of the library. -/
def isNumeric (c : Char) : Bool := c.isDigit || ('\x7f' < c && unicodeN c)

/-- Names that end with a number. -/
def candidatePartitions (names : List Path) : List Path :=
  names.filter fun name => (name.toList.getLast?.map (isNumeric unicodeN)).getD false

def detectEfiPart (hintDevice : Path) : HostCmd Path := do
  let names ← context "Failed to list partitions" (lsblk hintDevice)
  firstPart debug isEfiPart "No valid EFI partition found" (candidatePartitions unicodeN names)

/-- The output of `blkid`, if there is some. -/
def blkidDevice (token : String) (hintDevice : Path) : HostCmd (Option Path) := do
  match ← attempt (blkid token hintDevice) with
  | .error _ => return none
  | .ok stdout =>
    let device := trim isWhitespace stdout.toList
    return if device = [] then none else some (String.ofList device)

def noBootPart : String := "No boot partition found (GPT and MBR methods both failed)"

def detectBootPart (hintDevice : Path) : HostCmd Path := do
  match ← blkidDevice "PARTLABEL=\"boot\"" hintDevice with
  | some device => return device
  | none =>
    let names ← context "lsblk failed" (lsblk hintDevice)
    firstPart debug hasBootKernel noBootPart names

/-- `detect_root_part` with a device, as it is always called. -/
def detectRootPart (hintDevice : Path) : HostCmd Path := do
  match ← blkidDevice "LABEL=\"root\"" hintDevice with
  | some device => return device
  | none => fail noBootPart

/-- Whether there is a UKI on the EFI partition. -/
def hasUki (mountPoint : Path) : HostCmd Bool := do
  let file := mountPoint ++ "/" ++ ukiFilePathInEfiPart
  if ← exist file then
    match ← attempt (context s!"Failed to read {debug file}" (read file)) with
    | .error _ => return false
    | .ok bytes => return (assumeUkiImage parse bytes).isOk
  else return false

def detectDiskType (diskDevice efiDev : Path) (efi : TmpMountPoint) : HostCmd MountedDiskType := do
  if ← hasUki debug parse efi.mountDir then return .uki efiDev efi
  else match ← attempt (detectBootPart debug diskDevice) with
    | .ok bootDev =>
      let boot ← TmpMountPoint.mount debug bootDev false
      return .grub bootDev boot efiDev efi
    | .error _ =>
      let rootDev ← context "Failed to detect root partition on the disk" (detectRootPart diskDevice)
      let root ← TmpMountPoint.mount debug rootDev false
      return .noFde efiDev efi rootDev root

/-- What `new_from_disk` does once there is a device. -/
def mountPartitions (diskDevice : Path) : HostCmd MountedDiskType := do
  let efiDev ← context "Cannot found EFI partition on the disk." (detectEfiPart debug unicodeN diskDevice)
  let efi ← TmpMountPoint.mount debug efiDev false
  onError (detectDiskType debug parse diskDevice efiDev efi) efi.drop

/-- Whether the disk is a block device. Anything else is taken for an image. -/
def checkDisk (disk : Path) : HostCmd Bool := do
  let found ← exist disk
  bailIf (!found) s!"File not exist: {debug disk}"
  isBlockDevice disk

def openImage (disk : Path) : HostCmd MountedFdeDisk := do
  let device ← NbdDevice.connect debug disk
  let diskType ← onError (mountPartitions debug unicodeN parse device.toPath) device.drop
  return ⟨some device, diskType⟩

def newFromDisk (disk : Path) : HostCmd MountedFdeDisk := do
  if ← checkDisk debug disk then
    let diskType ← mountPartitions debug unicodeN parse disk
    return ⟨none, diskType⟩
  else openImage debug unicodeN parse disk

/-- A command that opens a disk, and drops it when it is done. -/
def withDisk {α : Type} (disk : Path) (body : MountedFdeDisk → HostCmd α) : HostCmd α := do
  let fdeDisk ← newFromDisk debug unicodeN parse disk
  ensuring (body fdeDisk) fdeDisk.drop

end

section
variable {Text : Type} (toml : ConfigText Text) (load : Path → HostCmd (FdeConfigBundle × Metadata))
  (artifacts : MountedFdeDisk → HostCmd (List KernelArtifacts))

/-- `extract_cryptpilot_files`. `load` reads the configuration and the metadata that were
unpacked. -/
def extractCryptpilotFiles (initrd : Bytes) : HostCmd (FdeConfigBundle × Metadata) := do
  let tempDir ← tempdir ".tmp"
  ensuring (do
    let initrdPath := tempDir ++ "/initrd.img"
    context "Failed to write initrd content to a temporary dir" (write initrdPath initrd)
    context "Failed to unpack initrd" (lsinitrd initrdPath "/etc/cryptpilot/*" tempDir)
    let found ← exist (tempDir ++ "/etc/cryptpilot")
    bailIf (!found) "No cryptpilot config found in initrd"
    load tempDir) (removeDirAll tempDir)

/-- The loop over the kernels. -/
def extractConfigs : List KernelArtifacts → HostCmd (List (Except String FdeConfigBundle))
  | [] => pure []
  | kernel :: rest => do
    let extracted ← attempt (extractCryptpilotFiles load kernel.initrd)
    let others ← extractConfigs rest
    return extracted.map Prod.fst :: others

/-- What `config dump` does with an open disk. `artifacts` reads the kernels and their initrds. -/
def dumpConfig (fdeDisk : MountedFdeDisk) : HostCmd Text := do
  let kernels ← artifacts fdeDisk
  let extracted ← extractConfigs load kernels
  ofExcept (configDump toml extracted)

end

/-! ## What is held -/

def MountedDiskType.resources (self : MountedDiskType) : Multiset HostResource :=
  (self.tmpMounts.map TmpMountPoint.resources).sum

def MountedFdeDisk.resources (self : MountedFdeDisk) : Multiset HostResource :=
  self.nbdDevice.elim 0 NbdDevice.resources + self.diskType.resources

section
variable {debug : String → String} {unicodeN : Char → Bool}
  {parse : Bytes → Except String ObjectFile} {lost : Multiset HostResource → Prop}
  {dev hintDevice : Path}

theorem linear_lookInto {α : Type} {look : Path → HostCmd α}
    (hlook : ∀ dir, (look dir).Calls hostCustody.Neutral) (hlost : lost 0) :
    Linear hostCustody lost 0 (fun _ => 0) (lookInto debug dev look) :=
  .bind (linear_tmpMount hlost) fun _ => .scope (.of_neutral (hlook _) hlost) linear_tmpMount_drop

theorem linear_firstPart {look : Path → HostCmd Bool} {message : String} {devs : List Path}
    (hlook : ∀ dir, (look dir).Calls hostCustody.Neutral) (hlost : lost 0) :
    Linear hostCustody lost 0 (fun _ => 0) (firstPart debug look message devs) := by
  induction devs with
  | nil => exact linear_fail hlost
  | cons dev rest ih =>
    refine .bind (.ignore (linear_lookInto hlook rfl)) fun r => ?_
    rcases r with _ | _ | _
    · exact ih
    · exact ih
    · exact linear_pure rfl

theorem neutral_isEfiPart {dir : Path} : (isEfiPart dir).Calls hostCustody.Neutral := by
  refine .bind neutral_exist fun _ => .bind ?_ fun _ => calls_done
  exact ⟨⟨rfl, fun _ => rfl⟩, fun _ => calls_done⟩

theorem neutral_hasBootKernel {dir : Path} : (hasBootKernel dir).Calls hostCustody.Neutral := by
  refine ⟨⟨rfl, fun _ => rfl⟩, fun r => ?_⟩
  change Except String (List String × Option String) at r
  rcases r with e | ⟨names, failure⟩
  · exact calls_done
  · show Calls _ (if _ then _ else _)
    split_ifs
    · exact calls_done
    · cases failure with
      | none => exact calls_done
      | some e => exact calls_done

theorem neutral_lsblk : (lsblk hintDevice).Calls hostCustody.Neutral :=
  ⟨⟨rfl, fun _ => rfl⟩, fun _ => calls_done⟩

theorem neutral_blkidDevice {token : String} :
    (blkidDevice token hintDevice).Calls hostCustody.Neutral := by
  refine .bind (.attempt (p := blkid token hintDevice) ⟨⟨rfl, fun _ => rfl⟩, fun _ => calls_done⟩)
    fun r => ?_
  cases r with
  | error e => exact calls_done
  | ok stdout => exact calls_done

theorem linear_detectEfiPart (hlost : lost 0) :
    Linear hostCustody lost 0 (fun _ => 0) (detectEfiPart debug unicodeN hintDevice) :=
  .bind (.context (.of_neutral neutral_lsblk hlost)) fun _ =>
    linear_firstPart (fun _ => neutral_isEfiPart) hlost

theorem linear_detectBootPart (hlost : lost 0) :
    Linear hostCustody lost 0 (fun _ => 0) (detectBootPart debug hintDevice) := by
  refine .bind (.of_neutral neutral_blkidDevice hlost) fun device => ?_
  cases device with
  | some device => exact linear_pure rfl
  | none =>
    exact .bind (.context (.of_neutral neutral_lsblk hlost)) fun _ =>
      linear_firstPart (fun _ => neutral_hasBootKernel) hlost

theorem neutral_detectRootPart : (detectRootPart hintDevice).Calls hostCustody.Neutral := by
  refine .bind neutral_blkidDevice fun device => ?_
  cases device with
  | some device => exact calls_done
  | none => exact calls_done

theorem neutral_read {path : Path} : (read path).Calls hostCustody.Neutral :=
  ⟨⟨rfl, fun _ => rfl⟩, fun _ => calls_done⟩

theorem neutral_hasUki {dir : Path} : (hasUki debug parse dir).Calls hostCustody.Neutral := by
  refine .bind neutral_exist fun found => ?_
  cases found with
  | false => exact calls_done
  | true =>
    refine .bind neutral_read.context.attempt fun r => ?_
    cases r with
    | error e => exact calls_done
    | ok bytes => exact calls_done

/-- The EFI partition stays mounted, also after a failure. -/
theorem linear_detectDiskType (hlost : lost 0) {efiDev : Path} {efi : TmpMountPoint} :
    Linear hostCustody (Custody.Beside efi.resources lost) efi.resources MountedDiskType.resources
      (detectDiskType debug parse hintDevice efiDev efi) := by
  have hefi : Custody.Beside efi.resources lost efi.resources := ⟨0, hlost, (zero_add _).symm⟩
  refine .bind (.of_neutral neutral_hasUki hefi) fun found => ?_
  cases found with
  | true => exact linear_pure (add_zero _).symm
  | false =>
    refine .bind (.within (.ignore (linear_detectBootPart rfl)) efi.resources) fun r => ?_
    rw [zero_add]
    cases r with
    | ok bootDev =>
      refine .bind ((linear_tmpMount hlost).within efi.resources) fun boot => linear_pure ?_
      simp [MountedDiskType.resources, MountedDiskType.tmpMounts]
    | error e =>
      refine .bind (.context (.of_neutral neutral_detectRootPart hefi)) fun rootDev =>
        .bind ((linear_tmpMount hlost).within efi.resources) fun root => linear_pure ?_
      simp [MountedDiskType.resources, MountedDiskType.tmpMounts, add_comm]

theorem linear_mountPartitions (hlost : lost 0) :
    Linear hostCustody lost 0 MountedDiskType.resources
      (mountPartitions debug unicodeN parse hintDevice) :=
  .bind (.context (linear_detectEfiPart hlost)) fun _ => .bind (linear_tmpMount hlost) fun _ =>
    .onError (linear_detectDiskType hlost) linear_tmpMount_drop

theorem neutral_checkDisk {disk : Path} : (checkDisk debug disk).Calls hostCustody.Neutral :=
  .bind neutral_exist fun _ => .bind calls_bailIf fun _ =>
    ⟨⟨rfl, fun _ => rfl⟩, fun _ => calls_done⟩

theorem linear_newFromDisk {disk : Path} :
    Linear hostCustody LeftBehind 0 MountedFdeDisk.resources
      (newFromDisk debug unicodeN parse disk) := by
  refine .bind (.of_neutral neutral_checkDisk (.inl rfl)) fun realBlockDevice => ?_
  cases realBlockDevice with
  | true =>
    exact .bind (linear_mountPartitions (.inl rfl)) fun _ => linear_pure (zero_add _).symm
  | false =>
    refine .bind linear_connect fun device => ?_
    refine .bind (.onError ((linear_mountPartitions (.inl rfl)).within _) linear_nbd_drop) fun _ => ?_
    exact linear_pure (add_comm _ _)

theorem linear_drop_mounts {mounts : List TmpMountPoint} :
    Linear hostCustody lost (mounts.map TmpMountPoint.resources).sum (fun _ => 0)
      (forEach TmpMountPoint.drop mounts) := by
  induction mounts with
  | nil => exact linear_pure rfl
  | cons mount mounts ih =>
    refine .bind (linear_tmpMount_drop.beside _) fun _ => ?_
    rw [zero_add]
    exact ih

theorem linear_disk_drop {self : MountedFdeDisk} :
    Linear hostCustody lost self.resources (fun _ => 0) self.drop := by
  refine .bind (M := fun _ => self.diskType.resources) ?_ fun _ => linear_drop_mounts
  obtain ⟨_ | device, diskType⟩ := self
  · exact linear_pure (zero_add _)
  · have hdrop : Linear hostCustody lost (device.resources + diskType.resources)
        (fun _ => 0 + diskType.resources) device.drop := linear_nbd_drop.beside _
    rwa [zero_add] at hdrop

/-- What is done with an open disk: whatever it acquires itself it releases, and it does not mount to
write, or disconnect. -/
structure Tidy {α : Type} (body : MountedFdeDisk → HostCmd α) : Prop where
  linear : ∀ fdeDisk, Linear hostCustody (· = 0) 0 (fun _ => 0) (body fdeDisk)
  looks : ∀ fdeDisk, (body fdeDisk).Calls HostOp.Looks

/-- `show-reference-value` only reads. -/
theorem tidy_of_neutral {α : Type} {body : MountedFdeDisk → HostCmd α}
    (h : ∀ fdeDisk, (body fdeDisk).Calls hostCustody.Neutral) : Tidy body :=
  ⟨fun fdeDisk => .of_neutral (h fdeDisk) rfl, fun fdeDisk => looks_of_neutral (h fdeDisk)⟩

section
variable {Text : Type} {toml : ConfigText Text} {load : Path → HostCmd (FdeConfigBundle × Metadata)}
  {artifacts : MountedFdeDisk → HostCmd (List KernelArtifacts)}

/-- An initrd is unpacked to a directory that is there, and removed afterwards. -/
theorem linear_extractCryptpilotFiles (hload : ∀ dir, (load dir).Calls hostCustody.Neutral)
    (hlost : lost 0) {initrd : Bytes} :
    Linear hostCustody lost 0 (fun _ => 0) (extractCryptpilotFiles load initrd) := by
  refine .bind (linear_tempdir hlost) fun dir => .ensuring ?_ linear_removeDirAll
  have hdir : Custody.Beside {.tempDir dir} lost {HostResource.tempDir dir} :=
    ⟨0, hlost, (zero_add _).symm⟩
  have hwrite : (write (dir ++ "/initrd.img") initrd).Calls hostCustody.Neutral :=
    ⟨⟨rfl, fun _ => rfl⟩, fun _ => calls_done⟩
  refine .bind (.context (.of_neutral hwrite hdir)) fun _ => ?_
  refine .bind (M := fun _ => {.tempDir dir}) (.context (.step ?_ fun r => ?_)) fun _ => ?_
  · intro x hx
    rw [List.mem_singleton.mp hx, Multiset.mem_singleton]
  · exact linear_done (fun _ _ => rfl) fun _ _ => hdir
  · refine .bind (.of_neutral neutral_exist hdir) fun _ =>
      .bind (.of_neutral calls_bailIf hdir) fun _ => ?_
    simp only [zero_add]
    exact .of_neutral (hload dir) hdir

theorem looks_extractCryptpilotFiles (hload : ∀ dir, (load dir).Calls hostCustody.Neutral)
    {initrd : Bytes} : (extractCryptpilotFiles load initrd).Calls HostOp.Looks := by
  refine .bind (p := tempdir _) ⟨trivial, fun _ => calls_done⟩ fun dir =>
    .ensuring ?_ (q := removeDirAll _) ⟨trivial, fun _ => calls_done⟩
  refine .bind (.context (p := write _ _) ⟨trivial, fun _ => calls_done⟩) fun _ =>
    .bind (.context (p := lsinitrd _ _ _) ⟨trivial, fun _ => calls_done⟩) fun _ => ?_
  exact .bind (looks_of_neutral neutral_exist) fun _ => .bind calls_bailIf fun _ =>
    looks_of_neutral (hload dir)

theorem linear_extractConfigs (hload : ∀ dir, (load dir).Calls hostCustody.Neutral)
    {kernels : List KernelArtifacts} :
    Linear hostCustody (· = 0) 0 (fun _ => 0) (extractConfigs load kernels) := by
  induction kernels with
  | nil => exact linear_pure rfl
  | cons kernel rest ih =>
    have hextract : Linear hostCustody (· = 0) 0 (fun _ => 0)
        (extractCryptpilotFiles load kernel.initrd) := by
      refine linear_extractCryptpilotFiles hload ?_
      rfl
    exact .bind (.ignore hextract) fun _ => .bind ih fun _ => linear_pure rfl

theorem looks_extractConfigs (hload : ∀ dir, (load dir).Calls hostCustody.Neutral)
    {kernels : List KernelArtifacts} : (extractConfigs load kernels).Calls HostOp.Looks := by
  induction kernels with
  | nil => exact calls_done
  | cons kernel rest ih =>
    exact .bind (looks_extractCryptpilotFiles hload).attempt fun _ => .bind ih fun _ => calls_done

/-- `config dump` removes its temporary directories. -/
theorem tidy_dumpConfig (hload : ∀ dir, (load dir).Calls hostCustody.Neutral)
    (hartifacts : ∀ fdeDisk, (artifacts fdeDisk).Calls hostCustody.Neutral) :
    Tidy (dumpConfig toml load artifacts) where
  linear fdeDisk := .bind (.of_neutral (hartifacts fdeDisk) rfl) fun _ =>
    .bind (linear_extractConfigs hload) fun _ => .of_neutral calls_done rfl
  looks fdeDisk := .bind (looks_of_neutral (hartifacts fdeDisk)) fun _ =>
    .bind (looks_extractConfigs hload) fun _ => calls_done

end

theorem linear_withDisk {α : Type} {disk : Path} {body : MountedFdeDisk → HostCmd α}
    (hbody : Tidy body) :
    Linear hostCustody LeftBehind 0 (fun _ => 0) (withDisk debug unicodeN parse disk body) :=
  .bind linear_newFromDisk fun fdeDisk =>
    .scope ((hbody.linear fdeDisk).mono fun _ => .inl) linear_disk_drop

/-! ## What is done to it -/

theorem looks_lookInto {α : Type} {look : Path → HostCmd α}
    (hlook : ∀ dir, (look dir).Calls hostCustody.Neutral) :
    (lookInto debug dev look).Calls HostOp.Looks :=
  .bind looks_tmpMount fun _ => .ensuring (looks_of_neutral (hlook _)) looks_tmpMount_drop

theorem looks_firstPart {look : Path → HostCmd Bool} {message : String} {devs : List Path}
    (hlook : ∀ dir, (look dir).Calls hostCustody.Neutral) :
    (firstPart debug look message devs).Calls HostOp.Looks := by
  induction devs with
  | nil => exact calls_done
  | cons dev rest ih =>
    refine .bind (looks_lookInto hlook).attempt fun r => ?_
    rcases r with _ | _ | _
    · exact ih
    · exact ih
    · exact calls_done

theorem looks_detectEfiPart : (detectEfiPart debug unicodeN hintDevice).Calls HostOp.Looks :=
  .bind (looks_of_neutral neutral_lsblk).context fun _ =>
    looks_firstPart fun _ => neutral_isEfiPart

theorem looks_detectBootPart : (detectBootPart debug hintDevice).Calls HostOp.Looks := by
  refine .bind (looks_of_neutral neutral_blkidDevice) fun device => ?_
  cases device with
  | some device => exact calls_done
  | none =>
    exact .bind (looks_of_neutral neutral_lsblk).context fun _ =>
      looks_firstPart fun _ => neutral_hasBootKernel

theorem looks_mountPartitions :
    (mountPartitions debug unicodeN parse hintDevice).Calls HostOp.Looks := by
  refine .bind looks_detectEfiPart.context fun efiDev => .bind looks_tmpMount fun efi =>
    .onError (.bind (looks_of_neutral neutral_hasUki) fun found => ?_) looks_tmpMount_drop
  cases found with
  | true => exact calls_done
  | false =>
    refine .bind looks_detectBootPart.attempt fun r => ?_
    cases r with
    | ok bootDev => exact .bind looks_tmpMount fun _ => calls_done
    | error e =>
      exact .bind (looks_of_neutral neutral_detectRootPart).context fun _ =>
        .bind looks_tmpMount fun _ => calls_done

theorem looks_drop_mounts {mounts : List TmpMountPoint} :
    (forEach TmpMountPoint.drop mounts).Calls HostOp.Looks :=
  .forEach fun _ _ => looks_tmpMount_drop

theorem drop_eq (device : NbdDevice) (diskType : MountedDiskType) : ∃ next,
    (MountedFdeDisk.mk (some device) diskType).drop = .step (.qemuNbdDisconnect device.toPath) next ∧
      ∀ r, (next r).Calls HostOp.Looks := by
  obtain ⟨next, hdrop, hnext⟩ := nbd_drop_eq device
  refine ⟨fun r => next r >>= fun _ => forEach TmpMountPoint.drop diskType.tmpMounts, ?_,
    fun r => .bind (hnext r) fun _ => looks_drop_mounts⟩
  show device.drop >>= _ = _
  rw [hdrop]
  rfl

theorem readOnly_nbd_drop {device : NbdDevice} : device.drop.Calls HostOp.ReadOnly := by
  obtain ⟨next, hdrop, hnext⟩ := nbd_drop_eq device
  rw [hdrop]
  exact ⟨trivial, fun r => (hnext r).mono fun _ => HostOp.Looks.readOnly⟩

theorem readOnly_newFromDisk {disk : Path} :
    (newFromDisk debug unicodeN parse disk).Calls HostOp.ReadOnly := by
  have hpartitions {dev : Path} : (mountPartitions debug unicodeN parse dev).Calls HostOp.ReadOnly :=
    looks_mountPartitions.mono fun _ => HostOp.Looks.readOnly
  refine .bind (neutral_checkDisk.mono fun _ hop => (HostOp.Looks.of_neutral hop).readOnly)
    fun realBlockDevice => ?_
  cases realBlockDevice with
  | true => exact .bind hpartitions fun _ => calls_done
  | false =>
    refine .bind (looks_connect.mono fun _ => HostOp.Looks.readOnly) fun device => ?_
    exact .bind (.onError hpartitions readOnly_nbd_drop) fun _ => calls_done

theorem readOnly_drop {self : MountedFdeDisk} : self.drop.Calls HostOp.ReadOnly := by
  refine .bind ?_ fun _ => looks_drop_mounts.mono fun _ => HostOp.Looks.readOnly
  obtain ⟨_ | device, diskType⟩ := self
  · exact calls_done
  · exact readOnly_nbd_drop

end

/-! ## Main results -/

section
variable {debug : String → String} {unicodeN : Char → Bool}
  {parse : Bytes → Except String ObjectFile} {α : Type} {disk : Path}
  {body : MountedFdeDisk → HostCmd α}

/-- **A disk is left as it was found.** Whatever a command acquires for a disk it releases once,
on every way out of it, and it releases nothing else. The one thing that can be left behind is the
file of a rule that could not be written. Nothing is mounted to be written. -/
theorem withDisk_releases (hbody : Tidy body) {es : List HostCall} {result : Except String α}
    (h : Path (withDisk debug unicodeN parse disk body) es (.done result)) :
    (hostCustody.held es = 0 ∨
      (∃ e, result = .error e) ∧
        hostCustody.held es = {HostResource.brokenRule UdevRule.ruleFile}) ∧
    (∀ pre e post, es = pre ++ e :: post → ∀ x ∈ e.op.needs, x ∈ hostCustody.held pre) ∧
    ∀ e ∈ es, e.op.ReadOnly := by
  refine ⟨?_, (linear_withDisk hbody).careful h, Calls.path ?_ h⟩
  · have hhands := (linear_withDisk hbody).hands_zero h
    cases result with
    | ok a => exact .inl hhands
    | error e =>
      obtain ⟨left, rfl | rfl, hheld⟩ := hhands
      · exact .inl hheld
      · exact .inr ⟨⟨e, rfl⟩, hheld⟩
  · exact .bind readOnly_newFromDisk fun fdeDisk =>
      .ensuring ((hbody.looks fdeDisk).mono fun _ => HostOp.Looks.readOnly) readOnly_drop

/-! An image with one partition, which has a UKI. Its configuration is dumped. -/

def asciiOnly : Char → Bool := fun _ => false

def ukiParse : Bytes → Except String ObjectFile := fun _ => .ok ⟨.pe, [(".linux", .ok [])]⟩

def readUki (_ : MountedFdeDisk) : HostCmd (List KernelArtifacts) := do
  let bytes ← read "/tmp/b/EFI/BOOT/BOOTX64.EFI"
  return [⟨[], [], bytes⟩]

def readConfig (dir : Path) : HostCmd (FdeConfigBundle × Metadata) := do
  let _ ← read (dir ++ "/etc/cryptpilot/metadata.toml")
  return (otpBundle, ⟨1, "f00d"⟩)

def dumpUki : MountedFdeDisk → HostCmd (List String × Toml.Table) :=
  dumpConfig plainText readConfig readUki

def connectCalls (image : Path) : List HostCall :=
  [⟨.exist image, true⟩, ⟨.isBlockDevice image, Except.ok false⟩, ⟨.exist image, true⟩,
    ⟨.exist "/dev/nbd0", true⟩, ⟨.exist "/dev/nbd0", true⟩,
    ⟨.getBlockDeviceSize "/dev/nbd0", Except.ok 0⟩, ⟨.which "udevadm", true⟩,
    ⟨.exist UdevRule.rulesDir, true⟩, ⟨.openEmpty UdevRule.ruleFile, Except.ok ()⟩,
    ⟨.writeAll UdevRule.ruleFile UdevRule.ruleText, Except.ok ()⟩,
    ⟨.udevadm .reloadRules, Except.ok ()⟩, ⟨.udevadm .trigger, Except.ok ()⟩,
    ⟨.qemuNbdConnect "/dev/nbd0" image, Except.ok ()⟩, ⟨.holders 0, Except.ok []⟩]

def mountCalls : List HostCall :=
  [⟨.lsblk "/dev/nbd0", Except.ok ["/dev/nbd", "/dev/nbd0p1"]⟩,
    ⟨.tempdir "cryptpilot-mount-", Except.ok "/tmp/a"⟩,
    ⟨.mount true "/dev/nbd0p1" "/tmp/a", Except.ok ()⟩, ⟨.exist "/tmp/a/EFI", true⟩,
    ⟨.glob "/tmp/a/vmlinuz-*", Except.ok false⟩, ⟨.umount "/tmp/a", Except.ok ()⟩,
    ⟨.removeDirAll "/tmp/a", Except.ok ()⟩, ⟨.tempdir "cryptpilot-mount-", Except.ok "/tmp/b"⟩,
    ⟨.mount true "/dev/nbd0p1" "/tmp/b", Except.ok ()⟩,
    ⟨.exist "/tmp/b/EFI/BOOT/BOOTX64.EFI", true⟩,
    ⟨.read "/tmp/b/EFI/BOOT/BOOTX64.EFI", Except.ok []⟩]

def dumpCalls : List HostCall :=
  [⟨.read "/tmp/b/EFI/BOOT/BOOTX64.EFI", Except.ok [9]⟩, ⟨.tempdir ".tmp", Except.ok "/tmp/c"⟩,
    ⟨.write "/tmp/c/initrd.img" [9], Except.ok ()⟩,
    ⟨.lsinitrd "/tmp/c/initrd.img" "/etc/cryptpilot/*" "/tmp/c", Except.ok ()⟩,
    ⟨.exist "/tmp/c/etc/cryptpilot", true⟩,
    ⟨.read "/tmp/c/etc/cryptpilot/metadata.toml", Except.ok []⟩,
    ⟨.removeDirAll "/tmp/c", Except.ok ()⟩]

def dropCalls : List HostCall :=
  [⟨.qemuNbdDisconnect "/dev/nbd0", Except.ok ()⟩, ⟨.holders 0, Except.ok []⟩,
    ⟨.removeFile UdevRule.ruleFile, Except.ok ()⟩, ⟨.udevadm .reloadRules, Except.ok ()⟩,
    ⟨.udevadm .trigger, Except.ok ()⟩, ⟨.umount "/tmp/b", Except.ok ()⟩,
    ⟨.removeDirAll "/tmp/b", Except.ok ()⟩]

theorem path_image : Path (withDisk id asciiOnly ukiParse "disk.img" dumpUki)
    (connectCalls "disk.img" ++ (mountCalls ++ (dumpCalls ++ dropCalls)))
    (.done (.ok (dumpText plainText otpBundle))) :=
  path_of_replay (by rfl)

theorem neutral_readUki {fdeDisk : MountedFdeDisk} : (readUki fdeDisk).Calls hostCustody.Neutral :=
  .bind neutral_read fun _ => calls_done

theorem tidy_dumpUki : Tidy dumpUki :=
  tidy_dumpConfig (fun _ => .bind neutral_read fun _ => calls_done) fun _ => neutral_readUki

theorem withDisk_releases_image :
    hostCustody.held (connectCalls "disk.img" ++ (mountCalls ++ (dumpCalls ++ dropCalls))) = 0 := by
  rcases (withDisk_releases tidy_dumpUki path_image).1 with hheld | ⟨⟨e, he⟩, -⟩
  · exact hheld
  · cases he

/-- The first disconnect comes after calls that do not disconnect. -/
theorem append_of_disconnect {es es' pre post : List HostCall} {dev : Path}
    {answer : (HostOp.qemuNbdDisconnect dev).Res} (hes : ∀ e ∈ es, e.op.Looks)
    (h : es ++ es' = pre ++ ⟨.qemuNbdDisconnect dev, answer⟩ :: post) :
    ∃ pre', pre = es ++ pre' ∧ es' = pre' ++ ⟨.qemuNbdDisconnect dev, answer⟩ :: post := by
  rcases List.append_eq_append_iff.mp h with ⟨pre', rfl, hes'⟩ | ⟨more, rfl, hmore⟩
  · exact ⟨pre', rfl, hes'⟩
  · cases more with
    | nil => exact ⟨[], by simp, hmore.symm⟩
    | cons e more =>
      cases hmore
      have hlooks := hes ⟨.qemuNbdDisconnect dev, answer⟩ (by simp)
      exact False.elim hlooks

/-- What starts with the disconnect does not disconnect again. -/
theorem nil_of_disconnect {p : HostCmd α} {next : (HostOp.qemuNbdDisconnect disk).Res → HostCmd α}
    {r : Except String α} {dev : Path} {answer : (HostOp.qemuNbdDisconnect dev).Res}
    {pre post : List HostCall} (hp : p = .step (.qemuNbdDisconnect disk) next)
    (hnext : ∀ r, (next r).Calls HostOp.Looks)
    (h : Path p (pre ++ ⟨.qemuNbdDisconnect dev, answer⟩ :: post) (.done r)) : pre = [] := by
  subst hp
  cases pre with
  | nil => rfl
  | cons e pre =>
    rcases h with _ | ⟨answer', h⟩
    have hlooks := (hnext answer').path h ⟨.qemuNbdDisconnect dev, answer⟩ (by simp)
    exact False.elim hlooks

/-- Opening an image disconnects only if the partitions can not be mounted. Then nothing but the
device is held. -/
theorem openImage_cases {es : List HostCall} {r : Except String MountedFdeDisk}
    (h : Path (openImage debug unicodeN parse disk) es (.done r)) :
    (∀ e ∈ es, e.op.Looks) ∨ ∃ device message before dropped r', r = .error message ∧
      es = before ++ dropped ∧ (∀ e ∈ before, e.op.Looks) ∧
      hostCustody.held before = NbdDevice.resources device ∧ Path device.drop dropped (.done r') := by
  rcases h.of_bind with ⟨e, -, hconnect⟩ | ⟨es₁, device, es₂, rfl, hconnect, hrest⟩
  · exact .inl (looks_connect.path hconnect)
  · have hlooks := looks_connect.path hconnect
    have hheld : hostCustody.held es₁ = 0 + device.resources := by
      rw [linear_connect.hands_zero hconnect, add_comm]
    rcases hrest.of_bind with ⟨message, rfl, hmount⟩ | ⟨es₃, diskType, es₄, rfl, hmount, hdone⟩
    · rcases hmount.of_onError with ⟨a, ha, -⟩ | ⟨_, es₃, r', es₄, -, rfl, hmount, hdrop⟩
      · cases ha
      · refine .inr ⟨device, message, es₁ ++ es₃, es₄, r', rfl, by simp, ?_, ?_, hdrop⟩
        · exact List.forall_mem_append.mpr ⟨hlooks, looks_mountPartitions.path hmount⟩
        · have hlinear : Linear hostCustody (· = 0) 0 MountedDiskType.resources
              (mountPartitions debug unicodeN parse device.toPath) := linear_mountPartitions rfl
          obtain ⟨_, rfl, hleft⟩ := hlinear.hands hheld hmount
          rw [hleft, zero_add]
    · rcases hmount.of_onError with ⟨_, _, hmount⟩ | ⟨_, _, _, _, hr, _⟩
      · obtain ⟨rfl, -⟩ := hdone.of_done
        rw [List.append_nil]
        exact .inl (List.forall_mem_append.mpr ⟨hlooks, looks_mountPartitions.path hmount⟩)
      · cases hr

theorem newFromDisk_cases {es : List HostCall} {r : Except String MountedFdeDisk}
    (h : Path (newFromDisk debug unicodeN parse disk) es (.done r)) :
    (∀ e ∈ es, e.op.Looks) ∨ ∃ device message before dropped r', r = .error message ∧
      es = before ++ dropped ∧ (∀ e ∈ before, e.op.Looks) ∧
      hostCustody.held before = NbdDevice.resources device ∧ Path device.drop dropped (.done r') := by
  have hcheck : (checkDisk debug disk).Calls hostCustody.Neutral := neutral_checkDisk
  rcases h.of_bind with ⟨e, -, hpath⟩ | ⟨es₁, realBlockDevice, es₂, rfl, hpath, hrest⟩
  · exact .inl fun e he => .of_neutral (hcheck.path hpath e he)
  · have hlooks : ∀ e ∈ es₁, e.op.Looks := fun e he => .of_neutral (hcheck.path hpath e he)
    cases realBlockDevice with
    | true =>
      have hmount : ∀ e ∈ es₂, e.op.Looks :=
        (looks_mountPartitions.bind fun _ => calls_done).path hrest
      exact .inl (List.forall_mem_append.mpr ⟨hlooks, hmount⟩)
    | false =>
      rcases openImage_cases hrest with
        hall | ⟨device, message, before, dropped, r', rfl, rfl, hbefore, hheld, hdrop⟩
      · exact .inl (List.forall_mem_append.mpr ⟨hlooks, hall⟩)
      · refine .inr ⟨device, message, es₁ ++ before, dropped, r', rfl, by simp,
          List.forall_mem_append.mpr ⟨hlooks, hbefore⟩, ?_, hdrop⟩
        rw [Custody.held_neutral_append (hcheck.path hpath), hheld]

/-- Opening a disk that succeeds does not disconnect. -/
theorem looks_newFromDisk_ok {es : List HostCall} {fdeDisk : MountedFdeDisk}
    (h : Path (newFromDisk debug unicodeN parse disk) es (.done (.ok fdeDisk))) :
    ∀ e ∈ es, e.op.Looks := by
  rcases newFromDisk_cases h with hall | ⟨_, _, _, _, _, hr, _⟩
  · exact hall
  · cases hr

/-- If a disk can not be opened, `umount` has been called for everything that was mounted when the
device is disconnected. -/
theorem unmounted_of_newFromDisk_error {pre post : List HostCall} {message : String} {dev : Path}
    {answer : (HostOp.qemuNbdDisconnect dev).Res}
    (h : Path (newFromDisk debug unicodeN parse disk)
      (pre ++ ⟨.qemuNbdDisconnect dev, answer⟩ :: post) (.done (.error message))) (dir : Path) :
    HostResource.mountPoint dir ∉ hostCustody.held pre := by
  rcases newFromDisk_cases h with
    hall | ⟨device, _, before, dropped, r', -, hes, hbefore, hheld, hdrop⟩
  · have hlooks := hall ⟨.qemuNbdDisconnect dev, answer⟩ (by simp)
    exact False.elim hlooks
  · obtain ⟨pre', rfl, rfl⟩ := append_of_disconnect hbefore hes.symm
    obtain ⟨next, heq, hnext⟩ := nbd_drop_eq device
    obtain rfl := nil_of_disconnect heq hnext hdrop
    rw [List.append_nil, hheld]
    obtain ⟨number, _ | path⟩ := device
    all_goals simp [NbdDevice.resources, UdevRule.resources]

/-- **The device goes before its partitions.** A command that has opened a disk image disconnects
the device with everything still mounted. One that can not open it disconnects after the last call
of `umount`, which can have failed. -/
theorem withDisk_disconnects (hbody : Tidy body) {pre post : List HostCall}
    {result : Except String α} {dev : Path} {answer : (HostOp.qemuNbdDisconnect dev).Res}
    (h : Path (withDisk debug unicodeN parse disk body)
      (pre ++ ⟨.qemuNbdDisconnect dev, answer⟩ :: post) (.done result)) :
    (∃ fdeDisk before, before <+: pre ∧
      Path (newFromDisk debug unicodeN parse disk) before (.done (.ok fdeDisk)) ∧
      hostCustody.held pre = fdeDisk.resources) ∨
    ∃ e, Path (newFromDisk debug unicodeN parse disk)
        (pre ++ ⟨.qemuNbdDisconnect dev, answer⟩ :: post) (.done (.error e)) ∧
      ∀ dir, HostResource.mountPoint dir ∉ hostCustody.held pre := by
  rcases h.of_bind with ⟨e, -, hopen⟩ | ⟨es₁, fdeDisk, es₂, hes, hopen, hrest⟩
  · exact .inr ⟨e, hopen, unmounted_of_newFromDisk_error hopen⟩
  · obtain ⟨es₃, _, es₄, rfl, hdone, hdrop⟩ := hrest.of_ensuring
    -- only the drop disconnects, and it does so first
    obtain ⟨pre₁, rfl, hpre₁⟩ := append_of_disconnect (looks_newFromDisk_ok hopen) hes.symm
    obtain ⟨pre₂, rfl, rfl⟩ := append_of_disconnect ((hbody.looks fdeDisk).path hdone) hpre₁
    have hes₁ : hostCustody.held es₁ = 0 + fdeDisk.resources := by
      rw [linear_newFromDisk.hands_zero hopen, add_comm]
    have hheld : hostCustody.held (es₁ ++ es₃) = fdeDisk.resources := by
      have hhands := (hbody.linear fdeDisk).hands hes₁ hdone
      cases result with
      | ok a => exact hhands.trans (zero_add _)
      | error e =>
        obtain ⟨_, rfl, hleft⟩ := hhands
        exact hleft.trans (zero_add _)
    obtain ⟨_ | device, diskType⟩ := fdeDisk
    · have hlooks := looks_drop_mounts.path hdrop ⟨.qemuNbdDisconnect dev, answer⟩ (by simp)
      exact False.elim hlooks
    · obtain ⟨next, heq, hnext⟩ := drop_eq device diskType
      obtain rfl := nil_of_disconnect heq hnext hdrop
      refine .inl ⟨_, es₁, List.prefix_append _ _, hopen, ?_⟩
      rw [List.append_nil, hheld]

theorem withDisk_disconnects_image : ∃ fdeDisk before,
    before <+: connectCalls "disk.img" ++ (mountCalls ++ dumpCalls) ∧
    Path (newFromDisk id asciiOnly ukiParse "disk.img") before (.done (.ok fdeDisk)) ∧
    hostCustody.held (connectCalls "disk.img" ++ (mountCalls ++ dumpCalls)) = fdeDisk.resources := by
  have hpath := path_image
  rw [← List.append_assoc mountCalls, ← List.append_assoc] at hpath
  rcases withDisk_disconnects tidy_dumpUki hpath with hopened | ⟨_, -, hnone⟩
  · exact hopened
  · exact absurd (by decide +kernel) (hnone "/tmp/b")

end

/-! ## Several commands at once -/

/-- What is given to one only: a temporary directory has a name that is not in use, and a device that
is connected can not be connected again. -/
def HostResource.single : Set HostResource :=
  {x | ∃ path, x = .tempDir path ∨ x = .nbd path}

section
variable {ι α : Type} [DecidableEq ι] {debug : String → String} {unicodeN : Char → Bool}
  {parse : Bytes → Except String ObjectFile} {disks : ι → Path}
  {bodies : ι → MountedFdeDisk → HostCmd α}

/-- **Commands do not get in each other's way.** However commands on several disks take turns, one
mounts on and removes only directories of its own, and disconnects only a device of its own. -/
theorem withDisk_apart (hbodies : ∀ i, Tidy (bodies i)) {qs : ι → HostCmd α}
    {pre post : List (ι × HostCall)} {i : ι} {e : HostCall} {taken taken' : Set HostResource}
    (h : Interleaved (fun i => withDisk debug unicodeN parse (disks i) (bodies i))
      (pre ++ (i, e) :: post) qs)
    (hhost : Steps (hostCustody.Grants HostResource.single) taken
      ((pre ++ (i, e) :: post).map Prod.snd) taken') {x : HostResource} (hx : x ∈ e.op.needs) :
    x ∈ hostCustody.held (eventsOf i pre) ∧
      (x ∈ HostResource.single → ∀ j ≠ i, x ∉ hostCustody.held (eventsOf j pre)) :=
  h.exclusive (fun i => linear_withDisk (hbodies i)) hhost hx

/-- Another image gets the next device, and has no partition. -/
def otherCalls : List HostCall :=
  [⟨.exist "other.img", true⟩, ⟨.isBlockDevice "other.img", Except.ok false⟩,
    ⟨.exist "other.img", true⟩, ⟨.exist "/dev/nbd0", true⟩, ⟨.exist "/dev/nbd0", true⟩,
    ⟨.getBlockDeviceSize "/dev/nbd0", Except.ok 512⟩, ⟨.exist "/dev/nbd1", true⟩,
    ⟨.getBlockDeviceSize "/dev/nbd1", Except.ok 0⟩, ⟨.which "udevadm", false⟩,
    ⟨.qemuNbdConnect "/dev/nbd1" "other.img", Except.ok ()⟩, ⟨.holders 1, Except.ok []⟩,
    ⟨.lsblk "/dev/nbd1", Except.ok []⟩, ⟨.qemuNbdDisconnect "/dev/nbd1", Except.ok ()⟩,
    ⟨.holders 1, Except.ok []⟩]

/-- It would only be read. -/
def lookAtUki (fdeDisk : MountedFdeDisk) : HostCmd (List String × Toml.Table) := do
  let _ ← readUki fdeDisk
  return ([], [])

theorem path_other : ∃ message, Path (withDisk id asciiOnly ukiParse "other.img" lookAtUki)
    otherCalls (.done (.error message)) :=
  ⟨"Cannot found EFI partition on the disk.: No valid EFI partition found",
    path_of_replay (by rfl)⟩

def twoDisks : Bool → Path
  | false => "disk.img"
  | true => "other.img"

def twoBodies : Bool → MountedFdeDisk → HostCmd (List String × Toml.Table)
  | false => dumpUki
  | true => lookAtUki

/-- The other one comes and goes while the first one has its device. -/
def meanwhile : List (Bool × HostCall) :=
  (connectCalls "disk.img").map (false, ·) ++ (otherCalls.map (true, ·) ++
    (mountCalls ++ dumpCalls).map (false, ·))

theorem interleaved_twoDisks : ∃ qs, Interleaved
    (fun i => withDisk id asciiOnly ukiParse (twoDisks i) (twoBodies i))
    (meanwhile ++ dropCalls.map (false, ·)) qs := by
  obtain ⟨m, hconnect, hrest⟩ := path_image.split
  obtain ⟨message, hother⟩ := path_other
  obtain ⟨qs, h⟩ := Path.overtaken
    (fun i => withDisk id asciiOnly ukiParse (twoDisks i) (twoBodies i)) Bool.false_ne_true hconnect
    hother hrest
  refine ⟨qs, ?_⟩
  rw [meanwhile, List.append_assoc, List.append_assoc, ← List.map_append, List.append_assoc]
  exact h

theorem tidy_twoBodies : ∀ i, Tidy (twoBodies i)
  | false => tidy_dumpUki
  | true => tidy_of_neutral fun _ => .bind neutral_readUki fun _ => calls_done

theorem grants_twoDisks : ∃ taken, Steps (hostCustody.Grants HostResource.single) ∅
    ((meanwhile ++ dropCalls.map (false, ·)).map Prod.snd) taken := by
  apply Exists.intro
  repeat first
    | exact Steps.nil _
    | apply Steps.cons (Custody.grants_other rfl)
    | apply Steps.cons (Custody.grants_release rfl)
    | apply Steps.cons (Custody.grants_acquire rfl (by simp))

theorem withDisk_apart_twoDisks :
    HostResource.nbd "/dev/nbd0" ∈ hostCustody.held (eventsOf false meanwhile) ∧
      ∀ j ≠ false, HostResource.nbd "/dev/nbd0" ∉ hostCustody.held (eventsOf j meanwhile) := by
  obtain ⟨qs, h⟩ := interleaved_twoDisks
  obtain ⟨taken, hhost⟩ := grants_twoDisks
  obtain ⟨hheld, hothers⟩ := withDisk_apart tidy_twoBodies h hhost (List.mem_singleton_self _)
  exact ⟨hheld, hothers ⟨_, .inr rfl⟩⟩

end

end CryptPilot.Fde
