import CryptPilot.Core.Operations
import CryptPilot.Data.Resource

/-!
# Temporary mounts and NBD devices

`fs/mount.rs`, `fs/nbd.rs` and `fs/kernel_module.rs`. A partition is mounted on a directory of its own, and a
disk image is connected to an NBD device, with a rule for udev as long as it is. All of them are
released when the value that owns them is dropped, and whatever goes wrong then is ignored.

A constructor that fails drops what it has got so far. The one exception is the file of the rule: if
it can not be written, it stays.

What is said of a value is what it owns, as `resources`: the constructor acquires that, and `drop`
releases it.
-/

namespace CryptPilot.Core

open CryptPilot.Data CryptPilot.Data.Prog

/-! ## Operations -/

inductive UdevCommand where
  | reloadRules
  | settle
  | trigger
  deriving DecidableEq

/-- What is called to get at the files of another system. -/
inductive HostOp where
  | exist (path : Path)
  /-- `File::open` and `is_block_device` -/
  | isBlockDevice (path : Path)
  /-- `File::open` and `get_block_device_size` -/
  | getBlockDeviceSize (path : Path)
  | which (program : String)
  | createDirAll (path : Path)
  /-- opens a file, which is created or made empty -/
  | openEmpty (path : Path)
  | writeAll (path : Path) (content : String)
  | removeFile (path : Path)
  /-- a new directory with a name of its own -/
  | tempdir (start : String)
  | removeDirAll (path : Path)
  | mount (readOnly : Bool) (dev dir : Path)
  | umount (dir : Path)
  | modprobe (name : String) (args : List String)
  | qemuNbdConnect (nbd image : Path)
  | qemuNbdDisconnect (nbd : Path)
  | udevadm (command : UdevCommand)
  /-- the names in `/sys/block/nbd{}/nbd{}p*/holders/*/dm/name` -/
  | holders (number : Nat)
  /-- removes a device of the device mapper -/
  | deviceRemove (name : String)
  /-- the names of a device and its partitions -/
  | lsblk (dev : Path)
  /-- the first `ext4` device with a token, as text -/
  | blkid (token : String) (dev : Path)
  /-- whether there is a file -/
  | glob (pattern : String)
  /-- the names one by one, up to the first that can not be read -/
  | readDir (dir : Path)
  | read (path : Path)
  | write (path : Path) (content : Bytes)
  /-- `lsinitrd --unpack` of what matches a pattern, in a directory -/
  | lsinitrd (initrd pattern dir : Path)
  deriving DecidableEq

def HostOp.Res : HostOp → Type
  | .exist _ | .which _ => Bool
  | .isBlockDevice _ | .glob _ => Except String Bool
  | .getBlockDeviceSize _ => Except String Nat
  | .tempdir _ => Except String Path
  | .holders _ | .lsblk _ => Except String (List String)
  | .blkid .. => Except String String
  | .readDir _ => Except String (List String × Option String)
  | .read _ => Except String Bytes
  | .createDirAll _ | .openEmpty _ | .writeAll .. | .removeFile _ | .removeDirAll _ | .mount ..
  | .umount _ | .modprobe .. | .qemuNbdConnect .. | .qemuNbdDisconnect _ | .udevadm _
  | .deviceRemove _ | .write .. | .lsinitrd .. => Except String Unit

abbrev HostCmd := Prog HostOp HostOp.Res

/-- An operation that was called, with its answer. -/
abbrev HostCall := Event HostOp HostOp.Res

namespace HostCmd

def exist (path : Path) : HostCmd Bool := Prog.call (HostOp.exist path)

def isBlockDevice (path : Path) : HostCmd Bool := .step (.isBlockDevice path) .done

def getBlockDeviceSize (path : Path) : HostCmd Nat := .step (.getBlockDeviceSize path) .done

def which (program : String) : HostCmd Bool := Prog.call (HostOp.which program)

def createDirAll (path : Path) : HostCmd Unit := .step (.createDirAll path) .done

def openEmpty (path : Path) : HostCmd Unit := .step (.openEmpty path) .done

def writeAll (path : Path) (content : String) : HostCmd Unit := .step (.writeAll path content) .done

def removeFile (path : Path) : HostCmd Unit := .step (.removeFile path) .done

def tempdir (start : String) : HostCmd Path := .step (.tempdir start) .done

def removeDirAll (path : Path) : HostCmd Unit := .step (.removeDirAll path) .done

def mount (readOnly : Bool) (dev dir : Path) : HostCmd Unit := .step (.mount readOnly dev dir) .done

def umount (dir : Path) : HostCmd Unit := .step (.umount dir) .done

def modprobe (name : String) (args : List String) : HostCmd Unit := .step (.modprobe name args) .done

def qemuNbdConnect (nbd image : Path) : HostCmd Unit := .step (.qemuNbdConnect nbd image) .done

def qemuNbdDisconnect (nbd : Path) : HostCmd Unit := .step (.qemuNbdDisconnect nbd) .done

def udevadm (command : UdevCommand) : HostCmd Unit := .step (.udevadm command) .done

def holders (number : Nat) : HostCmd (List String) := .step (.holders number) .done

def deviceRemove (name : String) : HostCmd Unit := .step (.deviceRemove name) .done

def lsblk (dev : Path) : HostCmd (List String) := .step (.lsblk dev) .done

def blkid (token : String) (dev : Path) : HostCmd String := .step (.blkid token dev) .done

def glob (pattern : String) : HostCmd Bool := .step (.glob pattern) .done

def readDir (dir : Path) : HostCmd (List String × Option String) := .step (.readDir dir) .done

def read (path : Path) : HostCmd Bytes := .step (.read path) .done

def write (path : Path) (content : Bytes) : HostCmd Unit := .step (.write path content) .done

def lsinitrd (initrd pattern dir : Path) : HostCmd Unit := .step (.lsinitrd initrd pattern dir) .done

end HostCmd

open HostCmd

/-! ## `mount.rs` -/

structure TmpMountPoint where
  mountDir : Path
  dev : Path
  deriving DecidableEq

namespace TmpMountPoint

def mount (debug : String → String) (dev : Path) (writable : Bool) : HostCmd TmpMountPoint := do
  let mountDir ← tempdir "cryptpilot-mount-"
  onError (context s!"Failed to mount {debug dev}" (HostCmd.mount (!writable) dev mountDir))
    (removeDirAll mountDir)
  return ⟨mountDir, dev⟩

/-- The mount is undone, and then the directory is dropped. -/
def drop (self : TmpMountPoint) : HostCmd Unit := do
  let _ ← attempt (umount self.mountDir)
  let _ ← attempt (removeDirAll self.mountDir)

end TmpMountPoint

/-! ## `kernel_module.rs` -/

def isModuleAvailable (name : String) : HostCmd Bool :=
  exist ("/sys/module/" ++ name.map fun c => if c = '-' then '_' else c)

def hasModprobe : HostCmd Bool := do
  if ← exist "/sbin/modprobe" then pure true else exist "/usr/sbin/modprobe"

def ensureModuleLoaded (name : String) (args : List String) : HostCmd Unit := do
  if ← isModuleAvailable name then pure ()
  else if ← hasModprobe then
    let _ ← attempt (modprobe name args)
    -- only for the log, whatever modprobe says
    let _ ← isModuleAvailable name
  else pure ()

/-! ## `nbd.rs` -/

/-- The path of the file, if there is `udevadm`. -/
structure UdevRule where
  rulePath : Option Path
  deriving DecidableEq

namespace UdevRule

def rulesDir : Path := "/run/udev/rules.d"

def ruleFile : Path := "/run/udev/rules.d/99-cryptpilot-ignore.rules"

def ruleText : String :=
  "\n# Device used by CryptPilot\nACTION==\"add|change\", KERNEL==\"nbd*\", OPTIONS:=\"nowatch\"\n        "

/-- The rules are reloaded. Where that fails, events that are still pending are waited for. -/
def reload : HostCmd Unit := do
  match ← attempt (udevadm .reloadRules) with
  | .error _ =>
    let _ ← attempt (udevadm .settle)
  | .ok _ =>
    let _ ← attempt (udevadm .trigger)

def installIgnoreNbdRule (debug : String → String) : HostCmd UdevRule := do
  if ← which "udevadm" then
    let found ← exist rulesDir
    doIf (!found) (context s!"Failed to create {debug rulesDir}" (createDirAll rulesDir))
    openEmpty ruleFile
    writeAll ruleFile ruleText
    reload
    return ⟨some ruleFile⟩
  else return ⟨none⟩

def drop (self : UdevRule) : HostCmd Unit :=
  match self.rulePath with
  | none => pure ()
  | some rulePath => do
    let _ ← attempt (removeFile rulePath)
    let _ ← attempt (udevadm .reloadRules)
    let _ ← attempt (udevadm .trigger)

end UdevRule

/-- `NbdDeviceNumber::to_path`. -/
def nbdPath (number : Nat) : Path := s!"/dev/nbd{number}"

structure NbdDevice where
  nbdDevNum : Nat
  udevRule : UdevRule
  deriving DecidableEq

namespace NbdDevice

def toPath (self : NbdDevice) : Path := nbdPath self.nbdDevNum

/-- The loop of `get_avaliable`. -/
def firstAvaliable : List Nat → HostCmd Nat
  | [] => fail "No available NBD device"
  | i :: rest => do
    if ← exist (nbdPath i) then
      match ← attempt (getBlockDeviceSize (nbdPath i)) with
      | .error _ => firstAvaliable rest
      | .ok size => if size = 0 then return i else firstAvaliable rest
    else firstAvaliable rest

def getAvaliable : HostCmd Nat := do
  let loaded ← exist (nbdPath 0)
  doIf (!loaded) (ensureModuleLoaded "nbd" ["max_part=8"])
  firstAvaliable (List.range 100)

def removeHolderDmDevices (number : Nat) : HostCmd Unit := do
  let names ← holders number
  forEach deviceRemove names

def connect (debug : String → String) (image : Path) : HostCmd NbdDevice := do
  let found ← exist image
  bailIf (!found) s!"Disk image {debug image} does not exist"
  let number ← getAvaliable
  let rule ← UdevRule.installIgnoreNbdRule debug
  onError
    (context s!"Failed to connect disk image {debug image} to NBD device {debug (nbdPath number)}"
      (qemuNbdConnect (nbdPath number) image))
    rule.drop
  let _ ← attempt (removeHolderDmDevices number)
  return ⟨number, rule⟩

/-- The device is disconnected, and then the rule is dropped. -/
def drop (self : NbdDevice) : HostCmd Unit := do
  let _ ← attempt (qemuNbdDisconnect self.toPath)
  let _ ← attempt (removeHolderDmDevices self.nbdDevNum)
  self.udevRule.drop

end NbdDevice

/-! ## What they own -/

/-- What is there until it is released. The file of a rule that could not be written is not a
rule. -/
inductive HostResource where
  | tempDir (path : Path)
  | mountPoint (dir : Path)
  | nbd (path : Path)
  | rule (path : Path)
  | brokenRule (path : Path)
  deriving DecidableEq

open HostResource

/-- A call that is to release something counts as the release, whether it succeeds or not. -/
def HostOp.use : (op : HostOp) → op.Res → Use HostResource
  | .tempdir _, r => match (r : Except String Path) with
    | .ok dir => .acquire (tempDir dir)
    | .error _ => .other
  | .removeDirAll dir, _ => .release (tempDir dir)
  | .mount _ _ dir, r => match (r : Except String Unit) with
    | .ok _ => .acquire (mountPoint dir)
    | .error _ => .other
  | .umount dir, _ => .release (mountPoint dir)
  | .qemuNbdConnect path _, r => match (r : Except String Unit) with
    | .ok _ => .acquire (nbd path)
    | .error _ => .other
  | .qemuNbdDisconnect path, _ => .release (nbd path)
  | .writeAll path _, r => match (r : Except String Unit) with
    | .ok _ => .acquire (rule path)
    | .error _ => .acquire (brokenRule path)
  | .removeFile path, _ => .release (rule path)
  | _, _ => .other

/-- Only a directory of its own is mounted on, or unpacked to. -/
def HostOp.needs : HostOp → List HostResource
  | .removeDirAll dir => [tempDir dir]
  | .mount _ _ dir => [tempDir dir]
  | .lsinitrd _ _ dir => [tempDir dir]
  | .umount dir => [mountPoint dir, tempDir dir]
  | .qemuNbdDisconnect path => [nbd path]
  | .removeFile path => [rule path]
  | _ => []

def hostCustody : Custody HostOp HostOp.Res HostResource where
  use := HostOp.use
  needs := HostOp.needs
  mem_needs {op r x} h := by
    cases op <;> simp only [HostOp.use, HostOp.needs] at h ⊢ <;> grind

section
variable {debug : String → String} {lost : Multiset HostResource → Prop}

theorem neutral_exist {path : Path} : (exist path).Calls hostCustody.Neutral :=
  ⟨⟨rfl, fun _ => rfl⟩, fun _ => calls_done⟩

theorem neutral_udevadm {command : UdevCommand} : (udevadm command).Calls hostCustody.Neutral :=
  ⟨⟨rfl, fun _ => rfl⟩, fun _ => calls_done⟩

theorem neutral_hasModprobe : hasModprobe.Calls hostCustody.Neutral := by
  refine .bind neutral_exist fun found => ?_
  cases found with
  | true => exact calls_done
  | false => exact neutral_exist

theorem neutral_ensureModuleLoaded {name : String} {args : List String} :
    (ensureModuleLoaded name args).Calls hostCustody.Neutral := by
  refine .bind neutral_exist fun available => ?_
  cases available with
  | true => exact calls_done
  | false =>
    refine .bind neutral_hasModprobe fun found => ?_
    cases found with
    | false => exact calls_done
    | true =>
      refine .bind (.attempt (p := modprobe name args) ⟨⟨rfl, fun _ => rfl⟩, fun _ => calls_done⟩)
        fun _ => ?_
      exact .bind neutral_exist fun _ => calls_done

theorem neutral_firstAvaliable {numbers : List Nat} :
    (NbdDevice.firstAvaliable numbers).Calls hostCustody.Neutral := by
  induction numbers with
  | nil => exact calls_done
  | cons i rest ih =>
    refine .bind neutral_exist fun found => ?_
    cases found with
    | false => exact ih
    | true =>
      refine .bind (.attempt (p := getBlockDeviceSize (nbdPath i))
        ⟨⟨rfl, fun _ => rfl⟩, fun _ => calls_done⟩) fun r => ?_
      cases r with
      | error e => exact ih
      | ok size =>
        show Calls _ (if size = 0 then _ else _)
        split_ifs
        · exact calls_done
        · exact ih

theorem neutral_getAvaliable : NbdDevice.getAvaliable.Calls hostCustody.Neutral :=
  .bind neutral_exist fun _ =>
    .bind (.doIf fun _ => neutral_ensureModuleLoaded) fun _ => neutral_firstAvaliable

theorem neutral_removeHolderDmDevices {number : Nat} :
    (NbdDevice.removeHolderDmDevices number).Calls hostCustody.Neutral := by
  refine .bind ⟨⟨rfl, fun _ => rfl⟩, fun _ => calls_done⟩ fun names => .forEach fun _ _ => ?_
  exact ⟨⟨rfl, fun _ => rfl⟩, fun _ => calls_done⟩

/-! ### What is only looked at -/

/-- Nothing is mounted to be written. -/
def HostOp.ReadOnly : HostOp → Prop
  | .mount readOnly _ _ => readOnly = true
  | _ => True

/-- Nothing is mounted to be written, and no device is disconnected. -/
def HostOp.Looks : HostOp → Prop
  | .mount readOnly _ _ => readOnly = true
  | .qemuNbdDisconnect _ => False
  | _ => True

theorem HostOp.Looks.of_neutral {op : HostOp} (h : hostCustody.Neutral op) : op.Looks := by
  obtain ⟨hneeds, -⟩ := h
  cases op with
  | mount => cases hneeds
  | qemuNbdDisconnect => cases hneeds
  | _ => trivial

theorem HostOp.Looks.readOnly {op : HostOp} (h : op.Looks) : op.ReadOnly := by
  cases op with
  | mount => exact h
  | _ => trivial

theorem looks_of_neutral {α : Type} {p : HostCmd α} (h : p.Calls hostCustody.Neutral) :
    p.Calls HostOp.Looks :=
  h.mono fun _ => .of_neutral

theorem looks_tmpMount {dev : Path} : (TmpMountPoint.mount debug dev false).Calls HostOp.Looks :=
  .bind ⟨trivial, fun _ => calls_done⟩ fun _ =>
    .bind (.onError (.context ⟨rfl, fun _ => calls_done⟩) ⟨trivial, fun _ => calls_done⟩)
      fun _ => calls_done

theorem looks_tmpMount_drop {mount : TmpMountPoint} : mount.drop.Calls HostOp.Looks :=
  .bind (.attempt (p := umount _) ⟨trivial, fun _ => calls_done⟩) fun _ =>
    .bind (.attempt (p := removeDirAll _) ⟨trivial, fun _ => calls_done⟩) fun _ => calls_done

theorem looks_udevadm {command : UdevCommand} :
    (attempt (udevadm command)).Calls HostOp.Looks :=
  looks_of_neutral neutral_udevadm.attempt

theorem looks_reload : UdevRule.reload.Calls HostOp.Looks := by
  refine .bind looks_udevadm fun r => ?_
  cases r with
  | error e => exact .bind looks_udevadm fun _ => calls_done
  | ok _ => exact .bind looks_udevadm fun _ => calls_done

theorem looks_installIgnoreNbdRule : (UdevRule.installIgnoreNbdRule debug).Calls HostOp.Looks := by
  refine .bind (p := which _) ⟨trivial, fun _ => calls_done⟩ fun found => ?_
  cases found with
  | false => exact calls_done
  | true =>
    have hcreate : (createDirAll UdevRule.rulesDir).Calls HostOp.Looks :=
      ⟨trivial, fun _ => calls_done⟩
    refine .bind (looks_of_neutral neutral_exist) fun _ => .bind (.doIf fun _ => hcreate.context)
      fun _ => .bind (p := openEmpty _) ⟨trivial, fun _ => calls_done⟩ fun _ => ?_
    exact .bind (p := writeAll _ _) ⟨trivial, fun _ => calls_done⟩ fun _ =>
      .bind looks_reload fun _ => calls_done

theorem looks_udevRule_drop {self : UdevRule} : self.drop.Calls HostOp.Looks := by
  obtain ⟨_ | path⟩ := self
  · exact calls_done
  · exact .bind (.attempt (p := removeFile _) ⟨trivial, fun _ => calls_done⟩) fun _ =>
      .bind looks_udevadm fun _ => .bind looks_udevadm fun _ => calls_done

theorem looks_connect {image : Path} : (NbdDevice.connect debug image).Calls HostOp.Looks := by
  refine .bind (looks_of_neutral neutral_exist) fun _ => .bind calls_bailIf fun _ =>
    .bind (looks_of_neutral neutral_getAvaliable) fun number =>
    .bind looks_installIgnoreNbdRule fun rule => ?_
  refine .bind (.onError (.context (p := qemuNbdConnect _ _) ⟨trivial, fun _ => calls_done⟩)
    looks_udevRule_drop) fun _ => ?_
  exact .bind (looks_of_neutral neutral_removeHolderDmDevices).attempt fun _ => calls_done

/-- The device is disconnected first. -/
theorem nbd_drop_eq (self : NbdDevice) : ∃ next,
    self.drop = .step (.qemuNbdDisconnect self.toPath) next ∧ ∀ r, (next r).Calls HostOp.Looks :=
  ⟨_, rfl, fun _ => .bind calls_done fun _ =>
    .bind (looks_of_neutral neutral_removeHolderDmDevices).attempt fun _ => looks_udevRule_drop⟩

/-! ### Mounts -/

def TmpMountPoint.resources (self : TmpMountPoint) : Multiset HostResource :=
  {mountPoint self.mountDir} + {tempDir self.mountDir}

theorem linear_removeDirAll {dir : Path} :
    Linear hostCustody (· = 0) {tempDir dir} (fun _ => 0) (removeDirAll dir) := by
  have hafter : ({tempDir dir} : Multiset HostResource).erase (tempDir dir) = 0 :=
    Multiset.erase_singleton _
  refine .step ?_ fun r => linear_done (fun _ _ => hafter) fun _ _ => hafter
  intro x hx
  rw [List.mem_singleton.mp hx, Multiset.mem_singleton]

theorem linear_tempdir (hlost : lost 0) {start : String} :
    Linear hostCustody lost 0 (fun dir => {tempDir dir}) (tempdir start) := by
  refine .step (fun x hx => by cases hx) fun r => ?_
  change Except String Path at r
  cases r with
  | ok dir => exact linear_done (fun _ h => by cases h; rfl) fun _ h => by cases h
  | error e => exact linear_done (fun _ h => by cases h) fun _ _ => hlost

theorem linear_tmpMount (hlost : lost 0) {dev : Path} {writable : Bool} :
    Linear hostCustody lost 0 TmpMountPoint.resources (TmpMountPoint.mount debug dev writable) := by
  refine .bind (linear_tempdir hlost) fun dir => ?_
  refine .bind (M := fun _ => {mountPoint dir} + {tempDir dir}) ?_ fun _ => linear_pure rfl
  refine .onError (.context (.step ?_ fun r => ?_)) linear_removeDirAll
  · intro x hx
    rw [List.mem_singleton.mp hx, Multiset.mem_singleton]
  · change Except String Unit at r
    cases r with
    | ok _ => exact linear_done (fun _ _ => rfl) fun _ h => by cases h
    | error e =>
      exact linear_done (fun _ h => by cases h) fun _ _ => ⟨0, hlost, (zero_add _).symm⟩

theorem linear_tmpMount_drop {mount : TmpMountPoint} :
    Linear hostCustody lost mount.resources (fun _ => 0) mount.drop := by
  have hafter : mount.resources.erase (mountPoint mount.mountDir) = {tempDir mount.mountDir} := by
    rw [TmpMountPoint.resources, Multiset.singleton_add, Multiset.erase_cons_head]
  refine .bind (M := fun _ => {tempDir mount.mountDir}) (.ignore (.step ?_ fun r => ?_)) fun _ =>
    .bind linear_removeDirAll.ignore fun _ => linear_pure rfl
  · intro x hx
    rcases List.mem_pair.mp hx with rfl | rfl
    all_goals simp [TmpMountPoint.resources]
  · exact linear_done (fun _ _ => hafter) fun _ _ => hafter

/-! ### NBD devices -/

def UdevRule.resources (self : UdevRule) : Multiset HostResource :=
  match self.rulePath with
  | none => 0
  | some path => {rule path}

def NbdDevice.resources (self : NbdDevice) : Multiset HostResource :=
  {nbd self.toPath} + self.udevRule.resources

/-- Nothing, or the file of a rule that could not be written. -/
def LeftBehind (left : Multiset HostResource) : Prop :=
  left = 0 ∨ left = {brokenRule UdevRule.ruleFile}

theorem linear_udevadm {command : UdevCommand} {own : Multiset HostResource} :
    Linear hostCustody lost own (fun _ => own) (attempt (udevadm command)) :=
  .ignore (.of_neutral neutral_udevadm rfl)

theorem linear_reload {own : Multiset HostResource} :
    Linear hostCustody lost own (fun _ => own) UdevRule.reload := by
  refine .bind linear_udevadm fun r => ?_
  cases r with
  | error e => exact .bind linear_udevadm fun _ => linear_pure rfl
  | ok _ => exact .bind linear_udevadm fun _ => linear_pure rfl

theorem linear_writeRule : Linear hostCustody LeftBehind 0 (fun _ => {rule UdevRule.ruleFile})
    (writeAll UdevRule.ruleFile UdevRule.ruleText) := by
  refine .step (fun x hx => by cases hx) fun r => ?_
  change Except String Unit at r
  cases r with
  | ok _ => exact linear_done (fun _ _ => rfl) fun _ h => by cases h
  | error e => exact linear_done (fun _ h => by cases h) fun _ _ => .inr rfl

theorem linear_installIgnoreNbdRule :
    Linear hostCustody LeftBehind 0 UdevRule.resources (UdevRule.installIgnoreNbdRule debug) := by
  have hcreate : (createDirAll UdevRule.rulesDir).Calls hostCustody.Neutral :=
    ⟨⟨rfl, fun _ => rfl⟩, fun _ => calls_done⟩
  have hopen : (openEmpty UdevRule.ruleFile).Calls hostCustody.Neutral :=
    ⟨⟨rfl, fun _ => rfl⟩, fun _ => calls_done⟩
  have hwhich : (which "udevadm").Calls hostCustody.Neutral :=
    ⟨⟨rfl, fun _ => rfl⟩, fun _ => calls_done⟩
  refine .bind (.of_neutral hwhich (.inl rfl)) fun found => ?_
  cases found with
  | false => exact linear_pure rfl
  | true =>
    refine .bind (.of_neutral neutral_exist (.inl rfl)) fun dir =>
      .bind (.of_neutral (.doIf fun _ => hcreate.context) (.inl rfl)) fun _ =>
      .bind (.of_neutral hopen (.inl rfl)) fun _ => ?_
    exact .bind linear_writeRule fun _ => .bind linear_reload fun _ => linear_pure rfl

theorem linear_udevRule_drop {self : UdevRule} :
    Linear hostCustody lost self.resources (fun _ => 0) self.drop := by
  obtain ⟨_ | path⟩ := self
  · exact linear_pure rfl
  · have hafter : ({rule path} : Multiset HostResource).erase (rule path) = 0 :=
      Multiset.erase_singleton _
    refine .bind (M := fun _ => 0) (.ignore (.step ?_ fun r => ?_)) fun _ =>
      .bind linear_udevadm fun _ => .bind linear_udevadm fun _ => linear_pure rfl
    · intro x hx
      rw [List.mem_singleton.mp hx]
      exact Multiset.mem_singleton_self _
    · exact linear_done (fun _ _ => hafter) fun _ _ => hafter

theorem linear_qemuNbdConnect {rule : UdevRule} {path image : Path} :
    Linear hostCustody (Custody.Beside rule.resources LeftBehind) rule.resources
      (fun _ => {nbd path} + rule.resources) (qemuNbdConnect path image) := by
  refine .step (fun x hx => by cases hx) fun r => ?_
  change Except String Unit at r
  cases r with
  | ok _ => exact linear_done (fun _ _ => rfl) fun _ h => by cases h
  | error e =>
    exact linear_done (fun _ h => by cases h) fun _ _ => ⟨0, .inl rfl, (zero_add _).symm⟩

theorem linear_connect {image : Path} :
    Linear hostCustody LeftBehind 0 NbdDevice.resources (NbdDevice.connect debug image) := by
  refine .bind (.of_neutral neutral_exist (.inl rfl)) fun found =>
    .bind (.of_neutral calls_bailIf (.inl rfl)) fun _ =>
    .bind (.of_neutral neutral_getAvaliable (.inl rfl)) fun number =>
    .bind linear_installIgnoreNbdRule fun rule => ?_
  refine .bind (.onError (.context linear_qemuNbdConnect) linear_udevRule_drop) fun _ => ?_
  exact .bind (.ignore (.of_neutral neutral_removeHolderDmDevices rfl)) fun _ => linear_pure rfl

theorem linear_nbd_drop {self : NbdDevice} :
    Linear hostCustody lost self.resources (fun _ => 0) self.drop := by
  have hafter : self.resources.erase (nbd self.toPath) = self.udevRule.resources := by
    rw [NbdDevice.resources, Multiset.singleton_add, Multiset.erase_cons_head]
  refine .bind (M := fun _ => self.udevRule.resources) (.ignore (.step ?_ fun r => ?_)) fun _ =>
    .bind (.ignore (.of_neutral neutral_removeHolderDmDevices rfl)) fun _ => linear_udevRule_drop
  · intro x hx
    rw [List.mem_singleton.mp hx]
    simp [NbdDevice.resources]
  · exact linear_done (fun _ _ => hafter) fun _ _ => hafter

end

end CryptPilot.Core
