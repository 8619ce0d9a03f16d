import CryptPilot.Data.Words
import CryptPilot.Fde.BeforeSysroot

/-!
# The boot stage after the root file system is mounted

`cmd/boot_service/stage/after_sysroot.rs`. With the overlay backend, the delta volume is mounted and
an overlay is put over the root file system. Some directories can not be on an overlay: each of them
is a bind mount of a directory beside the layers of the overlay, the origin. The first boot copies to
it what the root file system has.

The stage has operations of its own, and is a program over them as the one before is.
-/

namespace CryptPilot.Fde

open CryptPilot.Data CryptPilot.Data.Prog CryptPilot.Data.Text CryptPilot.Core

/-! ## Operations -/

/-- What `mount` is called for. -/
inductive Mount where
  | device (device dir : Path)
  | bind (source dir : Path) (makePrivate : Bool)
  | tmpfs (dir : Path)
  | overlay (source lower upper work dir : Path)
  deriving DecidableEq

inductive MountOp where
  /-- reads `/etc/mtab` -/
  | readMtab
  | createDirAll (path : Path)
  | mount (mount : Mount)
  | pathExists (path : Path)
  | isDir (path : Path)
  /-- `cp -a` -/
  | copyAll (source dir : Path)
  | removeDirAll (path : Path)
  deriving DecidableEq

def MountOp.Res : MountOp → Type
  | .readMtab => Except String String
  | .pathExists _ | .isDir _ => Bool
  | .createDirAll _ | .mount _ | .copyAll .. | .removeDirAll _ => Except String Unit

abbrev MountCmd (α : Type) := Prog MountOp MountOp.Res α

/-- An operation that was called, with its answer. -/
abbrev MountCall := Event MountOp MountOp.Res

namespace MountCmd

def readMtab : MountCmd String := .step .readMtab .done

def createDirAll (path : Path) : MountCmd Unit := .step (.createDirAll path) .done

def mount (mount : Mount) : MountCmd Unit := .step (.mount mount) .done

def pathExists (path : Path) : MountCmd Bool := Prog.call (MountOp.pathExists path)

def isDir (path : Path) : MountCmd Bool := Prog.call (MountOp.isDir path)

def copyAll (source dir : Path) : MountCmd Unit := .step (.copyAll source dir) .done

def removeDirAll (path : Path) : MountCmd Unit := .step (.removeDirAll path) .done

end MountCmd

/-! ## Paths -/

/-- `Path::join` -/
def joinPath (base path : Path) : Path :=
  if path.toList.head? = some '/' then path
  else if base.toList = [] ∨ base.toList.getLast? = some '/' then base ++ path
  else base ++ "/" ++ path

def deltaVolumeDir : Path := "/delta_volume"

def sysrootBak : Path := "/sysroot_bak"

def ramOverlay : Path := "/ram_overlay"

/-- `overlay_dir`, if it is on disk. -/
def diskOverlay : Path := "/delta_volume/overlay"

/-- The directories that are bind mounts. -/
def specialDirs : List Path :=
  ["/var/lib/containerd/io.containerd.snapshotter.v1.overlayfs/snapshots/",
    "/var/lib/containers/",
    "/var/lib/docker/"]

/-- Where a special directory is mounted. -/
def bindTarget (dir : Path) : Path := joinPath "/sysroot/" ("./" ++ dir)

/-- What is mounted there. -/
def bindOrigin (overlayDir dir : Path) : Path :=
  joinPath (joinPath overlayDir "mount-binds") ("./" ++ dir)

/-- Where the content comes from: the lower layer of the overlay. -/
def copySource (dir : Path) : Path := joinPath sysrootBak ("./" ++ dir)

/-! ## The mount of the root file system -/

/-- Looks for the first line of `/etc/mtab` that is about `/sysroot`. -/
def checkMtabLines : List (List Char) → Except String Unit
  | [] => .error "Failed to find the device mounted at /sysroot"
  | line :: lines =>
    match line.splitOn ' ' with
    | device :: dir :: _ =>
      -- there can be more lines about it, but only the first one is looked at
      if dir = "/sysroot".toList then
        if device = rootfsDevice.toList then .ok ()
        else .error s!"Rootfs mounted at /sysroot is not expected and could be a security risk. Expected: {rootfsDevice}, got: {String.ofList device}"
      else checkMtabLines lines
    | _ => checkMtabLines lines

def checkMtab (mtab : String) : Except String Unit := checkMtabLines (lines mtab.toList)

def checkSysroot : MountCmd Unit := do
  let mtab ← MountCmd.readMtab
  Prog.ofExcept (checkMtab mtab)

/-! ## The bind mounts -/

section
variable (debug : String → String)

/-- Makes sure the target is ready. -/
def prepareTarget (target : Path) : MountCmd Unit := do
  if ← MountCmd.pathExists target then
    bailIf (!(← MountCmd.isDir target)) s!"The target {debug target} exists but not a dir"
  else
    context s!"Failed to create target dir {debug target}" (MountCmd.createDirAll target)

/-- Copies what there is to a new origin, and removes the origin if that fails. -/
def copyToOrigin (source origin : Path) : MountCmd Unit := do
  if ← MountCmd.pathExists source then
    match ← attempt (context s!"Failed to copy files from {debug source} to {debug origin}"
        (MountCmd.copyAll (joinPath source ".") origin)) with
    | .ok () => return ()
    | .error e => do
      -- if this fails too, the origin stays as it is
      let _ ← attempt (MountCmd.removeDirAll origin)
      fail e

/-- An origin that exists was set up by an earlier boot. -/
def prepareOrigin (source origin : Path) : MountCmd Unit := do
  if ← MountCmd.pathExists origin then
    bailIf (!(← MountCmd.isDir origin)) s!"The origin {debug origin} exists but not a dir"
  else
    context s!"Failed to create origin dir {debug origin}" (MountCmd.createDirAll origin)
    copyToOrigin debug source origin

def setupMountBind (overlayDir dir : Path) : MountCmd Unit := do
  prepareTarget debug (bindTarget dir)
  prepareOrigin debug (copySource dir) (bindOrigin overlayDir dir)
  context s!"Failed to setup mount bind on {debug (bindTarget dir)}"
    (MountCmd.mount (.bind (bindOrigin overlayDir dir) (bindTarget dir) false))

/-- The loop over the special directories. A failure is only logged. -/
def setupMountBinds (overlayDir : Path) : List Path → MountCmd Unit
  | [] => return ()
  | dir :: dirs => do
    let _ ← attempt (context s!"Failed to settiing up mount bind for {dir}"
      (setupMountBind debug overlayDir dir))
    setupMountBinds overlayDir dirs

/-! ## The stage -/

def mountDeltaVolume : MountCmd Unit :=
  context "Failed to mount delta volume on /delta_volume" do
    MountCmd.createDirAll deltaVolumeDir
    MountCmd.mount (.device deltaDevice deltaVolumeDir)

def backupSysroot : MountCmd Unit :=
  context s!"Failed to setup backup of /sysroot at {debug sysrootBak}" do
    MountCmd.createDirAll sysrootBak
    MountCmd.mount (.bind "/sysroot" sysrootBak true)

/-- The layers of the overlay, and the overlay. -/
def mountOverlay (upper work : Path) : MountCmd Unit := do
  MountCmd.createDirAll upper
  MountCmd.createDirAll work
  context "Failed to mount overlayfs"
    (MountCmd.mount (.overlay rootfsDevice "/sysroot" upper work "/sysroot"))

/-- Puts the overlay over `/sysroot`, and returns `overlay_dir`. -/
def setupOverlay : DeltaLocation → MountCmd Path
  | .ram => do
    context "Failed to setup overlayfs on /sysroot" do
      MountCmd.createDirAll ramOverlay
      context "Failed to create tmpfs for rootfs overlay" (MountCmd.mount (.tmpfs ramOverlay))
      mountOverlay "/ram_overlay/upper" "/ram_overlay/work"
    return ramOverlay
  | .disk | .diskPersist => do
    context "Failed to setup overlayfs on /sysroot"
      (mountOverlay "/delta_volume/overlay/upper" "/delta_volume/overlay/work")
    return diskOverlay

def setupOverlayfsMounts (config : FdeConfig) : MountCmd Unit := do
  mountDeltaVolume
  backupSysroot debug
  let overlayDir ← setupOverlay config.location
  setupMountBinds debug overlayDir specialDirs

/-- `setup_mounts_required_by_fde`, for the configuration that was found. -/
def setupMountsRequiredByFde (config : Except String (Option FdeConfig)) : MountCmd Unit := do
  match ← Prog.ofExcept config with
  | none => return ()
  | some config =>
    checkSysroot
    match config.backend with
    | .overlayfs => setupOverlayfsMounts debug config
    | .dmSnapshot => return ()

theorem setupMountsRequiredByFde_overlayfs {config : FdeConfig}
    (hbackend : config.backend = .overlayfs) :
    setupMountsRequiredByFde debug (.ok (some config)) = (do
      checkSysroot
      setupOverlayfsMounts debug config) := by
  show (checkSysroot >>= fun _ => match config.backend with
    | .overlayfs => setupOverlayfsMounts debug config
    | .dmSnapshot => pure ()) = _
  rw [hbackend]

theorem setupMountsRequiredByFde_dmSnapshot {config : FdeConfig}
    (hbackend : config.backend = .dmSnapshot) :
    setupMountsRequiredByFde debug (.ok (some config)) = checkSysroot >>= pure := by
  show (checkSysroot >>= fun _ => match config.backend with
    | .overlayfs => setupOverlayfsMounts debug config
    | .dmSnapshot => pure ()) = _
  rw [hbackend]

end

/-! ## What is called -/

section
variable {debug : String → String} {P : MountOp → Prop}

theorem calls_checkSysroot (h : P .readMtab) : checkSysroot.Calls P :=
  .bind ⟨h, fun _ => calls_done⟩ fun _ => calls_done

theorem calls_mountDeltaVolume (hcreate : P (.createDirAll deltaVolumeDir))
    (hmount : P (.mount (.device deltaDevice deltaVolumeDir))) : mountDeltaVolume.Calls P := by
  refine .context (.bind ⟨hcreate, fun _ => calls_done⟩ fun _ => ?_)
  exact ⟨hmount, fun _ => calls_done⟩

theorem calls_backupSysroot (hcreate : P (.createDirAll sysrootBak))
    (hmount : P (.mount (.bind "/sysroot" sysrootBak true))) : (backupSysroot debug).Calls P := by
  refine .context (.bind ⟨hcreate, fun _ => calls_done⟩ fun _ => ?_)
  exact ⟨hmount, fun _ => calls_done⟩

theorem calls_mountOverlay {upper work : Path} (hupper : P (.createDirAll upper))
    (hwork : P (.createDirAll work))
    (hmount : P (.mount (.overlay rootfsDevice "/sysroot" upper work "/sysroot"))) :
    (mountOverlay upper work).Calls P := by
  refine .bind ⟨hupper, fun _ => calls_done⟩ fun _ => ?_
  refine .bind ⟨hwork, fun _ => calls_done⟩ fun _ => ?_
  exact .context ⟨hmount, fun _ => calls_done⟩

end

/-! ## What is called for a special directory -/

/-- The operations that can be called for its origin have a property. -/
structure OriginOps (P : MountOp → Prop) (overlayDir dir : Path) : Prop where
  pathExists : ∀ path, P (.pathExists path)
  isDir : ∀ path, P (.isDir path)
  origin : P (.createDirAll (bindOrigin overlayDir dir))
  copy : P (.copyAll (joinPath (copySource dir) ".") (bindOrigin overlayDir dir))
  remove : P (.removeDirAll (bindOrigin overlayDir dir))

/-- All operations that can be called for it have a property. -/
structure BindOps (P : MountOp → Prop) (overlayDir dir : Path) : Prop
    extends OriginOps P overlayDir dir where
  target : P (.createDirAll (bindTarget dir))
  bind : P (.mount (.bind (bindOrigin overlayDir dir) (bindTarget dir) false))

section
variable {debug : String → String} {P : MountOp → Prop} {overlayDir dir : Path}

theorem calls_prepareTarget {target : Path} (hexists : ∀ path, P (.pathExists path))
    (hisDir : ∀ path, P (.isDir path)) (hcreate : P (.createDirAll target)) :
    (prepareTarget debug target).Calls P := by
  refine .bind ⟨hexists _, fun _ => calls_done⟩ fun present => ?_
  cases present with
  | true => exact .bind ⟨hisDir _, fun _ => calls_done⟩ fun _ => calls_bailIf
  | false => exact .context ⟨hcreate, fun _ => calls_done⟩

theorem calls_copyToOrigin (h : OriginOps P overlayDir dir) :
    (copyToOrigin debug (copySource dir) (bindOrigin overlayDir dir)).Calls P := by
  refine .bind ⟨h.pathExists _, fun _ => calls_done⟩ fun present => ?_
  cases present with
  | false => exact calls_done
  | true =>
    refine .bind (.attempt (.context ⟨h.copy, fun _ => calls_done⟩)) fun outcome => ?_
    cases outcome with
    | ok _ => exact calls_done
    | error e => exact .bind (.attempt ⟨h.remove, fun _ => calls_done⟩) fun _ => calls_done

theorem calls_prepareOrigin (h : OriginOps P overlayDir dir) :
    (prepareOrigin debug (copySource dir) (bindOrigin overlayDir dir)).Calls P := by
  refine .bind ⟨h.pathExists _, fun _ => calls_done⟩ fun present => ?_
  cases present with
  | true => exact .bind ⟨h.isDir _, fun _ => calls_done⟩ fun _ => calls_bailIf
  | false =>
    exact .bind (.context ⟨h.origin, fun _ => calls_done⟩) fun _ => calls_copyToOrigin h

theorem calls_setupMountBind (h : BindOps P overlayDir dir) :
    (setupMountBind debug overlayDir dir).Calls P := by
  refine .bind (calls_prepareTarget h.pathExists h.isDir h.target) fun _ => ?_
  refine .bind (calls_prepareOrigin h.toOriginOps) fun _ => ?_
  exact .context ⟨h.bind, fun _ => calls_done⟩

theorem calls_setupMountBinds {dirs : List Path} (h : ∀ dir ∈ dirs, BindOps P overlayDir dir) :
    (setupMountBinds debug overlayDir dirs).Calls P := by
  induction dirs with
  | nil => exact calls_done
  | cons dir dirs ih =>
    refine .bind (.attempt (.context (calls_setupMountBind (h dir List.mem_cons_self)))) fun _ => ?_
    exact ih fun dir hdir => h dir (List.mem_cons_of_mem _ hdir)

end

end CryptPilot.Fde
