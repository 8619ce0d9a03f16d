import CryptPilot.Fde.AfterSysroot
import CryptPilot.Fde.InitrdState

/-!
# The boot stages and their devices

The stage before the root file system is mounted sets up device-mapper devices, and the stage after
it mounts them. They are two runs, of two programs that read the same configuration, and all that one
leaves to the other are the names in `/dev/mapper`.

With the overlay backend the second stage mounts the delta volume, wherever the delta is; the first
one sets it up only if the delta is on disk. This is the one combination in which they do not agree
(`stages_agree_iff`), and then the second stage always fails (`not_done_of_missing`).
-/

namespace CryptPilot.Fde

open CryptPilot.Data CryptPilot.Data.Prog CryptPilot.Core

/-! ## Device nodes -/

/-- An operation creates the node of a device. -/
def Creates : (op : Op) → op.Res → Path → Prop
  | .act (.activateByPassphrase (some name) _ _ _), r, path
  | .act (.veritysetup _ _ name _), r, path
  | .act (.dmsetup name _), r, path => r = Except.ok () ∧ path = Disk.node name
  | .act (.lvcreate volume), r, path => r = Except.ok () ∧ path = volume
  | .zramHotAdd, r, path => ∃ id : UInt64, r = Except.ok id ∧ path = s!"/dev/zram{id}"
  | _, _, _ => False

/-- An operation removes the node of a device. -/
def Removes : (op : Op) → op.Res → Path → Prop
  | .act (.deactivate name), r, path => r = Except.ok () ∧ path = Disk.node name
  | _, _, _ => False

/-- The nodes of logical volumes that exist, when their group is activated. -/
def Activates : Op → Path → Prop
  | .act .vgchange, path => ∃ volume, path = Disk.node (volumeGroupName ++ "-" ++ volume)
  | _, _ => False

/-- What an operation does to the device nodes. -/
structure NodeStep (nodes : Set Path) (op : Op) (r : op.Res) (nodes' : Set Path) : Prop where
  created : ∀ path, Creates op r path → path ∈ nodes'
  kept : ∀ path ∈ nodes, ¬Removes op r path → path ∈ nodes'
  nothing_else : ∀ path ∈ nodes', path ∈ nodes ∨ Creates op r path ∨ Activates op path

/-- The node of a device was created by one of the calls. -/
def Made (device : Path) (calls : List Call) : Prop :=
  ∃ call ∈ calls, Creates call.op call.res device

/-- The devices that are given to `mount`. -/
def MountOp.devices : MountOp → List Path
  | .mount (.device device _) => [device]
  | .mount (.overlay source ..) => [source]
  | _ => []

/-- What the second stage finds: `/sysroot` is mounted from the right device, and a device without a
node can not be mounted. The source of an overlay is only a name. -/
def MountAnswers (nodes : Set Path) : (op : MountOp) → op.Res → Prop
  | .readMtab, r => ∃ mtab : String, r = Except.ok mtab ∧ checkMtab mtab = .ok ()
  | .mount (.device device _), r => r = Except.ok () → device ∈ nodes
  | _, _ => True

/-- After the calls of the first stage, each device that the second one mounts, in any of its runs,
was created by the first, and has a node. -/
def StagesAgree (debug : String → String) (config : Option FdeConfig) (calls : List Call)
    (nodes : Set Path) : Prop :=
  ∀ (calls' : List MountCall) (rest : MountCmd Unit),
    Path (setupMountsRequiredByFde debug (.ok config)) calls' rest →
    (∀ call ∈ calls', MountAnswers nodes call.op call.res) →
    ∀ call ∈ calls', ∀ device ∈ call.op.devices, Made device calls ∧ device ∈ nodes

/-! ## What the first stage keeps -/

/-- An operation removes no node. -/
def Lasting (op : Op) : Prop := ∀ r path, ¬Removes op r path

section
variable {debug : String → String} {config : FdeConfig} {device cowDevice : Path}
  {passphrase : Passphrase} {integrity : IntegrityType}

theorem Op.Inert.lasting {dev : Path} {op : Op} (h : op.Inert dev) : Lasting op := by
  intro r path hremoves
  unfold Removes at hremoves
  split at hremoves
  · exact h
  · exact hremoves

theorem lasting_of_inert {α : Type} {p : Cmd α} (hp : p.Calls (Op.Inert deltaLogicalVolume)) :
    p.Calls Lasting :=
  hp.mono fun _ => Op.Inert.lasting

theorem lasting_format : (format debug device passphrase integrity).Calls Lasting := by
  refine .context (.bind (calls_act fun _ _ => id) fun _ => ?_)
  exact .bind (calls_act fun _ _ => id) fun _ => calls_act fun _ _ => id

theorem lasting_openWithCheckPassphrase {volume : String} :
    (openWithCheckPassphrase debug volume device passphrase integrity).Calls Lasting := by
  refine .bind (lasting_of_inert (.context inert_checkPassphrase)) fun _ => .context ?_
  refine .bind (calls_act fun _ _ => id) fun _ => .bind (calls_act fun _ _ => id) fun _ => ?_
  exact calls_act fun _ _ => id

theorem lasting_ensureDeltaVolumeExistAndExpanded :
    ensureDeltaVolumeExistAndExpanded.Calls Lasting := by
  refine .bind (calls_pathExists fun _ _ => id) fun present => ?_
  cases present with
  | true => exact .bind (.attempt (calls_act fun _ _ => id)) fun _ => calls_done
  | false =>
    refine .context (.bind (calls_act fun _ _ => id) fun _ => ?_)
    exact .bind (calls_act fun _ _ => id) fun _ => calls_act fun _ _ => id

theorem lasting_setupDeltaVolumeLuks2 {config : DeltaConfig} {location : DeltaLocation} :
    (setupDeltaVolumeLuks2 debug config location).Calls Lasting := by
  refine .bind (.context (calls_getKey fun _ _ => id)) fun _ => ?_
  refine .bind (lasting_of_inert inert_recreatesDelta) fun _ => ?_
  refine .bind (.doIf fun _ => lasting_format) fun _ => ?_
  exact .bind lasting_openWithCheckPassphrase fun _ => calls_done

theorem lasting_prepareCowDevice {persistent : Bool} :
    (prepareCowDevice debug cowDevice persistent).Calls Lasting := by
  have hwipe : (wipeCowDeviceHeaderAsync cowDevice).Calls Lasting := by
    refine .bind (.context (calls_act fun _ _ => id)) fun _ => ?_
    exact .bind (calls_act fun _ _ => id) fun _ => calls_act fun _ _ => id
  cases persistent with
  | false => exact .context hwipe
  | true =>
    refine .bind (.context ⟨fun _ _ => id, fun _ => calls_done⟩) fun probe => ?_
    cases probe with
    | noSignatures => exact .context hwipe
    | knownSignature fsType ptType subsystem => dsimp only; split_ifs <;> exact calls_done

theorem lasting_setupDmSnapshotDeviceChain {persistent : Bool} :
    (setupDmSnapshotDeviceChain debug device cowDevice persistent).Calls Lasting := by
  refine .bind (lasting_of_inert inert_getDeviceSizeBytes) fun _ => ?_
  refine .bind (lasting_of_inert inert_getDeviceSizeBytes) fun _ => ?_
  refine .bind (.context (calls_act fun _ _ => id)) fun _ => ?_
  exact .bind lasting_prepareCowDevice fun _ => .context (calls_act fun _ _ => id)

theorem lasting_setupDeltaBackend {recreate : Bool} :
    (setupDeltaBackend debug config recreate integrity).Calls Lasting := by
  unfold setupDeltaBackend
  cases config.backend with
  | overlayfs =>
    cases recreate with
    | true => exact .context (calls_act fun _ _ => id)
    | false => exact lasting_of_inert inert_resizeExt4Filesystem
  | dmSnapshot =>
    refine .bind lasting_setupDmSnapshotDeviceChain fun _ => ?_
    exact lasting_of_inert inert_resizeExt4Filesystem

theorem lasting_markVolumeAsInitialized : (markVolumeAsInitialized debug device).Calls Lasting := by
  refine .context (.bind (calls_act fun _ _ => id) fun _ => ?_)
  exact .bind (calls_act fun _ _ => id) fun _ => calls_act fun _ _ => id

theorem lasting_setupDeltaOnDisk : (setupDeltaOnDisk debug config).Calls Lasting := by
  refine .bind (.attempt (calls_act fun _ _ => id)) fun _ => ?_
  refine .bind lasting_ensureDeltaVolumeExistAndExpanded fun _ => ?_
  refine .bind lasting_setupDeltaVolumeLuks2 fun _ => ?_
  exact .bind lasting_setupDeltaBackend fun _ => .doIf fun _ => lasting_markVolumeAsInitialized

theorem lasting_setupDeltaInRam : (setupDeltaInRam debug config).Calls Lasting := by
  unfold setupDeltaInRam
  cases config.backend with
  | overlayfs => exact calls_done
  | dmSnapshot =>
    refine .bind (lasting_of_inert inert_createZramCowDevice) fun _ => ?_
    refine .bind lasting_setupDmSnapshotDeviceChain fun _ => ?_
    exact lasting_of_inert inert_resizeExt4Filesystem

theorem lasting_setupVolumesRequiredByFde {config : Option FdeConfig} :
    (setupVolumesRequiredByFde debug (.ok config)).Calls Lasting := by
  cases config with
  | none => exact calls_done
  | some config =>
    rw [setupVolumesRequiredByFde_some]
    refine .bind (lasting_of_inert inert_setupRootfs) fun _ => ?_
    split_ifs
    · exact lasting_setupDeltaOnDisk
    · exact lasting_setupDeltaInRam

end

/-- A device that was created has a node if none is removed. -/
theorem Made.mem {device : Path} {calls : List Call} {nodes nodes' : Set Path}
    (hmade : Made device calls) (hlasting : ∀ call ∈ calls, Lasting call.op)
    (hsteps : Steps NodeStep nodes calls nodes') : device ∈ nodes' := by
  obtain ⟨call, hcall, hcreates⟩ := hmade
  obtain ⟨before, after, rfl⟩ := List.append_of_mem hcall
  obtain ⟨nodes₁, -, hsteps⟩ := steps_append.mp hsteps
  obtain ⟨nodes₂, hstep, hsteps⟩ := steps_cons.mp hsteps
  refine hsteps.invariant (I := (device ∈ ·)) (hstep.created device hcreates) ?_
  intro later hlater nodes nodes' hmem hstep
  exact hstep.kept device hmem (hlasting later (by simp [hlater]) later.res device)

/-! ## What the first stage creates -/

section
variable {debug : String → String} {config : FdeConfig} {device : Path} {past : List Call}

theorem Made.record {op : Op} {r : op.Res} {past' : List Call} (h : Made device past)
    (hstep : Prog.record past op r past') : Made device past' := by
  obtain ⟨call, hcall, hcreates⟩ := h
  rw [hstep]
  exact ⟨call, List.mem_append_left _ hcall, hcreates⟩

theorem made_of_creates {op : Op} {r : op.Res} {past' : List Call} (h : Creates op r device)
    (hstep : Prog.record past op r past') : Made device past' := by
  rw [hstep]
  exact ⟨⟨op, r⟩, List.mem_append_right _ List.mem_cons_self, h⟩

/-- What was created stays created. -/
theorem made_frame {α : Type} {p : Cmd α} (h : Made device past) :
    p.Ensures Prog.record (fun _ _ => True) (fun _ => Made device) past :=
  calls_true.ensures (fun _ _ _ _ _ h hstep => h.record hstep) (fun _ _ _ _ => trivial) h

/-- Something comes before. -/
theorem made_bind {α β : Type} {p : Cmd α} {f : α → Cmd β}
    (h : ∀ a past, (f a).Ensures Prog.record (fun _ _ => True) (fun _ => Made device) past) :
    (p >>= f).Ensures Prog.record (fun _ _ => True) (fun _ => Made device) past :=
  .bind (calls_true.ensures_true fun _ _ _ => trivial) fun a past' _ => h a past'

/-- Something comes after it. -/
theorem made_bind_frame {α β : Type} {p : Cmd α} {f : α → Cmd β}
    (h : p.Ensures Prog.record (fun _ _ => True) (fun _ => Made device) past) :
    (p >>= f).Ensures Prog.record (fun _ _ => True) (fun _ => Made device) past :=
  .bind h fun _ _ => made_frame

theorem made_act {action : Action} (h : Creates (.act action) (Except.ok ()) device) :
    (act action).Ensures Prog.record (fun _ _ => True) (fun _ => Made device) past :=
  ensures_act.mpr ⟨trivial, fun _ hstep => made_of_creates h hstep⟩

theorem made_openWithCheckPassphrase {volume : String} {dev : Path} {passphrase : Passphrase}
    {integrity : IntegrityType} :
    (openWithCheckPassphrase debug volume dev passphrase integrity).Ensures Prog.record
      (fun _ _ => True) (fun _ => Made (Disk.node volume)) past := by
  refine made_bind fun _ _ => .context (made_bind fun _ _ => made_bind fun _ _ => ?_)
  exact made_act ⟨rfl, rfl⟩

theorem made_setupRootfs (hbackend : config.backend = .overlayfs) :
    (setupRootfs debug config).Ensures Prog.record (fun _ _ => True) (fun _ => Made rootfsDevice)
      past := by
  -- dm-verity is set up last; with an overlay its output is the root file system
  refine made_bind fun _ _ => made_bind fun _ _ => made_bind fun _ _ => made_bind fun _ _ => ?_
  rw [hbackend]
  exact .context (made_act ⟨rfl, by decide⟩)

theorem made_setupDeltaOnDisk :
    (setupDeltaOnDisk debug config).Ensures Prog.record (fun _ _ => True) (fun _ => Made deltaDevice)
      past := by
  -- the volume is opened after its key was found and, if need be, its header was written
  refine made_bind fun _ _ => made_bind fun _ _ => made_bind_frame ?_
  refine made_bind fun _ _ => made_bind fun _ _ => made_bind fun _ _ => made_bind_frame ?_
  rw [show deltaDevice = Disk.node deltaName by decide]
  exact made_openWithCheckPassphrase

/-- With an overlay on disk, both devices are created. -/
theorem made_setupVolumesRequiredByFde {calls : List Call}
    (hbackend : config.backend = .overlayfs) (hlocation : config.location ≠ .ram)
    (hpath : Path (setupVolumesRequiredByFde debug (.ok (some config))) calls (.done (.ok ()))) :
    Made rootfsDevice calls ∧ Made deltaDevice calls := by
  have hdisk : config.location = .disk ∨ config.location = .diskPersist := by
    cases h : config.location with
    | ram => exact absurd h hlocation
    | disk => exact .inl rfl
    | diskPersist => exact .inr rfl
  have hrootfs : (setupVolumesRequiredByFde debug (.ok (some config))).Ensures Prog.record
      (fun _ _ => True) (fun _ => Made rootfsDevice) [] := by
    rw [setupVolumesRequiredByFde_some]
    exact made_bind_frame (made_setupRootfs hbackend)
  have hdelta : (setupVolumesRequiredByFde debug (.ok (some config))).Ensures Prog.record
      (fun _ _ => True) (fun _ => Made deltaDevice) [] := by
    rw [setupVolumesRequiredByFde_some]
    refine made_bind fun _ _ => ?_
    rw [if_pos hdisk]
    exact made_setupDeltaOnDisk
  exact ⟨(hrootfs.trace hpath).1 () rfl, (hdelta.trace hpath).1 () rfl⟩

/-- An operation does not create the delta volume. -/
def SparesDelta (op : Op) : Prop := ∀ r, ¬Creates op r deltaDevice

theorem sparesDelta_checkPassphrase {dev : Path} {passphrase : Passphrase} :
    (checkPassphrase debug dev passphrase).Calls SparesDelta := by
  refine .context (.bind (calls_act fun _ => id) fun _ => ?_)
  exact .bind (calls_act fun _ => id) fun _ => calls_act fun _ => id

theorem sparesDelta_setupRootfsCrypt : (setupRootfsCrypt debug config).Calls SparesDelta := by
  unfold setupRootfsCrypt
  cases config.rootfs.encrypt with
  | none => exact calls_done
  | some encrypt =>
    refine .bind calls_bailIf fun _ => .bind (.context (calls_getKey fun _ => id)) fun _ => ?_
    refine .bind (.context sparesDelta_checkPassphrase) fun _ => .context ?_
    refine .bind (calls_act fun _ => id) fun _ => .bind (calls_act fun _ => id) fun _ => ?_
    exact calls_act fun _ h => absurd h.2 (by decide)

theorem sparesDelta_setupRootfs (hbackend : config.backend = .overlayfs) :
    (setupRootfs debug config).Calls SparesDelta := by
  refine .bind (.context (calls_act fun _ => id)) fun _ => ?_
  refine .bind (.context ⟨fun _ => id, fun _ => calls_done⟩) fun _ => .bind calls_bailIf fun _ => ?_
  -- there is a node for the root file system, but it has another name
  refine .bind sparesDelta_setupRootfsCrypt fun _ => .context (calls_act fun _ h => ?_)
  rw [hbackend] at h
  exact absurd h.2 (by decide)

/-- With an overlay in memory, the delta volume is not created. -/
theorem not_made_deltaDevice {calls : List Call} {rest : Cmd Unit}
    (hbackend : config.backend = .overlayfs) (hlocation : config.location = .ram)
    (hpath : Path (setupVolumesRequiredByFde debug (.ok (some config))) calls rest) :
    ¬Made deltaDevice calls := by
  have hram : (setupDeltaInRam debug config).Calls SparesDelta := by
    rw [setupDeltaInRam, hbackend]
    exact calls_done
  have hall : (setupVolumesRequiredByFde debug (.ok (some config))).Calls SparesDelta := by
    rw [setupVolumesRequiredByFde_some]
    refine .bind (sparesDelta_setupRootfs hbackend) fun _ => ?_
    rw [if_neg (by simp [hlocation])]
    exact hram
  rintro ⟨call, hcall, hcreates⟩
  exact hall.path hpath call hcall call.res hcreates

end

/-! ## What the second stage mounts -/

section
variable {debug : String → String} {config : FdeConfig}

/-- One of the two devices. -/
def Known (op : MountOp) : Prop :=
  ∀ device ∈ op.devices, device = rootfsDevice ∨ device = deltaDevice

theorem known_of_devices {op : MountOp} (h : op.devices = []) : Known op := by
  intro device hdevice
  rw [h] at hdevice
  cases hdevice

theorem known_mountOverlay {upper work : Path} : (mountOverlay upper work).Calls Known := by
  refine calls_mountOverlay (known_of_devices rfl) (known_of_devices rfl) fun device hdevice => ?_
  exact .inl (List.mem_singleton.mp hdevice)

theorem known_setupOverlay {location : DeltaLocation} : (setupOverlay location).Calls Known := by
  cases location with
  | disk => exact .bind (.context known_mountOverlay) fun _ => calls_done
  | diskPersist => exact .bind (.context known_mountOverlay) fun _ => calls_done
  | ram =>
    refine .bind (.context ?_) fun _ => calls_done
    refine .bind ⟨known_of_devices rfl, fun _ => calls_done⟩ fun _ => ?_
    exact .bind (.context ⟨known_of_devices rfl, fun _ => calls_done⟩) fun _ => known_mountOverlay

theorem known_setupOverlayfsMounts : (setupOverlayfsMounts debug config).Calls Known := by
  refine .bind (calls_mountDeltaVolume (known_of_devices rfl) fun device hdevice => ?_) fun _ => ?_
  · exact .inr (List.mem_singleton.mp hdevice)
  refine .bind (calls_backupSysroot (known_of_devices rfl) (known_of_devices rfl)) fun _ => ?_
  refine .bind known_setupOverlay fun overlayDir => calls_setupMountBinds fun dir _ => ?_
  refine ⟨⟨?_, ?_, ?_, ?_, ?_⟩, ?_, ?_⟩ <;> intros <;> exact known_of_devices rfl

/-- If there is no node for the delta volume, no run of the second stage succeeds. -/
theorem not_done_of_missing {nodes : Set Path} {calls : List MountCall}
    (hbackend : config.backend = .overlayfs) (hmissing : deltaDevice ∉ nodes)
    (hpath : Path (setupMountsRequiredByFde debug (.ok (some config))) calls (.done (.ok ()))) :
    ¬∀ call ∈ calls, MountAnswers nodes call.op call.res := by
  intro hanswers
  have hmount : mountDeltaVolume.Ensures (fun (_ : Unit) op r _ => MountAnswers nodes op r)
      (fun _ _ => True) (fun _ _ => False) () := by
    refine .context (.bind (Q := fun _ _ => True) ⟨trivial, fun _ _ _ _ _ => trivial⟩ ?_)
    intro _ _ _
    exact ⟨trivial, fun r _ hr _ hok => hmissing (hr hok)⟩
  have hstage : (setupMountsRequiredByFde debug (.ok (some config))).Ensures
      (fun (_ : Unit) op r _ => MountAnswers nodes op r) (fun _ _ => True) (fun _ _ => False) () := by
    rw [setupMountsRequiredByFde_overlayfs debug hbackend]
    refine .bind (calls_true.ensures_true fun _ _ _ => trivial) fun _ _ _ => .bind hmount ?_
    exact fun _ _ => False.elim
  exact (hstage.path hpath (steps_answers hanswers)).1 () rfl

end

/-! ## Agreement -/

/-- A line of `/etc/mtab` for the right device. -/
def goodMtab : String := "/dev/mapper/rootfs /sysroot ext4 ro,relatime 0 0\n"

def noDevice : String := "special device /dev/mapper/delta does not exist"

/-- The calls up to the mount of the delta volume, which fails. -/
def missingCalls : List MountCall :=
  [⟨.readMtab, Except.ok goodMtab⟩, ⟨.createDirAll deltaVolumeDir, Except.ok ()⟩,
    ⟨.mount (.device deltaDevice deltaVolumeDir), Except.error noDevice⟩]

theorem answers_missingCalls (nodes : Set Path) :
    ∀ call ∈ missingCalls, MountAnswers nodes call.op call.res := by
  simp only [missingCalls, List.forall_mem_cons]
  refine ⟨⟨goodMtab, rfl, by decide +kernel⟩, trivial, ?_, nofun⟩
  rintro ⟨⟩

section
variable {debug : String → String} {config : FdeConfig}

theorem path_missingCalls (hbackend : config.backend = .overlayfs) :
    Path (setupMountsRequiredByFde debug (.ok (some config))) missingCalls
      (.done (.error ("Failed to mount delta volume on /delta_volume: " ++ noDevice))) := by
  have hcheck : Path checkSysroot [⟨.readMtab, Except.ok goodMtab⟩] (.done (.ok ())) :=
    path_of_replay (by decide +kernel)
  have hmount : Path mountDeltaVolume missingCalls.tail
      (.done (.error ("Failed to mount delta volume on /delta_volume: " ++ noDevice))) :=
    path_of_replay (by decide +kernel)
  rw [setupMountsRequiredByFde_overlayfs debug hbackend]
  exact hcheck.bind (hmount.andThen _)

/-- With an overlay in memory, the second stage does not find what it mounts. -/
theorem not_stagesAgree {calls : List Call} {rest : Cmd Unit} {nodes : Set Path}
    (hbackend : config.backend = .overlayfs) (hlocation : config.location = .ram)
    (hpath : Path (setupVolumesRequiredByFde debug (.ok (some config))) calls rest) :
    ¬StagesAgree debug (some config) calls nodes := by
  intro hagree
  have hmade := hagree missingCalls _ (path_missingCalls hbackend) (answers_missingCalls nodes)
    ⟨.mount (.device deltaDevice deltaVolumeDir), Except.error noDevice⟩ (by simp [missingCalls])
    deltaDevice List.mem_cons_self
  exact not_made_deltaDevice hbackend hlocation hpath hmade.1

theorem stagesAgree_of_overlayfs {calls : List Call} {nodes nodes' : Set Path}
    (hbackend : config.backend = .overlayfs) (hlocation : config.location ≠ .ram)
    (hpath : Path (setupVolumesRequiredByFde debug (.ok (some config))) calls (.done (.ok ())))
    (hsteps : Steps NodeStep nodes calls nodes') : StagesAgree debug (some config) calls nodes' := by
  intro calls' rest hpath' _ call hcall device hdevice
  have hknown : (setupMountsRequiredByFde debug (.ok (some config))).Calls Known := by
    rw [setupMountsRequiredByFde_overlayfs debug hbackend]
    exact .bind (calls_checkSysroot (known_of_devices rfl)) fun _ => known_setupOverlayfsMounts
  have hmade : Made device calls := by
    obtain ⟨hrootfs, hdelta⟩ := made_setupVolumesRequiredByFde hbackend hlocation hpath
    rcases hknown.path hpath' call hcall device hdevice with rfl | rfl
    · exact hrootfs
    · exact hdelta
  exact ⟨hmade, hmade.mem (lasting_setupVolumesRequiredByFde.path hpath) hsteps⟩

theorem stagesAgree_of_dmSnapshot {calls : List Call} {nodes : Set Path}
    (hbackend : config.backend = .dmSnapshot) : StagesAgree debug (some config) calls nodes := by
  intro calls' rest hpath' _ call hcall device hdevice
  have hnone : (setupMountsRequiredByFde debug (.ok (some config))).Calls fun op => op.devices = [] := by
    rw [setupMountsRequiredByFde_dmSnapshot debug hbackend]
    exact .bind (calls_checkSysroot rfl) fun _ => calls_done
  rw [hnone.path hpath' call hcall] at hdevice
  cases hdevice

end

/-- **When the stages agree.** After a first stage that succeeds, whatever nodes there were, each
device that the second stage mounts was created by the first and has a node, exactly if the
configuration does not put an overlay in memory. -/
theorem stages_agree_iff {debug : String → String} {config : Option FdeConfig} {calls : List Call}
    {nodes nodes' : Set Path}
    (hpath : Path (setupVolumesRequiredByFde debug (.ok config)) calls (.done (.ok ())))
    (hsteps : Steps NodeStep nodes calls nodes') :
    StagesAgree debug config calls nodes' ↔
      ¬∃ fde, config = some fde ∧ fde.backend = .overlayfs ∧ fde.location = .ram := by
  cases config with
  | none =>
    refine iff_of_true ?_ (by simp)
    intro calls' rest hpath' _ call hcall
    rcases hpath' with _ | _
    cases hcall
  | some config =>
    constructor
    · rintro hagree ⟨_, ⟨⟩, hbackend, hlocation⟩
      exact not_stagesAgree hbackend hlocation hpath hagree
    · intro h
      cases hbackend : config.backend with
      | dmSnapshot => exact stagesAgree_of_dmSnapshot hbackend
      | overlayfs =>
        have hlocation : config.location ≠ .ram := fun hram => h ⟨config, rfl, hbackend, hram⟩
        exact stagesAgree_of_overlayfs hbackend hlocation hpath hsteps

/-! ## An overlay in memory -/

/-- As it is read from a file. -/
def ramTable : Toml.Table :=
  [("rootfs", .table [("delta_location", .string "ram"), ("delta_backend", .string "overlayfs")]),
    ("delta", .table [("encrypt", .table [("otp", .table [])])])]

def ramConfig : FdeConfig := ⟨⟨some .ram, some .overlayfs, none⟩, ⟨false, ⟨.otp⟩⟩⟩

def ramCalls : List Call :=
  [did .vgchange, ⟨.loadMetadata, Except.ok ⟨1, "f00d"⟩⟩,
    did (.veritysetup rootfsLogicalVolume rootfsHashLogicalVolume rootfsName "f00d")]

theorem path_ramCalls :
    Path (setupVolumesRequiredByFde id (.ok (some ramConfig))) ramCalls (.done (.ok ())) :=
  path_of_replay (by decide +kernel)

theorem steps_ramCalls : Steps NodeStep ∅ ramCalls {rootfsDevice} := by
  refine steps_cons.mpr ⟨∅, ⟨fun _ => id, fun _ h _ => h, fun _ => .inl⟩, ?_⟩
  refine steps_cons.mpr ⟨∅, ⟨fun _ => id, fun _ h _ => h, fun _ => .inl⟩, ?_⟩
  refine .cons ⟨?_, fun _ h _ => absurd h (Set.notMem_empty _), ?_⟩ (.nil _)
  · rintro path ⟨-, rfl⟩
    decide
  · rintro path rfl
    exact .inr (.inl ⟨rfl, by decide⟩)

theorem stages_agree_iff_ram :
    StagesAgree id (some ramConfig) ramCalls {rootfsDevice} ↔
      ¬∃ fde, some ramConfig = some fde ∧ fde.backend = .overlayfs ∧ fde.location = .ram :=
  stages_agree_iff path_ramCalls steps_ramCalls

/-- The configuration is accepted, and the first stage succeeds, but there is no run in which the
second one does, and one that fails for the missing device. -/
theorem stages_disagree :
    FdeConfig.deserialize ramTable = .ok ramConfig ∧
      Path (setupVolumesRequiredByFde id (.ok (some ramConfig))) ramCalls (.done (.ok ())) ∧
      Steps NodeStep ∅ ramCalls {rootfsDevice} ∧
      (¬∃ calls', Path (setupMountsRequiredByFde id (.ok (some ramConfig))) calls' (.done (.ok ())) ∧
        ∀ call ∈ calls', MountAnswers {rootfsDevice} call.op call.res) ∧
      (∀ call ∈ missingCalls, MountAnswers {rootfsDevice} call.op call.res) ∧
      Path (setupMountsRequiredByFde id (.ok (some ramConfig))) missingCalls
        (.done (.error ("Failed to mount delta volume on /delta_volume: " ++ noDevice))) := by
  refine ⟨by decide +kernel, path_ramCalls, steps_ramCalls, ?_, answers_missingCalls _,
    path_missingCalls rfl⟩
  rintro ⟨calls', hpath, hanswers⟩
  exact not_done_of_missing rfl (by decide) hpath hanswers

end CryptPilot.Fde
