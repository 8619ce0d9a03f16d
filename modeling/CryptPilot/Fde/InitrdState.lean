import CryptPilot.Core.ProviderConfig
import CryptPilot.Fde.BeforeSysroot

/-!
# The configuration that one boot stage leaves for the next

`config/mod.rs`, `config/fde.rs`, `config/global.rs` and `cmd/boot_service/initrd_state.rs`. The first
stage takes the configuration from where the user put it, measures it, and saves it; whatever runs
later loads it from there.

`InitrdState.load_save_iff` says which configurations are loaded as they were saved: those that do not
get a passphrase from a KMS.
-/

namespace CryptPilot.Fde

open CryptPilot.Data CryptPilot.Data.Toml CryptPilot.Core

/-! ## `config/fde.rs` -/

namespace DeltaLocation

def serialize : DeltaLocation → Value
  | .disk => .string "disk"
  | .diskPersist => .string "disk-persist"
  | .ram => .string "ram"

def deserialize (v : Value) : Except DeError DeltaLocation := do
  let name ← deString v
  if name = "disk" then return .disk
  else if name = "disk-persist" then return .diskPersist
  else if name = "ram" then return .ram
  else throw (.unknownVariant name)

end DeltaLocation

namespace DeltaBackend

def serialize : DeltaBackend → Value
  | .overlayfs => .string "overlayfs"
  | .dmSnapshot => .string "dm-snapshot"

def deserialize (v : Value) : Except DeError DeltaBackend := do
  let name ← deString v
  if name = "overlayfs" then return .overlayfs
  else if name = "dm-snapshot" then return .dmSnapshot
  else throw (.unknownVariant name)

end DeltaBackend

namespace RootFsConfig

def serialize (self : RootFsConfig) : Table :=
  optionalEntry "delta_location" (self.deltaLocation.map DeltaLocation.serialize) ++
    optionalEntry "delta_backend" (self.deltaBackend.map DeltaBackend.serialize) ++
    optionalEntry "encrypt" (self.encrypt.map fun encrypt => .table encrypt.serialize)

def deserialize (t : Table) : Except DeError RootFsConfig := do
  (t.rest ["delta_location", "rw_overlay", "delta_backend", "encrypt"]).denyUnknown
  let deltaLocation ← t.optional ["delta_location", "rw_overlay"] DeltaLocation.deserialize
  let deltaBackend ← t.optional ["delta_backend"] DeltaBackend.deserialize
  let encrypt ← t.optional ["encrypt"] (deTable EncryptConfig.deserialize)
  return ⟨deltaLocation, deltaBackend, encrypt⟩

end RootFsConfig

namespace DeltaConfig

def serialize (self : DeltaConfig) : Table :=
  [("integrity", .boolean self.integrity), ("encrypt", .table self.encrypt.serialize)]

def deserialize (t : Table) : Except DeError DeltaConfig := do
  (t.rest ["integrity", "encrypt"]).denyUnknown
  let integrity ← t.withDefault ["integrity"] false deBool
  let encrypt ← t.required ["encrypt"] (deTable EncryptConfig.deserialize)
  return ⟨integrity, encrypt⟩

end DeltaConfig

namespace FdeConfig

def serialize (self : FdeConfig) : Table :=
  [("rootfs", .table self.rootfs.serialize), ("delta", .table self.delta.serialize)]

def deserialize (t : Table) : Except DeError FdeConfig := do
  (t.rest ["rootfs", "delta", "data"]).denyUnknown
  let rootfs ← t.required ["rootfs"] (deTable RootFsConfig.deserialize)
  let delta ← t.required ["delta", "data"] (deTable DeltaConfig.deserialize)
  return ⟨rootfs, delta⟩

/-- Whether a passphrase comes from a KMS. -/
def usesKms (self : FdeConfig) : Bool :=
  self.rootfs.encrypt.any (·.keyProvider.isKms) || self.delta.encrypt.keyProvider.isKms

end FdeConfig

/-! ## `config/global.rs` -/

structure BootServiceConfig where
  verbose : Bool
  deriving DecidableEq

namespace BootServiceConfig

def serialize (self : BootServiceConfig) : Table := [("verbose", .boolean self.verbose)]

def deserialize (t : Table) : Except DeError BootServiceConfig := do
  (t.rest ["verbose"]).denyUnknown
  let verbose ← t.withDefault ["verbose"] false deBool
  return ⟨verbose⟩

end BootServiceConfig

structure GlobalConfig where
  boot : Option BootServiceConfig
  deriving DecidableEq

namespace GlobalConfig

def serialize (self : GlobalConfig) : Table :=
  optionalEntry "boot" (self.boot.map fun boot => .table boot.serialize)

def deserialize (t : Table) : Except DeError GlobalConfig := do
  (t.rest ["boot"]).denyUnknown
  let boot ← t.optional ["boot"] (deTable BootServiceConfig.deserialize)
  return ⟨boot⟩

end GlobalConfig

/-! ## `config/mod.rs` -/

structure FdeConfigBundle where
  global : Option GlobalConfig
  fde : Option FdeConfig
  deriving DecidableEq

namespace FdeConfigBundle

def serialize (self : FdeConfigBundle) : Table :=
  optionalEntry "global" (self.global.map fun global => .table global.serialize) ++
    optionalEntry "fde" (self.fde.map fun fde => .table fde.serialize)

def deserialize (t : Table) : Except DeError FdeConfigBundle := do
  (t.rest ["global", "fde"]).denyUnknown
  let global ← t.optional ["global"] (deTable GlobalConfig.deserialize)
  let fde ← t.optional ["fde"] (deTable FdeConfig.deserialize)
  return ⟨global, fde⟩

/-- What is measured. -/
def genHashContent {Text : Type} (toml : Format Text) (self : FdeConfigBundle) : Text :=
  toml.render self.serialize

def usesKms (self : FdeConfigBundle) : Bool := self.fde.any FdeConfig.usesKms

end FdeConfigBundle

/-! ## `cmd/boot_service/initrd_state.rs` -/

structure InitrdState where
  fdeConfigBundle : FdeConfigBundle
  deriving DecidableEq

namespace InitrdState

def serialize (self : InitrdState) : Table :=
  [("fde_config_bundle", .table self.fdeConfigBundle.serialize)]

def deserialize (t : Table) : Except DeError InitrdState := do
  (t.rest ["fde_config_bundle"]).denyUnknown
  let fdeConfigBundle ← t.required ["fde_config_bundle"] (deTable FdeConfigBundle.deserialize)
  return ⟨fdeConfigBundle⟩

section
variable {Text : Type} (toml : Format Text)

/-- What `save` writes to the file. -/
def save (self : InitrdState) : Text := toml.renderPretty self.serialize

/-- `load`, from what was read from the file. -/
def load (file : Except String Text) : Except String InitrdState :=
  Prog.addContext "Failed to read initrd state from /var/run/cryptpilot/initrd_state.toml" do
    let text ← file
    let t ← toml.parse text
    (deserialize t).mapError toml.display

end

end InitrdState

/-! ## What is read back -/

theorem DeltaLocation.deserialize_serialize (location : DeltaLocation) :
    DeltaLocation.deserialize location.serialize = .ok location := by
  cases location <;> rfl

theorem DeltaBackend.deserialize_serialize (backend : DeltaBackend) :
    DeltaBackend.deserialize backend.serialize = .ok backend := by
  cases backend <;> rfl

theorem RootFsConfig.deserialize_serialize (config : RootFsConfig) :
    RootFsConfig.deserialize config.serialize =
      if config.encrypt.any (·.keyProvider.isKms) then .error missingClientKey else .ok config := by
  have hdeny : (config.serialize.rest
      ["delta_location", "rw_overlay", "delta_backend", "encrypt"]).denyUnknown = .ok () := by
    simp [serialize, Table.denyUnknown]
  have hlocation : config.serialize.get ["delta_location", "rw_overlay"] =
      .ok (config.deltaLocation.map DeltaLocation.serialize) :=
    Table.get_of_only "delta_location" (by simp [serialize])
  have hbackend : config.serialize.get ["delta_backend"] =
      .ok (config.deltaBackend.map DeltaBackend.serialize) :=
    Table.get_of_only "delta_backend" (by simp [serialize])
  have hencrypt : config.serialize.get ["encrypt"] =
      .ok (config.encrypt.map fun encrypt => .table encrypt.serialize) :=
    Table.get_of_only "encrypt" (by simp [serialize])
  rw [RootFsConfig.deserialize, hdeny,
    Table.optional_of_forall hlocation DeltaLocation.deserialize_serialize,
    Table.optional_of_forall hbackend DeltaBackend.deserialize_serialize,
    Table.optional_of_map hencrypt EncryptConfig.deserialize_serialize]
  split_ifs <;> rfl

theorem DeltaConfig.deserialize_serialize (config : DeltaConfig) :
    DeltaConfig.deserialize config.serialize =
      if config.encrypt.keyProvider.isKms then .error missingClientKey else .ok config := by
  have hencrypt : config.serialize.required ["encrypt"] (deTable EncryptConfig.deserialize) = _ :=
    (Table.required_of_get (v := .table config.encrypt.serialize) rfl).trans
      config.encrypt.deserialize_serialize
  rw [DeltaConfig.deserialize, hencrypt]
  split_ifs <;> rfl

theorem FdeConfig.deserialize_serialize (config : FdeConfig) :
    FdeConfig.deserialize config.serialize =
      if config.usesKms then .error missingClientKey else .ok config := by
  have hrootfs : config.serialize.required ["rootfs"] (deTable RootFsConfig.deserialize) = _ :=
    (Table.required_of_get (v := .table config.rootfs.serialize) rfl).trans
      config.rootfs.deserialize_serialize
  have hdelta : config.serialize.required ["delta", "data"] (deTable DeltaConfig.deserialize) = _ :=
    (Table.required_of_get (v := .table config.delta.serialize) rfl).trans
      config.delta.deserialize_serialize
  rw [FdeConfig.deserialize, hrootfs, hdelta, usesKms]
  cases config.rootfs.encrypt.any (·.keyProvider.isKms) <;>
    cases config.delta.encrypt.keyProvider.isKms <;> rfl

theorem GlobalConfig.deserialize_serialize (config : GlobalConfig) :
    GlobalConfig.deserialize config.serialize = .ok config := by
  obtain ⟨_ | boot⟩ := config <;> rfl

/-- **A configuration is read back as it was**, unless it uses a KMS. -/
theorem FdeConfigBundle.deserialize_serialize (bundle : FdeConfigBundle) :
    FdeConfigBundle.deserialize bundle.serialize =
      if bundle.usesKms then .error missingClientKey else .ok bundle := by
  have hdeny : (bundle.serialize.rest ["global", "fde"]).denyUnknown = .ok () := by
    simp [serialize, Table.denyUnknown]
  have hglobal : bundle.serialize.get ["global"] =
      .ok (bundle.global.map fun global => .table global.serialize) :=
    Table.get_of_only "global" (by simp [serialize])
  have hfde : bundle.serialize.get ["fde"] =
      .ok (bundle.fde.map fun fde => .table fde.serialize) :=
    Table.get_of_only "fde" (by simp [serialize])
  rw [FdeConfigBundle.deserialize, hdeny,
    Table.optional_of_forall hglobal GlobalConfig.deserialize_serialize,
    Table.optional_of_map hfde FdeConfig.deserialize_serialize, usesKms]
  split_ifs <;> rfl

theorem InitrdState.deserialize_serialize (state : InitrdState) :
    InitrdState.deserialize state.serialize =
      if state.fdeConfigBundle.usesKms then .error missingClientKey else .ok state := by
  have hbundle : state.serialize.required ["fde_config_bundle"]
      (deTable FdeConfigBundle.deserialize) = _ :=
    (Table.required_of_get (v := .table state.fdeConfigBundle.serialize) rfl).trans
      state.fdeConfigBundle.deserialize_serialize
  rw [InitrdState.deserialize, hbundle]
  split_ifs <;> rfl

/-! ## What is written is a table -/

theorem RootFsConfig.wellFormed_serialize (config : RootFsConfig) :
    (Value.table config.serialize).WellFormed := by
  have hlocation (location : DeltaLocation) : location.serialize.WellFormed := by
    cases location <;> exact .string _
  have hbackend (backend : DeltaBackend) : backend.serialize.WellFormed := by
    cases backend <;> exact .string _
  rw [wellFormed_table]
  obtain ⟨_ | location, _ | backend, _ | encrypt⟩ := config <;>
    simp [serialize, optionalEntry, hlocation, hbackend, EncryptConfig.wellFormed_serialize]

theorem DeltaConfig.wellFormed_serialize (config : DeltaConfig) :
    (Value.table config.serialize).WellFormed := by
  rw [wellFormed_table]
  simp [serialize, EncryptConfig.wellFormed_serialize]

theorem FdeConfig.wellFormed_serialize (config : FdeConfig) :
    (Value.table config.serialize).WellFormed := by
  rw [wellFormed_table]
  simp [serialize, RootFsConfig.wellFormed_serialize, DeltaConfig.wellFormed_serialize]

theorem GlobalConfig.wellFormed_serialize (config : GlobalConfig) :
    (Value.table config.serialize).WellFormed := by
  obtain ⟨_ | boot⟩ := config <;>
    simp [serialize, optionalEntry, BootServiceConfig.serialize, wellFormed_table]

theorem InitrdState.wellFormed_serialize (state : InitrdState) :
    (Value.table state.serialize).WellFormed := by
  have hbundle : (Value.table state.fdeConfigBundle.serialize).WellFormed := by
    rw [wellFormed_table]
    obtain ⟨_ | global, _ | fde⟩ := state.fdeConfigBundle <;>
      simp [FdeConfigBundle.serialize, optionalEntry, GlobalConfig.wellFormed_serialize,
        FdeConfig.wellFormed_serialize]
  rw [wellFormed_table]
  simp [serialize, hbundle]

/-! ## Hand-over -/

/-- **What is saved is what is loaded**, exactly if no passphrase comes from a KMS. -/
theorem InitrdState.load_save_iff {Text : Type} (toml : Format Text) (bundle : FdeConfigBundle) :
    (∃ state, load toml (.ok (save toml ⟨bundle⟩)) = .ok state ∧ state.fdeConfigBundle = bundle ∧
        state.fdeConfigBundle.genHashContent toml = bundle.genHashContent toml) ↔
      bundle.usesKms = false := by
  have hload : load toml (.ok (save toml ⟨bundle⟩)) =
      Prog.addContext "Failed to read initrd state from /var/run/cryptpilot/initrd_state.toml"
        ((InitrdState.deserialize (serialize ⟨bundle⟩)).mapError toml.display) := by
    rw [load, save]
    show Prog.addContext _ (do
      let t ← toml.parse (toml.renderPretty (serialize ⟨bundle⟩))
      _) = _
    rw [toml.parse_renderPretty _ (wellFormed_serialize ⟨bundle⟩)]
    rfl
  rw [hload, deserialize_serialize]
  cases hkms : bundle.usesKms with
  | false => exact ⟨fun _ => rfl, fun _ => ⟨⟨bundle⟩, rfl, rfl, rfl⟩⟩
  | true =>
    constructor
    · rintro ⟨state, h, -⟩
      cases h
    · intro h
      cases h

/-- A KMS that the role of the machine gives access to, as a user writes it. -/
def kmsUserTable : Table :=
  [("fde", .table
    [("rootfs", .table []),
      ("delta", .table [("encrypt", .table [("kms", .table
        [("auth_mode", .string "ecs_ram_role"), ("kms_instance_id", .string "kst-1"),
          ("secret_name", .string "disk")])])])])]

/-- Tables as their own text. -/
def plainFormat : Format Table where
  render := id
  renderPretty := id
  parse := .ok
  display
    | .custom message => message
    | _ => "invalid configuration"
  parse_renderPretty _ _ := rfl

/-- It is read from what the user wrote, and saved, but what was saved cannot be loaded. -/
theorem InitrdState.load_save_kms :
    let bundle : FdeConfigBundle := ⟨none, some ⟨⟨none, none, none⟩,
      ⟨false, ⟨.kms ⟨"kst-1", "disk", .ecsRamRole none none⟩⟩⟩⟩⟩
    FdeConfigBundle.deserialize kmsUserTable = .ok bundle ∧
    load plainFormat (.ok (save plainFormat ⟨bundle⟩)) =
      .error ("Failed to read initrd state from /var/run/cryptpilot/initrd_state.toml: " ++
        "missing field `client_key`") := by
  decide +kernel

end CryptPilot.Fde
