import CryptPilot.Core.Operations
import CryptPilot.Data.Toml

/-!
# Configuration of key providers in TOML

`config/encrypt.rs` and the records of `provider/*.rs`. Writing is derived from the types. Reading is
derived too, but for two records: the ways to get at a KMS and at a confidential-data-hub are read by
functions of their own, from a flattened and backward-compatible layout.

For the confidential-data-hub this layout is the one that is written, and every provider but one is
read back as it was (`KeyProviderConfig.deserialize_serialize`). For a KMS it is not: what is written
under the name of the variant is looked for in the table around it.
-/

namespace CryptPilot.Core

open CryptPilot.Data CryptPilot.Data.Toml

/-! ## `provider/oidc.rs` -/

namespace AliyunKmsConfig

def serialize (self : AliyunKmsConfig) : Table :=
  [("oidc_provider_arn", .string self.oidcProviderArn), ("role_arn", .string self.roleArn),
    ("region_id", .string self.regionId)]

/-- Other entries are ignored. -/
def deserialize (t : Table) : Except DeError AliyunKmsConfig := do
  let oidcProviderArn ← t.required ["oidc_provider_arn"] deString
  let roleArn ← t.required ["role_arn"] deString
  let regionId ← t.required ["region_id"] deString
  return ⟨oidcProviderArn, roleArn, regionId⟩

end AliyunKmsConfig

namespace Kms

/-- The variant is an entry next to its fields. -/
def serialize : Kms → Table
  | .aliyun config => ("type", .string "aliyun") :: config.serialize

def deserialize (t : Table) : Except DeError Kms := do
  let tag ← t.required ["type"] deString
  if tag = "aliyun" then
    let config ← AliyunKmsConfig.deserialize (t.rest ["type"])
    return .aliyun config
  else throw (.unknownVariant tag)

end Kms

namespace OidcConfig

def serialize (self : OidcConfig) : Table :=
  [("command", .string self.command), ("args", strings self.args),
    ("key_id", .string self.keyId), ("kms", .table self.kms.serialize)]

def deserialize (t : Table) : Except DeError OidcConfig := do
  (t.rest ["command", "args", "key_id", "kms"]).denyUnknown
  let command ← t.required ["command"] deString
  let args ← t.required ["args"] (deArray deString)
  let keyId ← t.required ["key_id"] deString
  let kms ← t.required ["kms"] (deTable Kms.deserialize)
  return ⟨command, args, keyId, kms⟩

end OidcConfig

/-! ## `provider/exec.rs` -/

namespace ExecConfig

def serialize (self : ExecConfig) : Table :=
  [("command", .string self.command), ("args", strings self.args)]

def deserialize (t : Table) : Except DeError ExecConfig := do
  (t.rest ["command", "args"]).denyUnknown
  let command ← t.required ["command"] deString
  let args ← t.withDefault ["args"] [] (deArray deString)
  return ⟨command, args⟩

end ExecConfig

/-! ## `provider/kms.rs` -/

namespace AuthMode

/-- A table under the name of the variant. -/
def serialize : AuthMode → Table
  | .clientKey key password certPem =>
    [("ClientKey", .table [("client_key", .string key), ("client_key_password", .string password),
      ("kms_cert_pem", .string certPem)])]
  | .ecsRamRole ecsRamRoleName regionId =>
    [("EcsRamRole", .table (optionalEntry "ecs_ram_role_name" (ecsRamRoleName.map .string) ++
      optionalEntry "region_id" (regionId.map .string)))]

/-- `AuthModeDeHelper` -/
def helperFields : List String :=
  ["auth_mode", "client_key", "client_key_password", "kms_cert_pem", "ecs_ram_role_name",
    "region_id"]

/-- `ok_or_else` with the message for a field that is missing. -/
def orMissing (name : String) : Option String → Except DeError String
  | some text => .ok text
  | none => .error (.custom s!"missing field `{name}`")

/-- `deserialize_auth_mode`. The variant and its fields are entries of the table. -/
def deserialize (t : Table) : Except DeError AuthMode := do
  let authMode ← t.optional ["auth_mode"] deString
  let clientKey ← t.optional ["client_key"] deString
  let clientKeyPassword ← t.optional ["client_key_password"] deString
  let kmsCertPem ← t.optional ["kms_cert_pem"] deString
  let ecsRamRoleName ← t.optional ["ecs_ram_role_name"] deString
  let regionId ← t.optional ["region_id"] deString
  if authMode = some "ecs_ram_role" then return .ecsRamRole ecsRamRoleName regionId
  else
    -- any other mode, and none
    let clientKey ← orMissing "client_key" clientKey
    let clientKeyPassword ← orMissing "client_key_password" clientKeyPassword
    let kmsCertPem ← orMissing "kms_cert_pem" kmsCertPem
    return .clientKey clientKey clientKeyPassword kmsCertPem

end AuthMode

namespace KmsConfig

def serialize (self : KmsConfig) : Table :=
  [("kms_instance_id", .string self.kmsInstanceId), ("secret_name", .string self.secretName)] ++
    self.auth.serialize

def deserialize (t : Table) : Except DeError KmsConfig := do
  let kmsInstanceId ← t.required ["kms_instance_id"] deString
  let secretName ← t.required ["secret_name"] deString
  -- what is flattened takes its entries first, and what it leaves is unknown
  let collected := t.rest ["kms_instance_id", "secret_name"]
  let auth ← AuthMode.deserialize collected
  (collected.rest AuthMode.helperFields).denyUnknown
  return ⟨kmsInstanceId, secretName, auth⟩

end KmsConfig

/-! ## `provider/kbs/mod.rs` -/

def defaultCdhSocket : String := "unix:///run/confidential-containers/cdh.sock"

namespace CdhType

/-- The variant is an entry next to its fields. -/
def serialize : CdhType → Table
  | .oneShot kbsUrl kbsRootCert =>
    [("cdh_type", .string "one-shot"), ("kbs_url", .string kbsUrl)] ++
      optionalEntry "kbs_root_cert" (kbsRootCert.map .string)
  | .daemon cdhSocket => [("cdh_type", .string "daemon"), ("cdh_socket", .string cdhSocket)]

/-- `RawConfig` -/
def rawFields : List String := ["cdh_type", "kbs_url", "kbs_root_cert", "cdh_socket"]

/-- `deserialize_cdh_type` -/
def deserialize (t : Table) : Except DeError CdhType := do
  let cdhType ← t.optional ["cdh_type"] deString
  let kbsUrl ← t.optional ["kbs_url"] deString
  let kbsRootCert ← t.optional ["kbs_root_cert"] deString
  let cdhSocket ← t.optional ["cdh_socket"] deString
  let cdhType := cdhType.getD "one-shot"
  if cdhType = "one-shot" then
    match kbsUrl with
    | some kbsUrl => return .oneShot kbsUrl kbsRootCert
    | none => throw (.custom "kbs_url is required for one-shot mode")
  else if cdhType = "daemon" then return .daemon (cdhSocket.getD defaultCdhSocket)
  else throw (.custom s!"unknown cdh_type: {cdhType}")

end CdhType

namespace KbsConfig

def serialize (self : KbsConfig) : Table :=
  self.cdhType.serialize ++ [("key_uri", .string self.keyUri)]

def deserialize (t : Table) : Except DeError KbsConfig := do
  let keyUri ← t.required ["key_uri"] deString
  let collected := t.rest ["key_uri"]
  let cdhType ← CdhType.deserialize collected
  (collected.rest CdhType.rawFields).denyUnknown
  return ⟨cdhType, keyUri⟩

end KbsConfig

/-! ## `config/encrypt.rs` -/

namespace KeyProviderConfig

def serialize : KeyProviderConfig → Table
  | .otp => []
  | .kms config => config.serialize
  | .kbs config => config.serialize
  | .tpm2 => []
  | .oidc config => config.serialize
  | .exec config => config.serialize

def variants : List String := ["otp", "kms", "kbs", "tpm2", "oidc", "exec"]

def deserialize (variant : String) (t : Table) : Except DeError KeyProviderConfig :=
  if variant = "otp" then (fun _ => .otp) <$> t.denyUnknown
  else if variant = "kms" then .kms <$> KmsConfig.deserialize t
  else if variant = "kbs" then .kbs <$> KbsConfig.deserialize t
  else if variant = "tpm2" then (fun _ => .tpm2) <$> t.denyUnknown
  else if variant = "oidc" then .oidc <$> OidcConfig.deserialize t
  else if variant = "exec" then .exec <$> ExecConfig.deserialize t
  else .error (.unknownVariant variant)

def isKms : KeyProviderConfig → Bool
  | .kms _ => true
  | _ => false

end KeyProviderConfig

namespace EncryptConfig

/-- A table under the name of the provider. -/
def serialize (self : EncryptConfig) : Table :=
  [(self.keyProvider.variantName, .table self.keyProvider.serialize)]

/-- The first entry that names a provider, and no other one. -/
def deserialize (t : Table) : Except DeError EncryptConfig :=
  match t.find? (·.1 ∈ KeyProviderConfig.variants) with
  | none => .error (.custom "no variant of enum KeyProviderConfig found in flattened data")
  | some (variant, value) => do
    let keyProvider ← deTable (KeyProviderConfig.deserialize variant) value
    (t.rest [variant]).denyUnknown
    return ⟨keyProvider⟩

end EncryptConfig

/-! ## What is read back -/

theorem Kms.deserialize_serialize (kms : Kms) : Kms.deserialize kms.serialize = .ok kms := by
  cases kms
  rfl

theorem OidcConfig.deserialize_serialize (config : OidcConfig) :
    OidcConfig.deserialize config.serialize = .ok config := by
  have hargs : config.serialize.required ["args"] (deArray deString) = .ok config.args :=
    (Table.required_of_get rfl).trans (deArray_strings config.args)
  have hkms : config.serialize.required ["kms"] (deTable Kms.deserialize) = .ok config.kms :=
    (Table.required_of_get (v := .table config.kms.serialize) rfl).trans
      (Kms.deserialize_serialize config.kms)
  rw [OidcConfig.deserialize, hargs, hkms]
  rfl

theorem ExecConfig.deserialize_serialize (config : ExecConfig) :
    ExecConfig.deserialize config.serialize = .ok config := by
  have hargs : config.serialize.withDefault ["args"] [] (deArray deString) = .ok config.args :=
    (Table.withDefault_of_get rfl).trans (deArray_strings config.args)
  rw [ExecConfig.deserialize, hargs]
  rfl

theorem KbsConfig.deserialize_serialize (config : KbsConfig) :
    KbsConfig.deserialize config.serialize = .ok config := by
  obtain ⟨⟨kbsUrl, kbsRootCert⟩ | cdhSocket, keyUri⟩ := config
  · cases kbsRootCert <;> rfl
  · rfl

/-- What reading a KMS configuration fails with after it was written. -/
def missingClientKey : DeError := .custom "missing field `client_key`"

/-- The name of the variant is not one of the entries that are looked for, so the authentication
mode is taken to be missing, and then the key. -/
theorem KmsConfig.deserialize_serialize (config : KmsConfig) :
    KmsConfig.deserialize config.serialize = .error missingClientKey := by
  obtain ⟨kmsInstanceId, secretName, _ | _⟩ := config <;> rfl

/-- **Providers are read back as they were**, but for a KMS. -/
theorem KeyProviderConfig.deserialize_serialize (provider : KeyProviderConfig) :
    KeyProviderConfig.deserialize provider.variantName provider.serialize =
      if provider.isKms then .error missingClientKey else .ok provider := by
  cases provider with
  | otp => rfl
  | tpm2 => rfl
  | kms config =>
    show KeyProviderConfig.kms <$> KmsConfig.deserialize config.serialize = _
    rw [KmsConfig.deserialize_serialize]
    rfl
  | kbs config =>
    show KeyProviderConfig.kbs <$> KbsConfig.deserialize config.serialize = _
    rw [KbsConfig.deserialize_serialize]
    rfl
  | oidc config =>
    show KeyProviderConfig.oidc <$> OidcConfig.deserialize config.serialize = _
    rw [OidcConfig.deserialize_serialize]
    rfl
  | exec config =>
    show KeyProviderConfig.exec <$> ExecConfig.deserialize config.serialize = _
    rw [ExecConfig.deserialize_serialize]
    rfl

theorem KeyProviderConfig.variantName_mem (provider : KeyProviderConfig) :
    provider.variantName ∈ variants := by
  cases provider <;> simp [variants, variantName]

theorem EncryptConfig.deserialize_serialize (config : EncryptConfig) :
    EncryptConfig.deserialize config.serialize =
      if config.keyProvider.isKms then .error missingClientKey else .ok config := by
  have hvariant := config.keyProvider.variantName_mem
  rw [EncryptConfig.serialize, EncryptConfig.deserialize,
    List.find?_cons_of_pos (by simpa using hvariant)]
  show (do
    let keyProvider ← KeyProviderConfig.deserialize config.keyProvider.variantName
      config.keyProvider.serialize
    _) = _
  rw [KeyProviderConfig.deserialize_serialize]
  split_ifs
  · rfl
  · simp [Table.rest, Table.denyUnknown]

/-! ## What is written is a table -/

theorem KeyProviderConfig.wellFormed_serialize (provider : KeyProviderConfig) :
    (Value.table provider.serialize).WellFormed := by
  cases provider with
  | otp => simp [serialize, wellFormed_table]
  | tpm2 => simp [serialize, wellFormed_table]
  | kms config =>
    obtain ⟨kmsInstanceId, secretName, _ | ⟨_ | ecsRamRoleName, _ | regionId⟩⟩ := config <;>
      simp [serialize, KmsConfig.serialize, AuthMode.serialize, optionalEntry, wellFormed_table]
  | kbs config =>
    obtain ⟨⟨kbsUrl, _ | kbsRootCert⟩ | cdhSocket, keyUri⟩ := config <;>
      simp [serialize, KbsConfig.serialize, CdhType.serialize, optionalEntry, wellFormed_table]
  | oidc config =>
    obtain ⟨command, args, keyId, ⟨aliyun⟩⟩ := config
    simp [serialize, OidcConfig.serialize, Kms.serialize, AliyunKmsConfig.serialize,
      wellFormed_table]
  | exec config => simp [serialize, ExecConfig.serialize, wellFormed_table]

theorem EncryptConfig.wellFormed_serialize (config : EncryptConfig) :
    (Value.table config.serialize).WellFormed := by
  have hprovider := config.keyProvider.wellFormed_serialize
  rw [wellFormed_table, EncryptConfig.serialize]
  exact ⟨by simp, List.forall_mem_singleton.mpr hprovider⟩

end CryptPilot.Core
