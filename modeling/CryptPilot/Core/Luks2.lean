import CryptPilot.Core.Operations
import Mathlib.Data.List.Infix

/-!
# LUKS2 volumes

`fs/luks2.rs`, with `fs/mkfs.rs` and `fs/blkid.rs`. The header of a volume says in its field
`subsystem` how far the initialization got: `format` writes one marker, and
`mark_volume_as_initialized` another one when everything else is done.

`debug` is what `{:?}` prints for a string or a path.
-/

namespace CryptPilot.Core

open CryptPilot.Data CryptPilot.Data.Prog

/-! ## Text -/

/-- What a byte begins: the bits it gives to a character, and the ranges of the bytes that must
follow. -/
def leadByte (b : UInt8) : Option (Nat × List (UInt8 × UInt8)) :=
  if b < 0x80 then some (b.toNat, [])
  else if 0xC2 ≤ b ∧ b ≤ 0xDF then some (b.toNat % 32, [(0x80, 0xBF)])
  else if b = 0xE0 then some (0, [(0xA0, 0xBF), (0x80, 0xBF)])
  else if b = 0xED then some (13, [(0x80, 0x9F), (0x80, 0xBF)])
  else if 0xE1 ≤ b ∧ b ≤ 0xEF then some (b.toNat % 16, [(0x80, 0xBF), (0x80, 0xBF)])
  else if b = 0xF0 then some (0, [(0x90, 0xBF), (0x80, 0xBF), (0x80, 0xBF)])
  else if b = 0xF4 then some (4, [(0x80, 0x8F), (0x80, 0xBF), (0x80, 0xBF)])
  else if 0xF1 ≤ b ∧ b ≤ 0xF3 then some (b.toNat % 8, [(0x80, 0xBF), (0x80, 0xBF), (0x80, 0xBF)])
  else none

/-- Characters from bytes, in the middle of a character: its bits so far, and what must follow. -/
def lossyFrom (bits : Nat) (expected : List (UInt8 × UInt8)) : Bytes → List Char
  | [] => if expected.isEmpty then [] else ['�']
  | b :: bs =>
    -- a byte that does not continue a character ends it, and may begin the next one
    let (replaced, character) := match expected with
      | [] => ([], leadByte b)
      | (low, high) :: expected =>
        if low ≤ b ∧ b ≤ high then ([], some (bits * 64 + b.toNat % 64, expected))
        else (['�'], leadByte b)
    match character with
    | none => replaced ++ '�' :: lossyFrom 0 [] bs
    | some (bits, []) => replaced ++ Char.ofNat bits :: lossyFrom 0 [] bs
    | some (bits, expected) => replaced ++ lossyFrom bits expected bs

/-- `String::from_utf8_lossy` -/
def fromUtf8Lossy (bytes : Bytes) : String := String.ofList (lossyFrom 0 [] bytes)

/-! ## The header -/

/-- `LUKS2_SUBSYSTEM_NAME` -/
def luks2SubsystemName : String := "cryptpilot"

/-- `LUKS2_SUBSYSTEM_INITIALIZING` -/
def luks2SubsystemInitializing : String := "cryptpilot-initializing"

inductive VolumeInitState where
  | none
  | initializing
  | ready
  deriving DecidableEq

/-- The fields of the header that are read: `magic`, `version` (big endian) and `subsystem`. -/
def Header.magic (header : Header) : Bytes := header.toList.take 6

def Header.version (header : Header) : Nat :=
  (header.toList.getD 6 0).toNat * 256 + (header.toList.getD 7 0).toNat

def Header.subsystem (header : Header) : Bytes := (header.toList.drop 208).take 48

/-- What `get_luks2_subsystem` makes of a header. The text ends at the first zero. -/
def Header.luks2Subsystem (header : Header) : Except String (Option String) :=
  if (header.magic ≠ [0x4C, 0x55, 0x4B, 0x53, 0xBA, 0xBE] ∧
      header.magic ≠ [0x53, 0x4B, 0x55, 0x4C, 0xBA, 0xBE]) ∨ header.version ≠ 2 then
    .error s!"Invalid LUKS2 header: magic='{header.magic}', version={header.version}"
  else
    let subsystem := fromUtf8Lossy (header.subsystem.takeWhile (· ≠ 0))
    if subsystem ≠ "" ∧ subsystem ≠ "-" then .ok (some subsystem) else .ok none

def getLuks2Subsystem (dev : Path) : Cmd (Option String) := do
  let header ← readHeader dev
  Prog.ofExcept header.luks2Subsystem

/-- The state that a marker stands for. -/
def VolumeInitState.ofSubsystem (subsystem : String) : VolumeInitState :=
  if subsystem = luks2SubsystemName then .ready
  else if subsystem = luks2SubsystemInitializing then .initializing
  else .none

/-- `get_init_state`. It never fails: what cannot be read has no marker. -/
def getInitState (dev : Path) : Cmd VolumeInitState := do
  match ← attempt (getLuks2Subsystem dev) with
  | .ok (some subsystem) => return .ofSubsystem subsystem
  | .ok none => return .none
  | .error _ => return .none

def isInitialized (dev : Path) : Cmd Bool := do
  let state ← getInitState dev
  return state = .ready

/-! ## libcryptsetup -/

section
variable (debug : String → String)

def format (dev : Path) (passphrase : Passphrase) (integrity : IntegrityType) : Cmd Unit :=
  context s!"Failed to format {debug dev} as LUKS2 volume" do
    act (.cryptInit dev)
    act (.cryptFormat dev luks2SubsystemInitializing integrity)
    act (.addByKey dev passphrase)

def markVolumeAsInitialized (dev : Path) : Cmd Unit :=
  context s!"Failed to mark volume as initialized for {debug dev}" do
    act (.cryptInit dev)
    act (.cryptLoad dev)
    act (.setLabel dev luks2SubsystemName)

def checkPassphrase (dev : Path) (passphrase : Passphrase) : Cmd Unit :=
  context s!"Failed to check passphrase for device {debug dev}" do
    act (.cryptInit dev)
    act (.cryptLoad dev)
    act (.activateByPassphrase none dev passphrase false)

def openWithCheckPassphrase (volume : String) (dev : Path) (passphrase : Passphrase)
    (integrity : IntegrityType) : Cmd Unit := do
  context s!"Passphrase verification failed for volume {volume}: the passphrase is likely incorrect. Please check your passphrase configuration."
    (checkPassphrase debug dev passphrase)
  context s!"Failed to setup mapping for volume {volume}" do
    act (.cryptInit dev)
    act (.cryptLoad dev)
    act (.activateByPassphrase (some volume) dev passphrase (integrity = .noJournal))

end

/-- `luks2::close` -/
def close (volume : String) : Cmd Unit :=
  context s!"Failed to close volume `{volume}`" do
    act (.initByName volume)
    act (.deactivate volume)

def isActive (volume : String) : Cmd Bool := pathExists ("/dev/mapper/" ++ volume)

def isDevInUse (dev : Path) : Cmd Bool := do
  match ← openExclusive dev with
  | .opened => return false
  | .busy => return true
  | .failed e => fail e

/-- `Path::new("/dev/mapper").join(volume)` -/
def volumePath (volume : String) : Path :=
  if volume.toList.head? = some '/' then volume else "/dev/mapper/" ++ volume

/-- `TempLuksVolume::open`. The name is the volume; dropping it is `close`. -/
def tempLuksVolumeOpen (debug : String → String) (dev : Path) (passphrase : Passphrase)
    (integrity : IntegrityType) : Cmd String := do
  let name := ".cryptpilot-" ++ (← randomName)
  openWithCheckPassphrase debug name dev passphrase integrity
  return name

/-! ## File systems -/

section
variable (debug : String → String)

def forceMkfs (volumePath : Path) (makefs : MakeFsType) (integrity : IntegrityType) : Cmd Unit :=
  context s!"Failed to initialize {makefs.name} fs on volume {debug volumePath}" do
    act (.mkfs volumePath makefs integrity)

/-- `{:?}` of an optional text. -/
def debugOption : Option String → String
  | some text => s!"Some({debug text})"
  | none => "None"

def probeDevice (device : Path) : Cmd BlkidProbeResult :=
  context "Failed to execute blkid probe" (blkid device)

def hasValuableData (device : Path) (fsHint : Option MakeFsType) : Cmd Bool := do
  match ← probeDevice device, fsHint with
  | .noSignatures, _ => return false
  | .knownSignature fsType _ _, some expected =>
    if fsType = some expected.name then return true
    else fail s!"Something else on {debug device} is detected (found {debugOption debug fsType}), but expected '{expected.name}'"
  | .knownSignature .., none => return true

end

def BlkidProbeResult.isDmSnapshotCow : BlkidProbeResult → Bool
  | .knownSignature (some fsType) _ _ => decide ("DM_snapshot_cow".toList <:+: fsType.toList)
  | _ => false

/-! ## What a header says -/

/-- The state that `get_init_state` finds in a header that can be read. -/
def Header.initState (header : Header) : VolumeInitState :=
  match header.luks2Subsystem with
  | .ok (some subsystem) => .ofSubsystem subsystem
  | _ => .none

/-- The state that `get_init_state` reports. -/
def initStateOf : Except String Header → VolumeInitState
  | .ok header => header.initState
  | .error _ => .none

theorem getInitState_eq (dev : Path) :
    getInitState dev = .step (.readHeader dev) fun r => .done (.ok (initStateOf r)) := by
  refine congrArg (Prog.step (Op.readHeader dev)) (funext fun r => ?_)
  cases r with
  | error e => rfl
  | ok header =>
    rw [initStateOf, Header.initState]
    rcases h : header.luks2Subsystem with e | _ | subsystem
    all_goals
      simp only [andThen, onOk, Prog.ofExcept, h]
      rfl

end CryptPilot.Core
