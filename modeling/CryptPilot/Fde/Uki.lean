import CryptPilot.Core.Operations

/-!
# Unified kernel images

`disk/uki.rs`. How an executable is taken apart is a parameter: `parse` stands for
`object::File::parse`, which gives its format and its sections.
-/

namespace CryptPilot.Fde

open CryptPilot.Data.Prog CryptPilot.Core

inductive BinaryFormat where
  | coff
  | elf
  | machO
  | pe
  | wasm
  | xcoff
  deriving DecidableEq

/-- `{:?}` -/
def BinaryFormat.debugName : BinaryFormat → String
  | .coff => "Coff"
  | .elf => "Elf"
  | .machO => "MachO"
  | .pe => "Pe"
  | .wasm => "Wasm"
  | .xcoff => "Xcoff"

/-- The data of a section may be unreadable. -/
structure ObjectFile where
  format : BinaryFormat
  sections : List (String × Except String Bytes)

def ObjectFile.sectionByName (file : ObjectFile) (name : String) :
    Except String (Except String Bytes) :=
  match file.sections.lookup name with
  | some data => .ok data
  | none => .error s!"No {name} section found"

/-- `UKI_FILE_PATH_IN_EFI_PART`. -/
def ukiFilePathInEfiPart : Path := "EFI/BOOT/BOOTX64.EFI"

variable (parse : Bytes → Except String ObjectFile)

def assumeUkiImage (fileContent : Bytes) : Except String Unit := do
  let ukiFile ← addContext "Not a valid UKI file" (parse fileContent)
  if ukiFile.format = .coff ∨ ukiFile.format = .pe then
    let _ ← ukiFile.sectionByName ".linux"
    return ()
  else throw s!"Should be PE or COFF executable but got {ukiFile.format.debugName}"

end CryptPilot.Fde
