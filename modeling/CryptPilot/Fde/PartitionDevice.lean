import CryptPilot.Data.Decimal
import CryptPilot.Data.Text

/-!
# Disks and partitions

`get_disk_root_device` of `disk/mod.rs` and the partition number of `load_kernel_artifacts` in
`disk/grub.rs`. The kernel names the partitions of a disk after it: `sda3`, and with a `p` in between
if the name of the disk ends with a digit: `nvme0n1p3`.

The partition number is read from all digits at the end. The disk is what is before the last digit,
without a `p` at its end, so a second digit of the partition number stays, and the `p` of a disk
`sdp` does not.
-/

namespace CryptPilot.Fde

open CryptPilot.Data.Text

/-- The place of the last digit. -/
def lastDigit (text : List Char) : Option Nat :=
  (text.reverse.findIdx? Char.isDigit).map fun n => text.length - 1 - n

/-- `get_disk_root_device`. -/
def getDiskRootDevice (partDev : List Char) : List Char :=
  match lastDigit partDev with
  | some pos =>
    let disk := partDev.take pos
    if disk.getLast? = some 'p' then disk.dropLast else disk
  | none => partDev

/-- The partition number, from the digits at the end. -/
def partitionNumber (dev : List Char) : Option Nat :=
  parseUnsigned 32 (dev.rtakeWhile Char.isDigit)

/-- How the kernel names a partition. -/
def partitionDevice (disk : List Char) (n : Nat) : List Char :=
  if disk.getLast?.any Char.isDigit then disk ++ 'p' :: Nat.toDigits 10 n
  else disk ++ Nat.toDigits 10 n

section
variable {disk : List Char}

/-- The name of a partition is its number behind something that does not end with a digit: the disk,
or the disk and a `p`. -/
theorem partitionDevice_cases (disk : List Char) (n : Nat) : ∃ stem,
    partitionDevice disk n = stem ++ Nat.toDigits 10 n ∧
    (∀ c ∈ stem.getLast?, c.isDigit = false) ∧
    (stem = disk ∨ stem = disk ++ ['p'] ∧ disk.getLast? ≠ some 'p') := by
  rw [partitionDevice]
  split_ifs with h
  · refine ⟨disk ++ ['p'], by simp, by simp, .inr ⟨rfl, fun hp => ?_⟩⟩
    rw [hp] at h
    exact absurd h (by decide)
  · refine ⟨disk, rfl, fun c hc => ?_, .inl rfl⟩
    rw [Option.mem_def.mp hc] at h
    simpa using h

theorem getDiskRootDevice_concat {c : Char} (hc : c.isDigit = true) (stem : List Char) :
    getDiskRootDevice (stem ++ [c]) =
      if stem.getLast? = some 'p' then stem.dropLast else stem := by
  have hpos : lastDigit (stem ++ [c]) = some stem.length := by
    simp [lastDigit, List.findIdx?_cons, hc]
  rw [getDiskRootDevice, hpos]
  simp only [List.take_left]

/-- The partition number is always the right one. -/
theorem partitionNumber_partitionDevice {n : Nat} (hn : n < 2 ^ 32) (disk : List Char) :
    partitionNumber (partitionDevice disk n) = some n := by
  obtain ⟨stem, hstem, hlast, -⟩ := partitionDevice_cases disk n
  rw [partitionNumber, hstem, rtakeWhile_append_toDigits hlast, parseUnsigned_toDigits hn]

theorem getDiskRootDevice_of_lt {n : Nat} (hn : n < 10) (hdisk : disk ≠ []) :
    getDiskRootDevice (partitionDevice disk n) = disk ↔ disk.getLast? ≠ some 'p' := by
  obtain ⟨stem, hstem, -, hcases⟩ := partitionDevice_cases disk n
  have hdigit : n.digitChar.isDigit = true :=
    isDigit_of_mem_toDigits (n := n) (by simp [Nat.toDigits_of_lt_base hn])
  rw [hstem, Nat.toDigits_of_lt_base hn, getDiskRootDevice_concat hdigit]
  rcases hcases with rfl | ⟨rfl, hp⟩
  · split_ifs with hp
    · have hne : stem.dropLast ≠ stem := by
        intro h
        have hlen := congrArg List.length h
        have hpos := List.length_pos_of_ne_nil hdisk
        rw [List.length_dropLast] at hlen
        omega
      simp [hp, hne]
    · simp [hp]
  · simp [hp]

/-- With a second digit, something of the number is left. -/
theorem getDiskRootDevice_of_le {n : Nat} (hn : 10 ≤ n) (disk : List Char) :
    getDiskRootDevice (partitionDevice disk n) ≠ disk := by
  obtain ⟨stem, hstem, -, hcases⟩ := partitionDevice_cases disk n
  have hle : disk.length ≤ stem.length := by
    rcases hcases with rfl | ⟨rfl, -⟩ <;> simp
  have hsplit : Nat.toDigits 10 n = Nat.toDigits 10 (n / 10) ++ [(n % 10).digitChar] :=
    Nat.toDigits_of_base_le (by decide) hn
  have hdigit : (n % 10).digitChar.isDigit = true :=
    isDigit_of_mem_toDigits (n := n) (by simp [hsplit])
  have hlast : (stem ++ Nat.toDigits 10 (n / 10)).getLast? ≠ some 'p' := by
    rw [List.getLast?_append_of_ne_nil _ Nat.toDigits_ne_nil]
    intro h
    have hp := isDigit_of_mem_toDigits (List.mem_of_getLast? h)
    exact absurd hp (by decide)
  rw [hstem, hsplit, ← List.append_assoc, getDiskRootDevice_concat hdigit, if_neg hlast]
  intro h
  have hlen := congrArg List.length h
  have hpos := @Nat.length_toDigits_pos 10 (n / 10)
  rw [List.length_append] at hlen
  omega

end

/-- **Disk and partition number** are those a partition was named after exactly if the number has
one digit and the name of the disk does not end with `p`. -/
theorem partition_iff (name : List Char) {n : Nat} (hn : n < 2 ^ 32) :
    (getDiskRootDevice (partitionDevice ("/dev/".toList ++ name) n) = "/dev/".toList ++ name ∧
        partitionNumber (partitionDevice ("/dev/".toList ++ name) n) = some n) ↔
      n < 10 ∧ name.getLast? ≠ some 'p' := by
  have hdisk : "/dev/".toList ++ name ≠ [] := by simp
  have hlast : ("/dev/".toList ++ name).getLast? = some 'p' ↔ name.getLast? = some 'p' := by
    rw [List.getLast?_append]
    cases name.getLast? <;> simp
  rw [partitionNumber_partitionDevice hn, and_iff_left rfl]
  rcases Nat.lt_or_ge n 10 with h | h
  · rw [getDiskRootDevice_of_lt h hdisk, Ne, hlast]
    exact ⟨fun hp => ⟨h, hp⟩, fun hp => hp.2⟩
  · exact ⟨fun heq => absurd heq (getDiskRootDevice_of_le h _), fun hlt => absurd hlt.1 (by omega)⟩

theorem partition_iff_nvme :
    getDiskRootDevice "/dev/nvme0n1p3".toList = "/dev/nvme0n1".toList ∧
      partitionNumber "/dev/nvme0n1p3".toList = some 3 :=
  (@partition_iff "nvme0n1".toList 3 (by decide)).mpr (by decide)

/-- A digit of the number stays with the disk, or the last letter of the disk goes with it. -/
theorem partition_split :
    partitionDevice "/dev/sda".toList 12 = "/dev/sda12".toList ∧
      getDiskRootDevice "/dev/sda12".toList = "/dev/sda1".toList ∧
      partitionDevice "/dev/sdp".toList 1 = "/dev/sdp1".toList ∧
      getDiskRootDevice "/dev/sdp1".toList = "/dev/sd".toList := by
  decide +kernel

end CryptPilot.Fde
