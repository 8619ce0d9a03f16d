import CryptPilot.Core.Operations
import CryptPilot.Data.Loop
import CryptPilot.Data.PathWalk

/-!
# Files on the disk of another system

`read_file_on_disk` of `disk/external.rs`. The partitions of a disk are mounted somewhere in the file
tree of the host, and a path under `/boot` of the disk's own system is turned into one of the host.
If it leads to a symbolic link, the target is joined to the path and the loop goes on.

The loop has no counter. What bounds it in some cases is the limit of the host: a relative target is
joined to the path of the link itself, so the next path leads through the link. Absolute targets are
out of a finite set. So the loop ends exactly if it does not come back to a path
(`readFileOnDisk_ends_iff`).
-/

namespace CryptPilot.Fde

open CryptPilot.Data CryptPilot.Data.PathWalk CryptPilot.Core

/-! ## The code -/

inductive FdeBootType where
  | noFde
  | grub
  | uki
  deriving DecidableEq

/-- Where the partitions are mounted. -/
inductive ExternalDiskType where
  | noFde (efiDevTmpMount rootDevTmpMount : Place)
  | grub (bootDevTmpMount efiDevTmpMount : Place)
  | uki (efiDevTmpMount : Place)

namespace ExternalDiskType

def fdeBootType : ExternalDiskType → FdeBootType
  | .noFde _ _ => .noFde
  | .grub _ _ => .grub
  | .uki _ => .uki

def mounts : ExternalDiskType → List Place
  | .noFde efi root => [efi, root]
  | .grub boot efi => [boot, efi]
  | .uki efi => [efi]

end ExternalDiskType

/-- The file tree of the host, with a disk mounted in it. -/
structure OnExternalFdeDisk where
  host : FileTree PathBuf
  diskType : ExternalDiskType
  mounted : ∀ mount ∈ diskType.mounts, host.node mount = some .dir

/-- `fde_boot_type`. -/
abbrev OnExternalFdeDisk.fdeBootType (disk : OnExternalFdeDisk) : FdeBootType :=
  disk.diskType.fdeBootType

/-- Why a file can not be read:
* "The path must be start with /boot, but got ..."
* "The path must be start with /, but got ..."
* "Access files other than /boot/efi is not supported"
* or the host says why. -/
inductive ReadError where
  | notUnderBoot (path : PathBuf)
  | notUnderRoot (path : PathBuf)
  | notUnderEfi
  | io (error : IoError)
  deriving DecidableEq

/-- `Path::starts_with`, for an absolute path with the given names. -/
def startsWith (path : PathBuf) (names : List String) : Bool :=
  path.isAbsolute && (normals names).isPrefixOf path.components

/-- `resolve_path_on_real_disk`. The result is an absolute path. -/
def ExternalDiskType.resolvePathOnRealDisk (diskType : ExternalDiskType) (path : PathBuf) :
    Except ReadError (List Component) :=
  if startsWith path ["boot"] then
    match diskType with
    | .noFde efi root =>
      if startsWith path ["boot", "efi"] then .ok (normals efi ++ path.components.drop 2)
      else if startsWith path [] then .ok (normals root ++ path.components)
      else .error (.notUnderRoot path)
    | .grub boot efi =>
      if startsWith path ["boot", "efi"] then .ok (normals efi ++ path.components.drop 2)
      else .ok (normals boot ++ path.components.drop 1)
    | .uki efi =>
      if startsWith path ["boot", "efi"] then .ok (normals efi ++ path.components.drop 2)
      else .error .notUnderEfi
  else .error (.notUnderBoot path)

/-- The number of links that Linux follows on the way of one path. -/
def maxLinks : Nat := 40

namespace OnExternalFdeDisk

variable (disk : OnExternalFdeDisk)

/-- `is_symlink` and `read_link`: the target of the link at a path of the host. -/
def readLink (real : List Component) : Option PathBuf :=
  match resolve disk.host.node false maxLinks [] real with
  | .ok place =>
    match disk.host.node place with
    | some (.link target) => some target
    | _ => none
  | .error _ => none

/-- `File::open` and `read_to_end`. -/
def readToEnd (real : List Component) : Except ReadError Bytes :=
  match resolve disk.host.node true maxLinks [] real with
  | .ok place =>
    match disk.host.node place with
    | some (.file content) => .ok content
    | some .dir => .error (.io .isADirectory)
    | some (.link _) => .error (.io .tooManyLinks)
    | none => .error (.io .notFound)
  | .error error => .error (.io error)

/-- The body of the loop: the next path, or what is read in the end. -/
def followLink (path : PathBuf) : PathBuf ⊕ Except ReadError Bytes :=
  match disk.diskType.resolvePathOnRealDisk path with
  | .error error => .inr (.error error)
  | .ok real =>
    match disk.readLink real with
    | some target => .inl (path.join target)
    | none => .inr (disk.readToEnd real)

/-- `read_file_on_disk`, with at most `fuel` iterations of its loop. -/
def readFileOnDisk (fuel : Nat) (path : PathBuf) : Option (Except ReadError Bytes) :=
  loop disk.followLink fuel path

end OnExternalFdeDisk

/-! ## When the loop ends -/

section
variable {disk : OnExternalFdeDisk} {path next : PathBuf} {real : List Component}

theorem readLink_eq_some {target : PathBuf} (h : disk.readLink real = some target) :
    ∃ found, resolve disk.host.node false maxLinks [] real = .ok found ∧
      disk.host.node found = some (.link target) := by
  rw [OnExternalFdeDisk.readLink] at h
  split at h
  · rename_i found hfound
    split at h
    · rename_i hlink
      cases h
      exact ⟨found, hfound, hlink⟩
    · cases h
  · cases h

theorem followLink_of_not_link (hreal : disk.diskType.resolvePathOnRealDisk path = .ok real)
    (h : disk.readLink real = none) : disk.followLink path = .inr (disk.readToEnd real) := by
  rw [OnExternalFdeDisk.followLink, hreal]
  dsimp only
  rw [h]

/-- A path leads to a link of the host, and joined with its target it is the other path. -/
def LinksTo (disk : OnExternalFdeDisk) (path next : PathBuf) : Prop :=
  ∃ real target, disk.diskType.resolvePathOnRealDisk path = .ok real ∧
    disk.readLink real = some target ∧ path.join target = next

theorem leads_iff : Leads disk.followLink path next ↔ LinksTo disk path next := by
  rw [Leads, OnExternalFdeDisk.followLink]
  constructor
  · intro h
    split at h
    · cases h
    · rename_i real hreal
      split at h
      · rename_i target htarget
        cases h
        exact ⟨real, target, hreal, htarget, rfl⟩
      · cases h
  · rintro ⟨real, target, hreal, htarget, rfl⟩
    rw [hreal]
    dsimp only
    rw [htarget]

end

/-! ### Partitions -/

theorem startsWith_iff {path : PathBuf} {names : List String} :
    startsWith path names = true ↔
      path.isAbsolute = true ∧ ∃ rest, normals names ++ rest = path.components := by
  rw [startsWith, Bool.and_eq_true, List.isPrefixOf_iff_prefix, List.IsPrefix]

theorem startsWith_append {isAbsolute : Bool} {components more : List Component} {names : List String}
    (h : names.length ≤ components.length) :
    startsWith ⟨isAbsolute, components ++ more⟩ names = startsWith ⟨isAbsolute, components⟩ names := by
  have hlength : (normals names).length ≤ components.length := by
    rwa [normals, List.length_map]
  rw [Bool.eq_iff_iff, startsWith_iff, startsWith_iff]
  refine and_congr_right fun _ => ⟨?_, ?_⟩
  · rintro ⟨rest, hrest⟩
    exact List.prefix_of_prefix_length_le ⟨rest, hrest⟩ ⟨more, rfl⟩ hlength
  · rintro ⟨rest, hrest⟩
    exact ⟨rest ++ more, by rw [← List.append_assoc, hrest]⟩

/-- The partition with `/boot/efi`, and that with the rest of `/boot`. -/
inductive Partition where
  | efi
  | main
  deriving DecidableEq

/-- The partition that the code takes for a path. -/
def Partition.ofPath (path : PathBuf) : Partition :=
  if startsWith path ["boot", "efi"] then .efi else .main

namespace FdeBootType

/-- Where the disk's own system has a partition. -/
def base (bootType : FdeBootType) : Partition → Place
  | .efi => ["boot", "efi"]
  | .main => if bootType = .noFde then [] else ["boot"]

/-- What a path has behind the root of its partition. -/
def behind (bootType : FdeBootType) (path : PathBuf) : List Component :=
  path.components.drop (bootType.base (.ofPath path)).length

theorem length_base_le (bootType : FdeBootType) (partition : Partition) :
    (bootType.base partition).length ≤ 2 := by
  cases partition with
  | efi => exact le_rfl
  | main =>
    rw [base]
    split_ifs <;> simp

end FdeBootType

namespace ExternalDiskType

def mount? : ExternalDiskType → Partition → Option Place
  | .noFde efi _, .efi => some efi
  | .noFde _ root, .main => some root
  | .grub _ efi, .efi => some efi
  | .grub boot _, .main => some boot
  | .uki efi, .efi => some efi
  | .uki _, .main => none

variable {diskType : ExternalDiskType} {path : PathBuf} {real : List Component}

theorem mem_mounts_iff {mount : Place} :
    mount ∈ diskType.mounts ↔ ∃ partition, diskType.mount? partition = some mount := by
  constructor
  · intro h
    cases diskType with
    | noFde efi root =>
      rcases List.mem_pair.mp h with rfl | rfl
      · exact ⟨.efi, rfl⟩
      · exact ⟨.main, rfl⟩
    | grub boot efi =>
      rcases List.mem_pair.mp h with rfl | rfl
      · exact ⟨.main, rfl⟩
      · exact ⟨.efi, rfl⟩
    | uki efi =>
      rw [List.mem_singleton.mp h]
      exact ⟨.efi, rfl⟩
  · rintro ⟨partition, h⟩
    cases diskType <;> cases partition <;> cases h <;> simp [mounts]

theorem mount?_main_eq_none_iff : diskType.mount? .main = none ↔ diskType.fdeBootType = .uki := by
  cases diskType <;> simp [mount?, fdeBootType]

/-- **The path on the host**: the rest of the path behind the mount point. -/
theorem resolvePathOnRealDisk_eq_ok_iff :
    diskType.resolvePathOnRealDisk path = .ok real ↔ startsWith path ["boot"] = true ∧
      ∃ mount, diskType.mount? (.ofPath path) = some mount ∧
        real = normals mount ++ diskType.fdeBootType.behind path := by
  by_cases hboot : startsWith path ["boot"] = true
  swap
  · simp [resolvePathOnRealDisk, hboot]
  have habsolute : startsWith path [] = true := by
    exact startsWith_iff.mpr ⟨(startsWith_iff.mp hboot).1, path.components, rfl⟩
  by_cases hefi : startsWith path ["boot", "efi"] = true
  · cases diskType <;>
      simp [resolvePathOnRealDisk, FdeBootType.behind, Partition.ofPath, mount?, FdeBootType.base,
        hboot, hefi, eq_comm]
  · cases diskType <;>
      simp [resolvePathOnRealDisk, FdeBootType.behind, Partition.ofPath, mount?, FdeBootType.base,
        fdeBootType, hboot, hefi, habsolute, eq_comm]

/-- The partition of a path is known from its first two components. -/
theorem resolvePathOnRealDisk_append {more : List Component}
    (h : diskType.resolvePathOnRealDisk path = .ok real) (hlength : 2 ≤ path.components.length) :
    diskType.resolvePathOnRealDisk { path with components := path.components ++ more } =
      .ok (real ++ more) := by
  obtain ⟨hboot, mount, hmount, rfl⟩ := resolvePathOnRealDisk_eq_ok_iff.mp h
  have hsame : Partition.ofPath { path with components := path.components ++ more } =
      Partition.ofPath path := by
    rw [Partition.ofPath, Partition.ofPath, startsWith_append (by exact hlength)]
  refine resolvePathOnRealDisk_eq_ok_iff.mpr ⟨?_, mount, ?_, ?_⟩
  · rw [startsWith_append (by exact Nat.le_of_succ_le hlength)]
    exact hboot
  · rw [hsame, hmount]
  · have hle := (diskType.fdeBootType.length_base_le (.ofPath path)).trans hlength
    rw [FdeBootType.behind, FdeBootType.behind, hsame, List.drop_append_of_le_length hle, List.append_assoc]

end ExternalDiskType

/-! ### The chain of paths -/

section
variable {disk : OnExternalFdeDisk} {path next : PathBuf}

/-- The targets of all links of the host. -/
def OnExternalFdeDisk.targets (disk : OnExternalFdeDisk) : Set PathBuf :=
  {target | ∃ place, disk.host.node place = some (.link target)}

theorem finite_targets (disk : OnExternalFdeDisk) : disk.targets.Finite := by
  refine (disk.host.finite.image fun place => match disk.host.node place with
    | some (.link target) => target
    | _ => ⟨true, []⟩).subset ?_
  rintro target ⟨place, hplace⟩
  refine ⟨place, by simp [hplace], ?_⟩
  dsimp only
  rw [hplace]

/-- A path leads to a link, with some number of other links on the way. -/
def ReachesLink (disk : OnExternalFdeDisk) (budget : Nat) (path : PathBuf) : Prop :=
  ∃ real found target, disk.diskType.resolvePathOnRealDisk path = .ok real ∧
    resolve disk.host.node false budget [] real = .ok found ∧
    disk.host.node found = some (.link target)

theorem reachesLink_of_leads (h : Leads disk.followLink path next) :
    ReachesLink disk maxLinks path := by
  obtain ⟨real, target, hreal, htarget, -⟩ := leads_iff.mp h
  obtain ⟨found, hfound, hlink⟩ := readLink_eq_some htarget
  exact ⟨real, found, target, hreal, hfound, hlink⟩

/-- The next path is the target of a link, or longer. -/
theorem mem_targets_or_append (h : Leads disk.followLink path next) :
    next ∈ disk.targets ∨ ∃ more, next = { path with components := path.components ++ more } := by
  obtain ⟨real, target, -, htarget, rfl⟩ := leads_iff.mp h
  obtain ⟨found, -, hlink⟩ := readLink_eq_some htarget
  rw [PathBuf.join]
  split_ifs
  · exact .inl ⟨found, hlink⟩
  · exact .inr ⟨target.components, rfl⟩

theorem length_pos_of_leads (h : Leads disk.followLink path next) : 1 ≤ path.components.length := by
  obtain ⟨real, target, hreal, -⟩ := leads_iff.mp h
  obtain ⟨hboot, -⟩ := ExternalDiskType.resolvePathOnRealDisk_eq_ok_iff.mp hreal
  obtain ⟨-, rest, hrest⟩ := startsWith_iff.mp hboot
  rw [← hrest, List.length_append]
  exact Nat.le_add_right 1 _

/-- A longer path leads through the link, so the path itself has one link less on its way. -/
theorem ReachesLink.of_append {budget : Nat} {more : List Component} (hmore : more ≠ [])
    (hlength : 2 ≤ path.components.length) (hpath : ReachesLink disk maxLinks path)
    (h : ReachesLink disk budget { path with components := path.components ++ more }) :
    ∃ less, budget = less + 1 ∧ ReachesLink disk less path := by
  obtain ⟨real, found, target, hreal, hfound, hlink⟩ := hpath
  obtain ⟨real', last, target', hreal', hlast, -⟩ := h
  rw [ExternalDiskType.resolvePathOnRealDisk_append hreal hlength] at hreal'
  cases hreal'
  obtain ⟨less, rfl, hless⟩ := budget_of_append hmore (by simp [disk.host.root]) hfound hlink hlast
  exact ⟨less, rfl, real, found, target, hreal, hless, hlink⟩

/-- A run in which paths only become longer uses up the limit of the host. -/
theorem reachesLink_of_chain (chain : Nat → PathBuf)
    (hchain : ∀ i, Leads disk.followLink (chain i) (chain (i + 1)))
    (hlength : ∀ i, 2 ≤ (chain i).components.length)
    (hlonger : ∀ i, ∃ more, more ≠ [] ∧
      chain (i + 1) = { chain i with components := (chain i).components ++ more })
    (k i : Nat) : ∃ less, maxLinks = less + k ∧ ReachesLink disk less (chain i) := by
  induction k generalizing i with
  | zero => exact ⟨maxLinks, rfl, reachesLink_of_leads (hchain i)⟩
  | succ k ih =>
    obtain ⟨budget, hbudget, hreach⟩ := ih (i + 1)
    obtain ⟨more, hmore, hnext⟩ := hlonger i
    rw [hnext] at hreach
    obtain ⟨less, rfl, hless⟩ :=
      ReachesLink.of_append hmore (hlength i) (reachesLink_of_leads (hchain i)) hreach
    exact ⟨less, by omega, hless⟩

/-- A run that never comes back to a path comes again and again to targets of links. -/
theorem exists_mem_targets {chain : Nat → PathBuf}
    (hchain : ∀ i, Leads disk.followLink (chain i) (chain (i + 1)))
    (hinjective : Function.Injective chain) (i : Nat) : ∃ j, i ≤ j ∧ chain j ∈ disk.targets := by
  by_contra hnone
  push Not at hnone
  have hlonger : ∀ j, ∃ more, more ≠ [] ∧ chain (i + j + 1) =
      { chain (i + j) with components := (chain (i + j)).components ++ more } := by
    intro j
    rcases mem_targets_or_append (hchain (i + j)) with hmem | ⟨more, hmore⟩
    · exact absurd hmem (hnone (i + j + 1) (by omega))
    · refine ⟨more, ?_, hmore⟩
      rintro rfl
      rw [List.append_nil] at hmore
      exact absurd (hinjective hmore) (by omega)
  have hlength : ∀ j, 2 ≤ (chain (i + j + 1)).components.length := by
    intro j
    obtain ⟨more, hmore, hnext⟩ := hlonger j
    have hpos := length_pos_of_leads (hchain (i + j))
    have hmore' := List.length_pos_of_ne_nil hmore
    rw [hnext, List.length_append]
    omega
  obtain ⟨less, hless, -⟩ := reachesLink_of_chain (fun j => chain (i + j + 1))
    (fun j => hchain (i + j + 1)) hlength (fun j => hlonger (j + 1)) (maxLinks + 1) 0
  omega

end

/-- **When a file is read.** The loop ends with content or an error exactly if no path that the
links lead to leads back to itself. -/
theorem readFileOnDisk_ends_iff (disk : OnExternalFdeDisk) (path : PathBuf) :
    (∃ fuel result, disk.readFileOnDisk fuel path = some result) ↔
      ∀ path', Relation.ReflTransGen (LinksTo disk) path path' →
        ¬Relation.TransGen (LinksTo disk) path' path' := by
  have hlinks : LinksTo disk = Leads disk.followLink :=
    funext fun path => funext fun next => propext leads_iff.symm
  rw [hlinks]
  exact ends_iff_acyclic (finite_targets disk) fun _ => exists_mem_targets

/-! A link to itself in the boot partition. -/

def selfLink : PathBuf := ⟨true, [.normal "boot", .normal "vmlinuz"]⟩

def selfLinkDisk : OnExternalFdeDisk where
  host := .ofEntries [(["b"], .dir), (["e"], .dir), (["b", "vmlinuz"], .link selfLink)] (by decide)
  diskType := .grub ["b"] ["e"]
  mounted := by decide

theorem readFileOnDisk_selfLink :
    ¬∃ fuel result, selfLinkDisk.readFileOnDisk fuel selfLink = some result := by
  have hstep : selfLinkDisk.followLink selfLink = .inl selfLink := by decide +kernel
  rintro ⟨fuel, result, h⟩
  exact Ends.acyclic ⟨fuel, result, h⟩ (.single hstep)

end CryptPilot.Fde
