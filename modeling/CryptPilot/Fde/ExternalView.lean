import CryptPilot.Data.Text
import CryptPilot.Fde.ExternalDisk

/-!
# What the system on an external disk has

The system on the disk has the EFI partition at `/boot/efi`, and the other partition at `/boot` or
at the root (`view`). It takes the target of a link relative to the directory that contains the link,
and so it says which file a path denotes (`Denotes`).

`read_file_on_disk` maps a path to a partition by its first components. As long as a path stays in
this partition, a walk of the system is one of the host (`arrives_of_stays`), and one iteration of
the loop finds what the system has there (`exists_real`).
-/

namespace CryptPilot.Fde

open CryptPilot.Data CryptPilot.Data.PathWalk CryptPilot.Data.Text CryptPilot.Core

/-! ## The system's own view -/

namespace OnExternalFdeDisk

variable (disk : OnExternalFdeDisk)

/-- What is in a partition. -/
def nodeIn (partition : Partition) (rest : Place) : Option (Node PathBuf) :=
  (disk.diskType.mount? partition).bind fun mount => disk.host.node (mount ++ rest)

/-- What the system on the disk has at a place, as far as it is on the partitions. -/
def view (place : Place) : Option (Node PathBuf) :=
  match place.dropPrefix? ["boot", "efi"] with
  | some rest => disk.nodeIn .efi rest
  | none =>
    if place = [] ∨ place = ["boot"] ∧ disk.fdeBootType = .uki then some .dir
    else (place.dropPrefix? (disk.fdeBootType.base .main)).bind (disk.nodeIn .main)

end OnExternalFdeDisk

/-- The content of the file that components lead to from some directory, under `/boot`. No directory
on the way is a link. A link at the end is followed, from the root if its target is absolute and
otherwise from the directory that contains the link. -/
inductive Denotes (view : Place → Option (Node PathBuf)) :
    Place → List Component → Bytes → Prop
  | file {start place rest : Place} {name : String} {components : List Component}
      {content : Bytes} :
      Arrives view start components place → place = "boot" :: name :: rest →
      view place = some (.file content) → Denotes view start components content
  | link {start place rest : Place} {name : String} {components : List Component}
      {target : PathBuf} {content : Bytes} :
      Arrives view start components place → place = "boot" :: name :: rest →
      view place = some (.link target) →
      Denotes view (if target.isAbsolute then [] else place.dropLast) target.components content →
      Denotes view start components content

/-- A path leads to a link with the other path as its target. -/
def Follows (view : Place → Option (Node PathBuf)) (path target : PathBuf) : Prop :=
  ∃ place, Arrives view [] path.components place ∧ view place = some (.link target)

namespace FdeBootType

variable (bootType : FdeBootType)

/-- A place of a partition where the system has the other one. -/
def Hidden (partition : Partition) (place : Place) : Prop :=
  partition = .main ∧ ∃ rest, bootType.base .main ++ place = "boot" :: "efi" :: rest

/-- Components that lead from a place of a partition to no other partition. -/
def Stays (partition : Partition) : Place → List Component → Prop
  | _, [] => True
  | place, .normal name :: rest =>
    ¬bootType.Hidden partition (place ++ [name]) ∧ Stays partition (place ++ [name]) rest
  | place, .parentDir :: rest => place ≠ [] ∧ Stays partition place.dropLast rest

/-- A path that stays in the partition in which it begins. -/
def StaysInside (path : PathBuf) : Prop :=
  startsWith path ["boot"] = true ∧ bootType.Stays (.ofPath path) [] (bootType.behind path)

end FdeBootType

/-! ## Places of the host and of the system -/

section
variable {disk : OnExternalFdeDisk} {partition : Partition} {mount place : Place} {name : String}

theorem not_hidden_efi : ¬disk.fdeBootType.Hidden .efi place := by
  rintro ⟨hefi, -⟩
  cases hefi

theorem not_hidden_nil : ¬disk.fdeBootType.Hidden partition [] := by
  rintro ⟨-, rest, h⟩
  rw [FdeBootType.base] at h
  split_ifs at h <;> simp at h

theorem not_hidden_dropLast (h : ¬disk.fdeBootType.Hidden partition place) :
    ¬disk.fdeBootType.Hidden partition place.dropLast := by
  rintro ⟨rfl, rest, hrest⟩
  induction place using List.reverseRecOn with
  | nil => exact not_hidden_nil ⟨rfl, rest, hrest⟩
  | append_singleton place name =>
    rw [List.dropLast_concat] at hrest
    refine h ⟨rfl, rest ++ [name], ?_⟩
    rw [← List.append_assoc, hrest]
    rfl

theorem node_mount (hmount : disk.diskType.mount? partition = some mount) :
    disk.host.node mount = some .dir :=
  disk.mounted mount (ExternalDiskType.mem_mounts_iff.mpr ⟨partition, hmount⟩)

theorem view_efi (rest : Place) : disk.view ("boot" :: "efi" :: rest) = disk.nodeIn .efi rest := by
  rw [OnExternalFdeDisk.view, show "boot" :: "efi" :: rest = ["boot", "efi"] ++ rest from rfl,
    dropPrefix?_append_self]

/-- **The two views** of a place that is not hidden. -/
theorem view_base (hmount : disk.diskType.mount? partition = some mount)
    (hhidden : ¬disk.fdeBootType.Hidden partition place) :
    disk.view (disk.fdeBootType.base partition ++ place) = disk.host.node (mount ++ place) := by
  cases partition with
  | efi =>
    refine (view_efi place).trans ?_
    rw [OnExternalFdeDisk.nodeIn, hmount]
    rfl
  | main =>
    have hnone : (disk.fdeBootType.base .main ++ place).dropPrefix? ["boot", "efi"] = none := by
      refine dropPrefix?_of_not_begins ?_
      rintro ⟨rest, hrest⟩
      exact hhidden ⟨rfl, rest, hrest.symm⟩
    rw [OnExternalFdeDisk.view, hnone]
    dsimp only
    split_ifs with hroot
    · rcases hroot with hnil | ⟨-, huki⟩
      · obtain ⟨-, rfl⟩ := List.append_eq_nil_iff.mp hnil
        rw [List.append_nil, node_mount hmount]
      · rw [ExternalDiskType.mount?_main_eq_none_iff.mpr huki] at hmount
        cases hmount
    · rw [dropPrefix?_append_self, Option.bind_some, OnExternalFdeDisk.nodeIn, hmount]
      rfl

/-! ## Walks that stay in a partition -/

/-- **A walk of the system is one of the host**, as long as it stays in the partition. -/
theorem arrives_of_stays (hmount : disk.diskType.mount? partition = some mount)
    {components : List Component} {found : Place}
    (hhidden : ¬disk.fdeBootType.Hidden partition place)
    (hstays : disk.fdeBootType.Stays partition place components)
    (h : Arrives disk.view (disk.fdeBootType.base partition ++ place) components found) :
    ∃ last, found = disk.fdeBootType.base partition ++ last ∧
      ¬disk.fdeBootType.Hidden partition last ∧
      Arrives disk.host.node (mount ++ place) components (mount ++ last) := by
  generalize hstart : disk.fdeBootType.base partition ++ place = start at h
  induction h generalizing place with
  | nil start => exact ⟨place, hstart.symm, hhidden, .nil _⟩
  | parentDir hdir _ ih =>
    obtain ⟨hne, hstays⟩ := hstays
    subst hstart
    obtain ⟨last, rfl, hlast, harrives⟩ := ih (not_hidden_dropLast hhidden) hstays
      (List.dropLast_append_of_ne_nil hne).symm
    rw [view_base hmount hhidden] at hdir
    rw [← List.dropLast_append_of_ne_nil hne] at harrives
    exact ⟨last, rfl, hlast, .parentDir hdir harrives⟩
  | normal hdir hname hlink _ ih =>
    obtain ⟨hname', hstays⟩ := hstays
    subst hstart
    obtain ⟨last, rfl, hlast, harrives⟩ := ih hname' hstays (List.append_assoc ..).symm
    rw [List.append_assoc, view_base hmount hname', ← List.append_assoc] at hname
    rw [view_base hmount hhidden] at hdir
    rw [← List.append_assoc] at harrives
    exact ⟨last, rfl, hlast, .normal hdir hname hlink harrives⟩
  | @link _ name target hdir hname =>
    subst hstart
    refine ⟨place ++ [name], List.append_assoc .., hstays.1, ?_⟩
    rw [List.append_assoc, view_base hmount hstays.1, ← List.append_assoc] at hname
    rw [view_base hmount hhidden] at hdir
    rw [← List.append_assoc]
    exact .link hdir hname

end

section
variable {disk : OnExternalFdeDisk} {path : PathBuf} {place rest : Place} {name : String}

/-- The first components of a path are those of its partition. -/
theorem components_eq (disk : OnExternalFdeDisk) (h : startsWith path ["boot"] = true) :
    path.components =
      normals (disk.fdeBootType.base (.ofPath path)) ++ disk.fdeBootType.behind path := by
  have hdrop : ∀ names, startsWith path names = true →
      path.components = normals names ++ path.components.drop names.length := by
    intro names hnames
    obtain ⟨-, rest, hrest⟩ := startsWith_iff.mp hnames
    rw [← hrest, List.drop_left' (by rw [normals, List.length_map])]
  refine hdrop _ ?_
  rw [Partition.ofPath]
  split_ifs with hefi
  · exact hefi
  · rw [FdeBootType.base]
    split_ifs
    · exact startsWith_iff.mpr ⟨(startsWith_iff.mp h).1, path.components, rfl⟩
    · exact h

theorem view_nil : disk.view [] = some .dir := by
  have hnone : ([] : Place).dropPrefix? ["boot", "efi"] = none := rfl
  rw [OnExternalFdeDisk.view, hnone]
  exact if_pos (.inl rfl)

theorem exists_mount_efi (disk : OnExternalFdeDisk) :
    ∃ mount, disk.diskType.mount? .efi = some mount := by
  cases disk.diskType <;> exact ⟨_, rfl⟩

/-- A path under `/boot` leads through the root of its partition. -/
theorem arrives_base (hboot : startsWith path ["boot"] = true)
    (h : Arrives disk.view [] path.components place) (hplace : place = "boot" :: name :: rest) :
    Arrives disk.view (disk.fdeBootType.base (.ofPath path) ++ []) (disk.fdeBootType.behind path)
      place := by
  rw [components_eq disk hboot] at h
  rw [List.append_nil]
  refine h.drop_normals ?_
  generalize disk.fdeBootType.behind path = components at h
  generalize Partition.ofPath path = partition at h ⊢
  rw [List.nil_append]
  cases partition with
  | efi =>
    obtain ⟨mount, hmount⟩ := exists_mount_efi disk
    have hview := view_base hmount not_hidden_nil
    rw [List.append_nil, List.append_nil, node_mount hmount] at hview
    exact .inr fun target heq => by rw [hview] at heq; cases heq
  | main =>
    rw [FdeBootType.base] at h ⊢
    split_ifs at h ⊢
    · exact .inr fun target heq => by rw [view_nil] at heq; cases heq
    · refine .inl ?_
      rintro rfl
      -- the path is `/boot` itself
      have hsame : Arrives disk.view [] [.normal "boot"] ["boot"] := by
        cases h with
        | normal hdir hname hlink _ => exact .normal hdir hname hlink (.nil _)
        | link hdir hname => exact .link hdir hname
      rw [hsame.unique h] at hplace
      cases hplace

theorem base_of_not_mounted (hmount : disk.diskType.mount? .main = none) :
    disk.fdeBootType.base .main = ["boot"] := by
  have huki : disk.fdeBootType = .uki := ExternalDiskType.mount?_main_eq_none_iff.mp hmount
  rw [huki]
  rfl

/-- Without a mounted partition there is nothing else below `/boot`. -/
theorem view_of_not_mounted (hmount : disk.diskType.mount? .main = none)
    (hhidden : ¬disk.fdeBootType.Hidden .main [name]) : disk.view ["boot", name] = none := by
  have hbase := base_of_not_mounted hmount
  have hnone : ["boot", name].dropPrefix? ["boot", "efi"] = none := by
    refine dropPrefix?_of_not_begins ?_
    rintro ⟨rest, hrest⟩
    exact hhidden ⟨rfl, rest, by rw [hbase]; exact hrest.symm⟩
  rw [OnExternalFdeDisk.view, hnone]
  dsimp only
  rw [if_neg (by simp), hbase, show ["boot", name] = ["boot"] ++ [name] from rfl,
    dropPrefix?_append_self, Option.bind_some, OnExternalFdeDisk.nodeIn, hmount]
  rfl

/-- A path that stays inside its partition has one that is mounted. -/
theorem exists_mount (hstays : disk.fdeBootType.StaysInside path)
    (h : Arrives disk.view [] path.components place) (hplace : place = "boot" :: name :: rest) :
    ∃ mount, disk.diskType.mount? (.ofPath path) = some mount := by
  obtain ⟨hboot, hstays⟩ := hstays
  have hbase := arrives_base hboot h hplace
  generalize disk.fdeBootType.behind path = components at hstays hbase
  generalize Partition.ofPath path = partition at hstays hbase ⊢
  cases partition with
  | efi => exact exists_mount_efi disk
  | main =>
    refine Option.ne_none_iff_exists'.mp fun hmount => ?_
    rw [base_of_not_mounted hmount, List.append_nil] at hbase
    cases hbase with
    | nil => cases hplace
    | parentDir => exact absurd rfl hstays.1
    | normal _ hname =>
      have hnone := view_of_not_mounted hmount hstays.1
      rw [show ["boot"] ++ [_] = ["boot", _] from rfl, hnone] at hname
      cases hname
    | link _ hname =>
      have hnone := view_of_not_mounted hmount hstays.1
      rw [show ["boot"] ++ [_] = ["boot", _] from rfl, hnone] at hname
      cases hname

/-- **One step of the two systems.** The path of the host leads to what the system has. -/
theorem exists_real (hstays : disk.fdeBootType.StaysInside path)
    (h : Arrives disk.view [] path.components place) (hplace : place = "boot" :: name :: rest) :
    ∃ real last, disk.diskType.resolvePathOnRealDisk path = .ok real ∧
      disk.host.node last = disk.view place ∧
      resolve disk.host.node false maxLinks [] real = .ok last ∧
      ((∀ target, disk.host.node last ≠ some (.link target)) →
        resolve disk.host.node true maxLinks [] real = .ok last) := by
  obtain ⟨mount, hmount⟩ := exists_mount hstays h hplace
  obtain ⟨hboot, hstays⟩ := hstays
  have hbase := arrives_base hboot h hplace
  obtain ⟨last, rfl, hlast, harrives⟩ := arrives_of_stays hmount not_hidden_nil hstays hbase
  have hdir : disk.host.node ([] ++ mount) = some .dir := node_mount hmount
  rw [List.append_nil] at harrives
  refine ⟨_, mount ++ last, ExternalDiskType.resolvePathOnRealDisk_eq_ok_iff.mpr
    ⟨hboot, mount, hmount, rfl⟩, (view_base hmount hlast).symm, ?_, fun hlink => ?_⟩
  · rw [resolve_normals hdir]
    exact harrives.resolve_eq_ok maxLinks
  · rw [resolve_normals hdir, ← List.append_nil (disk.fdeBootType.behind path)]
    exact (harrives.resolve_append hlink).trans resolve_nil

theorem followLink_of_link {target : PathBuf} (hstays : disk.fdeBootType.StaysInside path)
    (h : Arrives disk.view [] path.components place) (hplace : place = "boot" :: name :: rest)
    (hlink : disk.view place = some (.link target)) :
    Leads disk.followLink path (path.join target) := by
  obtain ⟨real, last, hreal, hlast, hresolve, -⟩ := exists_real hstays h hplace
  refine leads_iff.mpr ⟨real, target, hreal, ?_, rfl⟩
  rw [OnExternalFdeDisk.readLink, hresolve]
  dsimp only
  rw [hlast, hlink]

theorem followLink_of_file {content : Bytes} (hstays : disk.fdeBootType.StaysInside path)
    (h : Arrives disk.view [] path.components place) (hplace : place = "boot" :: name :: rest)
    (hfile : disk.view place = some (.file content)) :
    disk.followLink path = .inr (.ok content) := by
  obtain ⟨real, last, hreal, hlast, hresolve, hopen⟩ := exists_real hstays h hplace
  rw [hfile] at hlast
  have hnone : disk.readLink real = none := by
    rw [OnExternalFdeDisk.readLink, hresolve]
    dsimp only
    rw [hlast]
  have hread : disk.readToEnd real = .ok content := by
    rw [OnExternalFdeDisk.readToEnd, hopen fun target htarget => by rw [hlast] at htarget; cases htarget]
    dsimp only
    rw [hlast]
  rw [followLink_of_not_link hreal hnone, hread]

end

end CryptPilot.Fde
