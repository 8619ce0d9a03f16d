import CryptPilot.Fde.ExternalView

/-!
# Which files of an external disk are read

`read_file_on_disk` joins the target of a link to the path of the link itself. So after a relative
target the next path leads through the link, and as that leads to a file in the end, it is no
directory. And a path can leave the partition to which it is mapped, by a `..` or by a directory
where the system has the other partition.

Both are fatal on a host that has nothing else (`lost_of_denotes`, `lost_of_leaves`). So the file
that a path denotes is read, whatever is on the host, exactly if all paths in the chain of links are
absolute and stay in the partition in which they begin (`readFileOnDisk_denotes_iff`).
-/

namespace CryptPilot.Fde

open CryptPilot.Data CryptPilot.Data.PathWalk CryptPilot.Data.Text CryptPilot.Core

/-! ## A host with nothing else

Whether a file is read may depend on what else the host has. To refute that it is read on every host
with the same disk, it is enough to find one on which the paths in question fail: the partitions are
mounted at `efi` and `main`, names that no path contains, and there is nothing beside them. -/

section
variable {disk : OnExternalFdeDisk} {partition : Partition} {rest : Place} {name : String}

theorem nodeIn_parent (h : disk.nodeIn partition (rest ++ [name]) ≠ none) :
    disk.nodeIn partition rest = some .dir := by
  cases hmount : disk.diskType.mount? partition with
  | none =>
    rw [OnExternalFdeDisk.nodeIn, hmount] at h
    exact absurd rfl h
  | some mount =>
    rw [OnExternalFdeDisk.nodeIn, hmount, Option.bind_some] at h ⊢
    rw [← List.append_assoc] at h
    exact disk.host.parent h

theorem finite_nodeIn (disk : OnExternalFdeDisk) (partition : Partition) :
    {rest | disk.nodeIn partition rest ≠ none}.Finite := by
  cases hmount : disk.diskType.mount? partition with
  | none => simp [OnExternalFdeDisk.nodeIn, hmount]
  | some mount =>
    refine (disk.host.finite.preimage (f := (mount ++ ·)) ?_).subset ?_
    · exact fun place _ place' _ heq => List.append_cancel_left heq
    · intro place hplace
      rwa [Set.mem_ofPred_eq, OnExternalFdeDisk.nodeIn, hmount, Option.bind_some] at hplace

theorem hidden_main_iff :
    disk.fdeBootType.Hidden .main rest ↔
      (disk.fdeBootType.base .main ++ rest).dropPrefix? ["boot", "efi"] ≠ none := by
  constructor
  · rintro ⟨-, place, hplace⟩
    rw [hplace, show "boot" :: "efi" :: place = ["boot", "efi"] ++ place from rfl,
      dropPrefix?_append_self]
    exact Option.some_ne_none _
  · intro h
    obtain ⟨place, hplace⟩ := Option.ne_none_iff_exists'.mp h
    obtain ⟨start, hstart, heq⟩ := List.dropPrefix?_eq_some_iff.mp hplace
    rw [eq_of_beq heq] at hstart
    exact ⟨rfl, place, hstart⟩

end

/-- The two partitions mounted in the root, and nothing else. What is hidden is not there. -/
def OnExternalFdeDisk.bareNode (disk : OnExternalFdeDisk) (efi main : String) :
    Place → Option (Node PathBuf)
  | [] => some .dir
  | name :: rest =>
    if name = efi then disk.nodeIn .efi rest
    else if name = main then
      if (disk.fdeBootType.base .main ++ rest).dropPrefix? ["boot", "efi"] = none then
        disk.nodeIn .main rest
      else none
    else none

def Partition.bareMount (efi main : String) : Partition → Place
  | .efi => [efi]
  | .main => [main]

def FdeBootType.mountedAt (efi main : String) : FdeBootType → ExternalDiskType
  | .noFde => .noFde [efi] [main]
  | .grub => .grub [main] [efi]
  | .uki => .uki [efi]

section
variable {disk : OnExternalFdeDisk} {efi main : String} {rest : Place}

theorem bareNode_efi : disk.bareNode efi main (efi :: rest) = disk.nodeIn .efi rest :=
  if_pos rfl

theorem bareNode_main (hne : main ≠ efi) (hhidden : ¬disk.fdeBootType.Hidden .main rest) :
    disk.bareNode efi main (main :: rest) = disk.nodeIn .main rest := by
  rw [hidden_main_iff, not_not] at hhidden
  rw [OnExternalFdeDisk.bareNode, if_neg hne, if_pos rfl, if_pos hhidden]

theorem bareNode_hidden (hne : main ≠ efi) (hhidden : disk.fdeBootType.Hidden .main rest) :
    disk.bareNode efi main (main :: rest) = none := by
  rw [hidden_main_iff] at hhidden
  rw [OnExternalFdeDisk.bareNode, if_neg hne, if_pos rfl, if_neg hhidden]

theorem bareNode_other {name : String} (hefi : name ≠ efi) (hmain : name ≠ main) :
    disk.bareNode efi main (name :: rest) = none := by
  rw [OnExternalFdeDisk.bareNode, if_neg hefi, if_neg hmain]

theorem nodeIn_nil {partition : Partition} {mount : Place}
    (hmount : disk.diskType.mount? partition = some mount) :
    disk.nodeIn partition [] = some .dir := by
  rw [OnExternalFdeDisk.nodeIn, hmount, Option.bind_some, List.append_nil, node_mount hmount]

theorem bareNode_parent (hne : main ≠ efi) {place : Place} {name : String}
    (h : disk.bareNode efi main (place ++ [name]) ≠ none) :
    disk.bareNode efi main place = some .dir := by
  cases place with
  | nil => rfl
  | cons first rest =>
    rw [List.cons_append] at h
    by_cases hefi : first = efi
    · subst hefi
      rw [bareNode_efi] at h ⊢
      exact nodeIn_parent h
    by_cases hmain : first = main
    · subst hmain
      by_cases hhidden : disk.fdeBootType.Hidden .main (rest ++ [name])
      · exact absurd (bareNode_hidden hne hhidden) h
      · have hrest := not_hidden_dropLast hhidden
        rw [List.dropLast_concat] at hrest
        rw [bareNode_main hne hhidden] at h
        rw [bareNode_main hne hrest]
        exact nodeIn_parent h
    · exact absurd (bareNode_other hefi hmain) h

theorem bareNode_finite (hne : main ≠ efi) :
    {place | disk.bareNode efi main place ≠ none}.Finite := by
  have hefi := (finite_nodeIn disk .efi).image (efi :: ·)
  have hmain := (finite_nodeIn disk .main).image (main :: ·)
  refine ((hefi.union hmain).insert []).subset fun place hplace => ?_
  cases place with
  | nil => exact .inl rfl
  | cons first rest =>
    refine .inr ?_
    by_cases hfirst : first = efi
    · subst hfirst
      exact .inl ⟨rest, hplace ∘ bareNode_efi.trans, rfl⟩
    by_cases hfirst' : first = main
    · subst hfirst'
      by_cases hhidden : disk.fdeBootType.Hidden .main rest
      · exact absurd (bareNode_hidden hne hhidden) hplace
      · exact .inr ⟨rest, hplace ∘ (bareNode_main hne hhidden).trans, rfl⟩
    · exact absurd (bareNode_other hfirst hfirst') hplace

theorem mount?_mountedAt (disk : OnExternalFdeDisk) (efi main : String) (partition : Partition) :
    (disk.fdeBootType.mountedAt efi main).mount? partition =
      (disk.diskType.mount? partition).map fun _ => partition.bareMount efi main := by
  rw [OnExternalFdeDisk.fdeBootType]
  cases disk.diskType <;> cases partition <;> rfl

/-- The same disk on this host. -/
def OnExternalFdeDisk.bare (disk : OnExternalFdeDisk) (efi main : String) (hne : main ≠ efi) :
    OnExternalFdeDisk where
  host :=
    { node := disk.bareNode efi main
      root := rfl
      parent := bareNode_parent hne
      finite := bareNode_finite hne }
  diskType := disk.fdeBootType.mountedAt efi main
  mounted := by
    intro mount hmount
    obtain ⟨partition, hpartition⟩ := ExternalDiskType.mem_mounts_iff.mp hmount
    rw [mount?_mountedAt] at hpartition
    obtain ⟨_, hmount', rfl⟩ := Option.map_eq_some_iff.mp hpartition
    cases partition with
    | efi => exact bareNode_efi.trans (nodeIn_nil hmount')
    | main => exact (bareNode_main hne not_hidden_nil).trans (nodeIn_nil hmount')

theorem fdeBootType_bare (hne : main ≠ efi) : (disk.bare efi main hne).fdeBootType = disk.fdeBootType := by
  show (disk.diskType.fdeBootType.mountedAt efi main).fdeBootType = disk.diskType.fdeBootType
  cases disk.diskType <;> rfl

theorem nodeIn_bare (hne : main ≠ efi) {partition : Partition}
    (hhidden : ¬disk.fdeBootType.Hidden partition rest) :
    (disk.bare efi main hne).nodeIn partition rest = disk.nodeIn partition rest := by
  have hmount : (disk.bare efi main hne).diskType.mount? partition =
      (disk.diskType.mount? partition).map fun _ => partition.bareMount efi main :=
    mount?_mountedAt disk efi main partition
  cases hdisk : disk.diskType.mount? partition with
  | none => rw [OnExternalFdeDisk.nodeIn, hmount, OnExternalFdeDisk.nodeIn, hdisk]; rfl
  | some mount =>
    rw [OnExternalFdeDisk.nodeIn, hmount, hdisk]
    cases partition with
    | efi => exact bareNode_efi
    | main => exact bareNode_main hne hhidden

/-- The system does not see the difference. -/
theorem view_bare (hne : main ≠ efi) : (disk.bare efi main hne).view = disk.view := by
  funext place
  rw [OnExternalFdeDisk.view, OnExternalFdeDisk.view, fdeBootType_bare]
  cases hefi : place.dropPrefix? ["boot", "efi"] with
  | some rest => exact nodeIn_bare hne not_hidden_efi
  | none =>
    dsimp only
    cases hmain : place.dropPrefix? (disk.fdeBootType.base .main) with
    | none => rfl
    | some rest =>
      obtain ⟨start, hplace, hstart⟩ := List.dropPrefix?_eq_some_iff.mp hmain
      rw [eq_of_beq hstart] at hplace
      rw [Option.bind_some, Option.bind_some, nodeIn_bare hne]
      rw [hidden_main_iff, ← hplace, hefi]
      exact fun h => h rfl

end

/-! ## Paths that get lost -/

/-- A host on which nothing is found outside of the partitions, and nothing that is hidden. -/
structure IsBare (disk : OnExternalFdeDisk) (efi main : String) : Prop where
  mount : ∀ partition mount, disk.diskType.mount? partition = some mount → mount.dropLast = []
  hidden : ∀ partition mount place, disk.diskType.mount? partition = some mount →
    disk.fdeBootType.Hidden partition place → disk.host.node (mount ++ place) = none
  root : ∀ name, name ≠ efi → name ≠ main → disk.host.node [name] = none

/-- Components without the names of the mount points. -/
def Avoids (efi main : String) (components : List Component) : Prop :=
  ∀ name, .normal name ∈ components → name ≠ efi ∧ name ≠ main

/-- A walk that fails, or ends at a directory. -/
def Lost (disk : OnExternalFdeDisk) (result : Except IoError Place) : Prop :=
  ∀ place, result = .ok place → disk.host.node place = some .dir

theorem isBare_bare {disk : OnExternalFdeDisk} {efi main : String} (hne : main ≠ efi) :
    IsBare (disk.bare efi main hne) efi main := by
  have hbare : ∀ partition mount, (disk.bare efi main hne).diskType.mount? partition = some mount →
      mount = partition.bareMount efi main := by
    intro partition mount hmount
    rw [show (disk.bare efi main hne).diskType = disk.fdeBootType.mountedAt efi main from rfl,
      mount?_mountedAt] at hmount
    obtain ⟨_, -, rfl⟩ := Option.map_eq_some_iff.mp hmount
    rfl
  refine ⟨fun partition mount hmount => ?_, fun partition mount place hmount hhidden => ?_,
    fun name => bareNode_other⟩
  · rw [hbare partition mount hmount]
    cases partition <;> rfl
  · rw [hbare partition mount hmount]
    rw [fdeBootType_bare] at hhidden
    obtain ⟨rfl, -⟩ := id hhidden
    exact bareNode_hidden hne hhidden

section
variable {disk : OnExternalFdeDisk} {efi main : String} (hbare : IsBare disk efi main)
  {followLast : Bool} {budget : Nat} {components rest : List Component} {partition : Partition}
  {mount place : Place}

theorem lost_error {error : IoError} : Lost disk (.error error) := nofun

theorem Avoids.append (h : Avoids efi main components) (hrest : Avoids efi main rest) :
    Avoids efi main (components ++ rest) := by
  intro name hname
  rcases List.mem_append.mp hname with hname | hname
  · exact h name hname
  · exact hrest name hname

theorem Avoids.behind {path : PathBuf} (h : Avoids efi main path.components) :
    Avoids efi main (disk.fdeBootType.behind path) :=
  fun name hname => h name (List.mem_of_mem_drop hname)

theorem Avoids.tail {component : Component} (h : Avoids efi main (component :: rest)) :
    Avoids efi main rest := fun name hname => h name (List.mem_cons_of_mem _ hname)

include hbare

/-- From the root, nothing is found. -/
theorem lost_root (h : Avoids efi main components) :
    Lost disk (resolve disk.host.node followLast budget [] components) := by
  induction components with
  | nil =>
    rw [resolve_nil]
    rintro place ⟨⟩
    exact disk.host.root
  | cons component components ih =>
    cases component with
    | parentDir =>
      rw [resolve_parentDir disk.host.root]
      exact ih h.tail
    | normal name =>
      obtain ⟨hefi, hmain⟩ := h name List.mem_cons_self
      rw [resolve_of_none disk.host.root (hbare.root name hefi hmain)]
      exact lost_error

theorem lost_hidden {name : String} (hmount : disk.diskType.mount? partition = some mount)
    (hdir : disk.host.node (mount ++ place) = some .dir)
    (h : disk.fdeBootType.Hidden partition (place ++ [name])) :
    Lost disk (resolve disk.host.node followLast budget (mount ++ place) (.normal name :: rest)) := by
  have hnone := hbare.hidden partition mount _ hmount h
  rw [← List.append_assoc] at hnone
  rw [resolve_of_none hdir hnone]
  exact lost_error

/-- **Outside of its partition, a path is lost.** -/
theorem lost_of_leaves (hmount : disk.diskType.mount? partition = some mount) {found : Place}
    (hhidden : ¬disk.fdeBootType.Hidden partition place)
    (hstays : ¬disk.fdeBootType.Stays partition place components)
    (h : Arrives disk.view (disk.fdeBootType.base partition ++ place) components found)
    (havoids : Avoids efi main (components ++ rest)) (followLast : Bool) (budget : Nat) :
    Lost disk (resolve disk.host.node followLast budget (mount ++ place) (components ++ rest)) := by
  generalize hstart : disk.fdeBootType.base partition ++ place = start at h
  -- along the walk of the system, which the host follows until the path leaves the partition
  induction h generalizing place with
  | nil => exact absurd trivial hstays
  | parentDir hdir _ ih =>
    subst hstart
    rw [view_base hmount hhidden] at hdir
    rw [List.cons_append, resolve_parentDir hdir]
    by_cases hne : place = []
    · subst hne
      rw [List.append_nil, hbare.mount partition mount hmount]
      exact lost_root hbare havoids.tail
    · rw [List.dropLast_append_of_ne_nil hne]
      exact ih (not_hidden_dropLast hhidden) (fun h => hstays ⟨hne, h⟩) havoids.tail
        (List.dropLast_append_of_ne_nil hne).symm
  | @normal _ last name components found hdir hname hlink _ ih =>
    subst hstart
    rw [view_base hmount hhidden] at hdir
    by_cases hinto : disk.fdeBootType.Hidden partition (place ++ [name])
    · exact lost_hidden hbare hmount hdir hinto
    · rw [List.append_assoc, view_base hmount hinto, ← List.append_assoc] at hname
      rw [List.cons_append, resolve_of_not_link hdir hname hlink, List.append_assoc]
      exact ih hinto (fun h => hstays ⟨hinto, h⟩) havoids.tail (List.append_assoc ..).symm
  | @link _ name target hdir hname =>
    subst hstart
    rw [view_base hmount hhidden] at hdir
    by_cases hinto : disk.fdeBootType.Hidden partition (place ++ [name])
    · exact lost_hidden hbare hmount hdir hinto
    · exact absurd ⟨hinto, trivial⟩ hstays

/-- **Behind a link, a path is lost.** The link leads to a file in the end, which is no directory. -/
theorem lost_of_denotes (htargets : ∀ place target, disk.view place = some (.link target) →
      Avoids efi main target.components)
    (hmount : disk.diskType.mount? partition = some mount)
    (hhidden : ¬disk.fdeBootType.Hidden partition place)
    (hdir : disk.host.node (mount ++ place) = some .dir) {content : Bytes}
    (h : Denotes disk.view (disk.fdeBootType.base partition ++ place) components content)
    (hcomponents : Avoids efi main components) (hrest : Avoids efi main rest) (hne : rest ≠ [])
    (followLast : Bool) (budget : Nat) :
    Lost disk (resolve disk.host.node followLast budget (mount ++ place) (components ++ rest)) := by
  generalize hstart : disk.fdeBootType.base partition ++ place = start at h
  induction h generalizing place budget with
  | @file start found under name components content harrives hunder hfile =>
    subst hstart
    by_cases hstays : disk.fdeBootType.Stays partition place components
    swap
    · exact lost_of_leaves hbare hmount hhidden hstays harrives (hcomponents.append hrest) _ _
    obtain ⟨last, rfl, hlast, hhost⟩ := arrives_of_stays hmount hhidden hstays harrives
    rw [view_base hmount hlast] at hfile
    have hlink : ∀ target, disk.host.node (mount ++ last) ≠ some (.link target) := by
      simp [hfile]
    rw [hhost.resolve_append hlink, resolve_of_not_dir (by simp [hfile]) hne]
    exact lost_error
  | @link start found under name components target content harrives hunder hlink _ ih =>
    subst hstart
    by_cases hstays : disk.fdeBootType.Stays partition place components
    swap
    · exact lost_of_leaves hbare hmount hhidden hstays harrives (hcomponents.append hrest) _ _
    obtain ⟨last, rfl, hlast, hhost⟩ := arrives_of_stays hmount hhidden hstays harrives
    have htarget := htargets _ _ hlink
    rw [view_base hmount hlast] at hlink
    have hbehind := hhost.resolve_append_link (by simp [hdir]) hlink hne followLast
    cases budget with
    | zero =>
      rw [(hbehind 0).1]
      exact lost_error
    | succ budget =>
      rw [(hbehind budget).2]
      split_ifs at ih ⊢ with habsolute
      · exact lost_root hbare (htarget.append hrest)
      · -- a link is not the root of the partition
        have hlast' : last ≠ [] := by
          rintro rfl
          rw [List.append_nil, node_mount hmount] at hlink
          cases hlink
        have hparent : disk.host.node (mount ++ last.dropLast) = some .dir := by
          rw [← List.dropLast_append_of_ne_nil hlast']
          exact FileTree.parent_dropLast hlink
        rw [List.dropLast_append_of_ne_nil hlast'] at ih ⊢
        exact ih (not_hidden_dropLast hlast) hparent htarget budget rfl

end

/-! ## Reading a file -/

section
variable {disk : OnExternalFdeDisk} {path : PathBuf} {real : List Component}

/-- A path that gets lost can not be read. -/
theorem followLink_of_lost (hreal : disk.diskType.resolvePathOnRealDisk path = .ok real)
    (hlost : ∀ followLast, Lost disk (resolve disk.host.node followLast maxLinks [] real)) :
    ∃ error, disk.followLink path = .inr (.error error) := by
  have hnone : disk.readLink real = none := by
    by_contra hsome
    obtain ⟨target, htarget⟩ := Option.ne_none_iff_exists'.mp hsome
    obtain ⟨found, hfound, hlink⟩ := readLink_eq_some htarget
    rw [hlost false found hfound] at hlink
    cases hlink
  have hread : ∃ error, disk.readToEnd real = .error error := by
    rw [OnExternalFdeDisk.readToEnd]
    split
    · rename_i place hplace
      rw [hlost true place hplace]
      exact ⟨_, rfl⟩
    · exact ⟨_, rfl⟩
  obtain ⟨error, herror⟩ := hread
  exact ⟨error, by rw [followLink_of_not_link hreal hnone, herror]⟩

theorem not_read_of_error {content : Bytes} {error : ReadError}
    (h : disk.followLink path = .inr (.error error)) :
    ¬∃ fuel, disk.readFileOnDisk fuel path = some (.ok content) := by
  rintro ⟨fuel, hfuel⟩
  have hone : disk.readFileOnDisk 1 path = some (.error error) := loop_of_result h
  cases loop_unique hone hfuel

theorem followLink_of_unresolved
    (h : ∀ real, disk.diskType.resolvePathOnRealDisk path ≠ .ok real) :
    ∃ error, disk.followLink path = .inr (.error error) := by
  rw [OnExternalFdeDisk.followLink]
  cases hreal : disk.diskType.resolvePathOnRealDisk path with
  | error error => exact ⟨error, rfl⟩
  | ok real => exact absurd hreal (h real)

theorem mem_targets_of_view {place : Place} {target : PathBuf}
    (h : disk.view place = some (.link target)) : target ∈ disk.targets := by
  have hnode : ∀ partition rest, disk.nodeIn partition rest = some (.link target) →
      target ∈ disk.targets := by
    intro partition rest hnode
    obtain ⟨mount, -, hmount⟩ := Option.bind_eq_some_iff.mp hnode
    exact ⟨mount ++ rest, hmount⟩
  rw [OnExternalFdeDisk.view] at h
  split at h
  · exact hnode _ _ h
  · split_ifs at h
    · cases h
    · obtain ⟨rest, -, hrest⟩ := Option.bind_eq_some_iff.mp h
      exact hnode _ _ hrest

/-- There is a host with nothing else, and with mount points that no path names. -/
theorem exists_bare (disk : OnExternalFdeDisk) (components : List Component) :
    ∃ (disk' : OnExternalFdeDisk) (efi main : String), disk'.fdeBootType = disk.fdeBootType ∧
      disk'.view = disk.view ∧ IsBare disk' efi main ∧ Avoids efi main components ∧
      ∀ place target, disk'.view place = some (.link target) →
        Avoids efi main target.components := by
  have hinjective : Function.Injective Component.normal := fun _ _ h => Component.normal.inj h
  have hnames : ∀ components : List Component, {name | .normal name ∈ components}.Finite :=
    fun components => components.finite_toSet.preimage hinjective.injOn
  have hfinite := (hnames components).union
    ((finite_targets disk).biUnion fun target _ => hnames target.components)
  obtain ⟨efi, hefi⟩ := hfinite.exists_notMem
  obtain ⟨main, hmain⟩ := (hfinite.insert efi).exists_notMem
  rw [Set.mem_insert_iff, not_or] at hmain
  obtain ⟨hne, hmain⟩ := hmain
  refine ⟨disk.bare efi main hne, efi, main, fdeBootType_bare hne, view_bare hne, isBare_bare hne,
    ?_, ?_⟩
  · intro name hname
    exact ⟨fun heq => hefi (.inl (heq ▸ hname)), fun heq => hmain (.inl (heq ▸ hname))⟩
  · intro place target htarget name hname
    rw [view_bare] at htarget
    have hmem := mem_targets_of_view htarget
    exact ⟨fun heq => hefi (.inr (Set.mem_biUnion hmem (heq ▸ hname))),
      fun heq => hmain (.inr (Set.mem_biUnion hmem (heq ▸ hname)))⟩

end

section
variable {disk : OnExternalFdeDisk} {efi main : String} (hbare : IsBare disk efi main)
  {path : PathBuf} {place rest : Place} {name : String} {content : Bytes}
  (h : Arrives disk.view [] path.components place) (hplace : place = "boot" :: name :: rest)
  (havoids : Avoids efi main path.components)
include hbare h hplace havoids

/-- A path that leaves its partition can not be read. -/
theorem staysInside_of_read (hread : ∃ fuel, disk.readFileOnDisk fuel path = some (.ok content)) :
    disk.fdeBootType.StaysInside path := by
  by_contra hnot
  have hfails : ∃ error, disk.followLink path = .inr (.error error) := by
    by_cases hboot : startsWith path ["boot"] = true
    swap
    · refine followLink_of_unresolved fun real hreal => hboot ?_
      exact (ExternalDiskType.resolvePathOnRealDisk_eq_ok_iff.mp hreal).1
    have hstays : ¬disk.fdeBootType.Stays (.ofPath path) [] (disk.fdeBootType.behind path) :=
      fun hstays => hnot ⟨hboot, hstays⟩
    cases hmount : disk.diskType.mount? (.ofPath path) with
    | none =>
      refine followLink_of_unresolved fun real hreal => ?_
      obtain ⟨-, mount, hmount', -⟩ := ExternalDiskType.resolvePathOnRealDisk_eq_ok_iff.mp hreal
      rw [hmount] at hmount'
      cases hmount'
    | some mount =>
      refine followLink_of_lost (ExternalDiskType.resolvePathOnRealDisk_eq_ok_iff.mpr
        ⟨hboot, mount, hmount, rfl⟩) fun followLast => ?_
      have hdir : disk.host.node ([] ++ mount) = some .dir := node_mount hmount
      have hbehind : Avoids efi main (disk.fdeBootType.behind path ++ []) := by
        rw [List.append_nil]
        exact havoids.behind
      have hlost := lost_of_leaves hbare hmount not_hidden_nil hstays (arrives_base hboot h hplace)
        hbehind followLast maxLinks
      rw [List.append_nil, List.append_nil] at hlost
      rw [resolve_normals hdir]
      exact hlost
  obtain ⟨error, herror⟩ := hfails
  exact not_read_of_error herror hread

/-- A path with a relative link can not be read. -/
theorem isAbsolute_of_read {target : PathBuf}
    (htargets : ∀ place target, disk.view place = some (.link target) →
      Avoids efi main target.components)
    (hstays : disk.fdeBootType.StaysInside path) (hlink : disk.view place = some (.link target))
    (hdenotes : Denotes disk.view (if target.isAbsolute then [] else place.dropLast)
      target.components content)
    (hread : ∃ fuel, disk.readFileOnDisk fuel path = some (.ok content)) :
    target.isAbsolute = true := by
  by_contra hrelative
  obtain ⟨fuel, hfuel⟩ := hread
  have hnext : Leads disk.followLink path
      { path with components := path.components ++ target.components } := by
    have hleads := followLink_of_link hstays h hplace hlink
    rwa [PathBuf.join, if_neg hrelative] at hleads
  by_cases hne : target.components = []
  · -- the next path is the same one
    rw [hne, List.append_nil] at hnext
    exact Ends.acyclic ⟨fuel, _, hfuel⟩ (.single hnext)
  obtain ⟨mount, hmount⟩ := exists_mount hstays h hplace
  have hdir : disk.host.node ([] ++ mount) = some .dir := node_mount hmount
  have hlength : 2 ≤ path.components.length := by
    have hle := h.length_le
    rw [hplace, List.length_cons, List.length_cons, List.length_nil] at hle
    omega
  have hreal : disk.diskType.resolvePathOnRealDisk
      { path with components := path.components ++ target.components } =
        .ok (normals mount ++ disk.fdeBootType.behind path ++ target.components) :=
    ExternalDiskType.resolvePathOnRealDisk_append
      (ExternalDiskType.resolvePathOnRealDisk_eq_ok_iff.mpr ⟨hstays.1, mount, hmount, rfl⟩) hlength
  obtain ⟨error, herror⟩ := followLink_of_lost hreal fun followLast => by
    have hlost := lost_of_denotes hbare htargets hmount not_hidden_nil
      (by rw [List.append_nil]; exact hdir)
      (.link (arrives_base hstays.1 h hplace) hplace hlink hdenotes) havoids.behind
      (htargets _ _ hlink) hne followLast maxLinks
    rw [List.append_nil] at hlost
    rwa [List.append_assoc, resolve_normals hdir]
  cases fuel with
  | zero => cases hfuel
  | succ fuel =>
    rw [OnExternalFdeDisk.readFileOnDisk, loop_of_leads hnext] at hfuel
    exact not_read_of_error herror ⟨fuel, hfuel⟩

end

/-- **What is read** on a disk with some files, whatever else is on the host and on the disk. It is
what the path denotes for the disk's own system exactly if every path in the chain of links is
absolute, begins with `/boot` and stays in the partition in which it begins. -/
theorem readFileOnDisk_denotes_iff {disk : OnExternalFdeDisk} {path : PathBuf} {content : Bytes}
    (h : Denotes disk.view [] path.components content) :
    (∀ disk' : OnExternalFdeDisk, disk'.fdeBootType = disk.fdeBootType → disk'.view = disk.view →
        ∃ fuel, disk'.readFileOnDisk fuel path = some (.ok content)) ↔
      ∀ path', Relation.ReflTransGen (Follows disk.view) path path' →
        disk.fdeBootType.StaysInside path' := by
  generalize hstart : ([] : Place) = start at h
  generalize hcomponents : path.components = components at h
  induction h generalizing path with
  | file harrives hplace hfile =>
    subst hstart hcomponents
    have hlast : ∀ path', ¬Follows disk.view path path' := by
      rintro path' ⟨place', harrives', hlink⟩
      rw [harrives.unique harrives', hfile] at hlink
      cases hlink
    constructor
    · intro hread path' hpath'
      obtain ⟨disk', efi, main, hboot, hview, hbare, havoids, -⟩ := exists_bare disk path.components
      rcases Relation.ReflTransGen.cases_head hpath' with rfl | ⟨next, hnext, -⟩
      · rw [← hboot]
        rw [← hview] at harrives
        exact staysInside_of_read hbare harrives hplace havoids (hread disk' hboot hview)
      · exact absurd hnext (hlast next)
    · intro hstays disk' hboot hview
      have hinside := hstays path .refl
      rw [← hboot] at hinside
      rw [← hview] at harrives hfile
      exact ⟨1, loop_of_result (followLink_of_file hinside harrives hplace hfile)⟩
  | @link start place rest name components target content harrives hplace hlink hdenotes ih =>
    subst hstart hcomponents
    have hfollows : ∀ path', Follows disk.view path path' ↔ path' = target := by
      intro path'
      constructor
      · rintro ⟨place', harrives', hlink'⟩
        rw [harrives.unique harrives', hlink] at hlink'
        cases hlink'
        rfl
      · rintro rfl
        exact ⟨place, harrives, hlink⟩
    -- the loop goes on with the target
    have hleads : ∀ disk' : OnExternalFdeDisk, disk'.fdeBootType = disk.fdeBootType →
        disk'.view = disk.view → disk.fdeBootType.StaysInside path → target.isAbsolute = true →
        Leads disk'.followLink path target := by
      intro disk' hboot hview hinside habsolute
      rw [← hboot] at hinside
      rw [← hview] at harrives hlink
      have hjoin := followLink_of_link hinside harrives hplace hlink
      rwa [PathBuf.join, if_pos habsolute] at hjoin
    constructor
    · intro hread path' hpath'
      obtain ⟨disk', efi, main, hboot, hview, hbare, havoids, htargets⟩ :=
        exists_bare disk path.components
      have hinside : disk'.fdeBootType.StaysInside path := by
        rw [← hview] at harrives
        exact staysInside_of_read hbare harrives hplace havoids (hread disk' hboot hview)
      have habsolute : target.isAbsolute = true := by
        rw [← hview] at harrives hlink hdenotes
        exact isAbsolute_of_read hbare harrives hplace havoids htargets hinside hlink hdenotes
          (hread disk' hboot hview)
      rw [hboot] at hinside
      rcases Relation.ReflTransGen.cases_head hpath' with rfl | ⟨next, hnext, hrest⟩
      · exact hinside
      rw [hfollows] at hnext
      subst hnext
      refine (ih (if_pos habsolute).symm rfl).mp (fun disk'' hboot' hview' => ?_) path' hrest
      obtain ⟨fuel, hfuel⟩ := hread disk'' hboot' hview'
      cases fuel with
      | zero => cases hfuel
      | succ fuel =>
        refine ⟨fuel, ?_⟩
        rwa [OnExternalFdeDisk.readFileOnDisk,
          loop_of_leads (hleads disk'' hboot' hview' hinside habsolute)] at hfuel
    · intro hstays disk' hboot hview
      have htarget : Relation.ReflTransGen (Follows disk.view) path target :=
        .single ((hfollows target).mpr rfl)
      have habsolute : target.isAbsolute = true :=
        (startsWith_iff.mp (hstays target htarget).1).1
      obtain ⟨fuel, hfuel⟩ := (ih (if_pos habsolute).symm rfl).mpr
        (fun path' hpath' => hstays path' (htarget.trans hpath')) disk' hboot hview
      refine ⟨fuel + 1, ?_⟩
      rwa [OnExternalFdeDisk.readFileOnDisk,
        loop_of_leads (hleads disk' hboot hview (hstays path .refl) habsolute)]

/-! A boot partition with a kernel, and links to it. -/

def kernelPath : PathBuf := ⟨true, [.normal "boot", .normal "vmlinuz-5.10"]⟩

def kernelLink : PathBuf := ⟨true, [.normal "boot", .normal "vmlinuz"]⟩

def kernelEntries (target : PathBuf) : List (Place × Node PathBuf) :=
  [(["b"], .dir), (["e"], .dir), (["b", "vmlinuz-5.10"], .file [1]), (["b", "vmlinuz"], .link target)]

def kernelDisk (target : PathBuf) : OnExternalFdeDisk where
  host := .ofEntries (kernelEntries target) (by
    intro entry hentry
    simp only [kernelEntries, List.mem_cons, List.not_mem_nil, or_false] at hentry
    rcases hentry with rfl | rfl | rfl | rfl <;> rfl)
  diskType := .grub ["b"] ["e"]
  mounted := by
    intro mount hmount
    rcases List.mem_pair.mp hmount with rfl | rfl <;> rfl

/-- The target as it is usual, and the one that the code can handle. -/
def relativeTarget : PathBuf := ⟨false, [.normal "vmlinuz-5.10"]⟩

theorem denotes_kernelLink {target : PathBuf} (h : target = relativeTarget ∨ target = kernelPath) :
    Denotes (kernelDisk target).view [] kernelLink.components [1] := by
  have hboot : (kernelDisk target).view [] = some .dir ∧
      (kernelDisk target).view ["boot"] = some .dir ∧
      (kernelDisk target).view ["boot", "vmlinuz-5.10"] = some (.file [1]) ∧
      (kernelDisk target).view ["boot", "vmlinuz"] = some (.link target) := ⟨rfl, rfl, rfl, rfl⟩
  obtain ⟨hroot, hdir, hfile, hlink⟩ := hboot
  refine .link (.normal hroot hdir nofun (.link hdir hlink)) rfl hlink ?_
  rcases h with rfl | rfl
  · exact .file (.normal hdir hfile nofun (.nil _)) rfl hfile
  · exact .file (.normal hroot hdir nofun (.normal hdir hfile nofun (.nil _))) rfl hfile

theorem readFileOnDisk_denotes_iff_kernel :
    (∀ disk' : OnExternalFdeDisk, disk'.fdeBootType = .grub →
        disk'.view = (kernelDisk kernelPath).view →
        ∃ fuel, disk'.readFileOnDisk fuel kernelLink = some (.ok [1])) ↔
      ∀ path', Relation.ReflTransGen (Follows (kernelDisk kernelPath).view) kernelLink path' →
        FdeBootType.grub.StaysInside path' :=
  readFileOnDisk_denotes_iff (denotes_kernelLink (.inr rfl))

/-- The usual link to a kernel can not be read. -/
theorem readFileOnDisk_relative :
    Denotes (kernelDisk relativeTarget).view [] kernelLink.components [1] ∧
      (kernelDisk relativeTarget).readFileOnDisk 2 kernelLink =
        some (.error (.io .notADirectory)) :=
  ⟨denotes_kernelLink (.inl rfl), by decide +kernel⟩

end CryptPilot.Fde
