import CryptPilot.Core.Operations
import CryptPilot.Data.Except
import CryptPilot.Data.FileTree
import CryptPilot.Data.Utf8
import Mathlib.Data.List.ReduceOption

/-!
# The files of GRUB on an EFI partition

`load_grub_artifacts` of `disk/grub.rs`. A first walk of the partition finds the directories that
contain a `grubx64.efi`. Then each of them is walked for the files that are measured. Both walks go
into subdirectories, and a file that comes later replaces an earlier one.

So what is found for a directory need not be in it, and which of several files is found depends on
the order in which the directories are listed. `loadGrubArtifacts_iff` is the exact condition under
which this makes no difference.
-/

namespace CryptPilot.Fde

open CryptPilot.Data CryptPilot.Core

/-! ## The code -/

/-- What a file is for. -/
inductive ArtifactKind where
  | grub
  | shim
  | grubEnv
  | grubCfg
  deriving DecidableEq

/-- The names are compared in lower case. Their characters are the lower case of no character beyond
ASCII. -/
def ArtifactKind.ofName (name : String) : Option ArtifactKind :=
  let name := name.toList.map Char.toLower
  if name = "grubx64.efi".toList then some .grub
  else if name = "shimx64.efi".toList ∨ name = "shim.efi".toList then some .shim
  else if name = "grubenv".toList then some .grubEnv
  else if name = "grub.cfg".toList then some .grubCfg
  else none

structure GrubArtifacts where
  efiGrubDir : Place
  grubData : Bytes
  shimData : Bytes
  grubEnv : Option String
  grubCfg : Option String
  deriving DecidableEq

/-- `read_to_string`. -/
def readToString (content : Bytes) : Except String String :=
  match decodeUtf8 content with
  | some text => .ok text
  | none => .error "stream did not contain valid UTF-8"

section
variable {τ : Type} (tree : FileTree τ)

/-- What a regular file is for, and its content. -/
def artifactAt (place : Place) : Option (ArtifactKind × Bytes) :=
  match tree.node place, place.getLast? with
  | some (.file content), some name => (ArtifactKind.ofName name).map (·, content)
  | _, _ => none

/-- The loop that collects `grub_dirs`. -/
def addGrubDir (dirs : List Place) (place : Place) : List Place :=
  match artifactAt tree place with
  | some (.grub, _) => dirs.insert place.dropLast
  | _ => dirs

def grubDirs (listing : List Place) : List Place := listing.foldl (addGrubDir tree) []

/-- What was found in a directory so far. -/
structure Scan where
  grubData : Option Bytes := none
  shimData : Option Bytes := none
  grubEnv : Option String := none
  grubCfg : Option String := none

/-- One step of the loop over a directory. -/
def scanEntry (scan : Scan) (place : Place) : Except String Scan :=
  match artifactAt tree place with
  | some (.grub, content) => .ok { scan with grubData := some content }
  | some (.shim, content) => .ok { scan with shimData := some content }
  | some (.grubEnv, content) => do
    let text ← readToString content
    return { scan with grubEnv := some text }
  | some (.grubCfg, content) => do
    let text ← readToString content
    return { scan with grubCfg := some text }
  | none => .ok scan

/-- A directory with its walk. It is skipped if one of the binaries is missing. -/
def loadGrubDir (dir : Place) (listing : List Place) : Except String (Option GrubArtifacts) := do
  let scan ← listing.foldlM (scanEntry tree) {}
  match scan.grubData, scan.shimData with
  | some grubData, some shimData =>
    return some ⟨dir, grubData, shimData, scan.grubEnv, scan.grubCfg⟩
  | _, _ => return none

/-- The orders in which the partition and its directories are walked, and in which a `HashSet` gives
its elements. -/
structure Listing where
  outer : List Place
  inner : Place → List Place
  iterate : List Place → List Place
  walk_outer : tree.WalkDir [] outer
  walk_inner : ∀ dir, tree.WalkDir dir (inner dir)
  perm_iterate : ∀ dirs, (iterate dirs).Perm dirs

variable {tree}

/-- `load_grub_artifacts`. -/
def loadGrubArtifacts (efiPartRootDir : String) (listing : Listing tree) :
    Except String (List GrubArtifacts) := do
  let dirs := grubDirs tree listing.outer
  if dirs.isEmpty then .error s!"No grubx64.efi found under {efiPartRootDir}"
  else
    let loaded ← (listing.iterate dirs).mapM fun dir => loadGrubDir tree dir (listing.inner dir)
    if loaded.reduceOption.isEmpty then
      .error "Found grubx64.efi directories but failed to load complete artifacts from any"
    else .ok loaded.reduceOption

end

/-! ## What is found -/

/-- The content of a file that was found, of a text in UTF-8. -/
def Scan.data (scan : Scan) : ArtifactKind → Option Bytes
  | .grub => scan.grubData
  | .shim => scan.shimData
  | .grubEnv => scan.grubEnv.map encodeUtf8
  | .grubCfg => scan.grubCfg.map encodeUtf8

def GrubArtifacts.data (artifacts : GrubArtifacts) : ArtifactKind → Option Bytes
  | .grub => some artifacts.grubData
  | .shim => some artifacts.shimData
  | .grubEnv => artifacts.grubEnv.map encodeUtf8
  | .grubCfg => artifacts.grubCfg.map encodeUtf8

theorem GrubArtifacts.ext_data {a b : GrubArtifacts} (hdir : a.efiGrubDir = b.efiGrubDir)
    (hdata : ∀ kind, a.data kind = b.data kind) : a = b := by
  have hinj : Function.Injective encodeUtf8 := fun _ _ => encodeUtf8_inj
  obtain ⟨dir, grub, shim, env, cfg⟩ := a
  obtain ⟨dir', grub', shim', env', cfg'⟩ := b
  obtain rfl : dir = dir' := hdir
  obtain rfl : grub = grub' := Option.some.inj (hdata .grub)
  obtain rfl : shim = shim' := Option.some.inj (hdata .shim)
  obtain rfl : env = env' := Option.map_injective hinj (hdata .grubEnv)
  obtain rfl : cfg = cfg' := Option.map_injective hinj (hdata .grubCfg)
  rfl

/-- The files that are read as texts. -/
def ArtifactKind.IsText : ArtifactKind → Prop
  | .grub | .shim => False
  | .grubEnv | .grubCfg => True

/-- A file that can be read. -/
def Readable : ArtifactKind × Bytes → Prop
  | (kind, content) => kind.IsText → decodeUtf8 content ≠ none

section
variable {τ : Type} {tree : FileTree τ} {scan scan' : Scan} {kind : ArtifactKind} {content : Bytes}
  {place dir : Place} {listing : List Place}

theorem readToString_eq_ok {text : String} (h : readToString content = .ok text) :
    encodeUtf8 text = content := by
  rw [readToString] at h
  split at h
  · rename_i hdecode
    cases h
    exact decodeUtf8_eq_some_iff.mp hdecode
  · cases h

theorem exists_readToString_iff :
    (∃ text, readToString content = .ok text) ↔ decodeUtf8 content ≠ none := by
  rw [readToString]
  split <;> simp_all

/-- The file at a place, if it is of some kind. -/
def contentAt (tree : FileTree τ) (kind : ArtifactKind) (place : Place) : Option Bytes :=
  (artifactAt tree place).bind fun artifact => if artifact.1 = kind then some artifact.2 else none

theorem contentAt_eq_some_iff :
    contentAt tree kind place = some content ↔ artifactAt tree place = some (kind, content) := by
  rw [contentAt, Option.bind_eq_some_iff]
  constructor
  · rintro ⟨⟨kind', content'⟩, hartifact, h⟩
    split_ifs at h with hkind
    cases h
    rw [← hkind, hartifact]
  · intro h
    exact ⟨_, h, if_pos rfl⟩

/-- A step replaces what was found before. -/
theorem data_of_scanEntry (h : scanEntry tree scan place = .ok scan') (kind : ArtifactKind) :
    scan'.data kind = (contentAt tree kind place).or (scan.data kind) := by
  rw [scanEntry] at h
  rw [contentAt]
  split at h
  case h_1 hartifact | h_2 hartifact =>
    cases h
    rw [hartifact]
    cases kind <;> rfl
  case h_3 hartifact | h_4 hartifact =>
    obtain ⟨text, htext, h⟩ := bind_eq_ok h
    cases h
    rw [hartifact, ← readToString_eq_ok htext]
    cases kind <;> rfl
  case h_5 hartifact =>
    cases h
    rw [hartifact]
    rfl

theorem exists_scanEntry_iff (scan : Scan) (place : Place) :
    (∃ scan', scanEntry tree scan place = .ok scan') ↔
      ∀ artifact, artifactAt tree place = some artifact → Readable artifact := by
  rw [scanEntry]
  split
  case h_1 hartifact | h_2 hartifact =>
    rw [hartifact]
    simp only [Option.some.injEq, forall_eq']
    exact iff_of_true ⟨_, rfl⟩ fun h => h.elim
  case h_3 hartifact | h_4 hartifact =>
    rw [hartifact, exists_bind_pure_iff, exists_readToString_iff]
    simp only [Option.some.injEq, forall_eq']
    exact ⟨fun h _ => h, fun h => h trivial⟩
  case h_5 hartifact =>
    rw [hartifact]
    exact iff_of_true ⟨_, rfl⟩ nofun

/-- The loop finds the last file of each kind. -/
theorem data_of_foldlM (h : listing.foldlM (scanEntry tree) scan = .ok scan')
    (kind : ArtifactKind) :
    scan'.data kind = (listing.filterMap (contentAt tree kind)).getLast?.or (scan.data kind) := by
  induction listing generalizing scan with
  | nil =>
    cases h
    rfl
  | cons place listing ih =>
    rw [List.foldlM_cons] at h
    obtain ⟨next, hnext, h⟩ := bind_eq_ok h
    rw [ih h, data_of_scanEntry hnext, List.filterMap_cons]
    cases contentAt tree kind place with
    | none => rfl
    | some content =>
      rw [List.getLast?_cons]
      cases (listing.filterMap (contentAt tree kind)).getLast? <;> rfl

end

/-! ## The files of a directory, and those below it -/

section
variable {τ : Type} (tree : FileTree τ) (dir : Place) (kind : ArtifactKind) (content : Bytes)

/-- A file in a directory. -/
def Direct : Prop := ∃ name, artifactAt tree (dir ++ [name]) = some (kind, content)

/-- A file in a directory, or in one of its subdirectories. -/
def Below : Prop := ∃ name rest, artifactAt tree (dir ++ name :: rest) = some (kind, content)

end

section
variable {τ : Type} {tree : FileTree τ} {kind : ArtifactKind} {content : Bytes}
  {place dir : Place} {listing : List Place}

theorem Direct.below (h : Direct tree dir kind content) : Below tree dir kind content := by
  obtain ⟨name, h⟩ := h
  exact ⟨name, [], h⟩

theorem node_of_artifactAt (h : artifactAt tree place = some (kind, content)) :
    tree.node place = some (.file content) := by
  rw [artifactAt] at h
  split at h
  · rename_i hnode _
    obtain ⟨_, _, hpair⟩ := Option.map_eq_some_iff.mp h
    cases hpair
    exact hnode
  · cases h

/-- A walk lists the files below the directory. -/
theorem mem_filterMap_contentAt (hwalk : tree.WalkDir dir listing) :
    content ∈ listing.filterMap (contentAt tree kind) ↔ Below tree dir kind content := by
  simp only [List.mem_filterMap, contentAt_eq_some_iff, hwalk.mem_iff]
  constructor
  · rintro ⟨place, ⟨name, rest, rfl, -⟩, h⟩
    exact ⟨name, rest, h⟩
  · rintro ⟨name, rest, h⟩
    exact ⟨_, ⟨name, rest, rfl, FileTree.ne_none (node_of_artifactAt h)⟩, h⟩

theorem mem_foldl_addGrubDir {dirs : List Place} :
    dir ∈ listing.foldl (addGrubDir tree) dirs ↔ dir ∈ dirs ∨
      ∃ place ∈ listing, ∃ content, artifactAt tree place = some (.grub, content) ∧
        place.dropLast = dir := by
  induction listing generalizing dirs with
  | nil => simp
  | cons place listing ih =>
    rw [List.foldl_cons, ih, addGrubDir]
    split
    · rename_i content hartifact
      simp [hartifact, List.mem_insert_iff, or_assoc, or_left_comm, eq_comm]
    · rename_i hother
      have hnone : ∀ content, artifactAt tree place ≠ some (.grub, content) := hother
      simp [hnone]

theorem nodup_grubDirs : (grubDirs tree listing).Nodup := by
  refine List.foldlRecOn listing _ List.nodup_nil fun dirs h place _ => ?_
  rw [addGrubDir]
  split
  · exact h.insert
  · exact h

/-- **The first walk.** -/
theorem mem_grubDirs (hwalk : tree.WalkDir [] listing) :
    dir ∈ grubDirs tree listing ↔ ∃ content, Direct tree dir .grub content := by
  rw [grubDirs, mem_foldl_addGrubDir]
  simp only [List.not_mem_nil, false_or, hwalk.mem_iff, List.nil_append]
  constructor
  · rintro ⟨_, ⟨name, rest, rfl, -⟩, content, h, rfl⟩
    refine ⟨content, (name :: rest).getLast (List.cons_ne_nil _ _), ?_⟩
    rwa [List.dropLast_append_getLast]
  · rintro ⟨content, name, h⟩
    obtain ⟨first, rest, hsplit⟩ := List.exists_cons_of_ne_nil (List.concat_ne_nil name dir)
    exact ⟨dir ++ [name], ⟨first, rest, hsplit, FileTree.ne_none (node_of_artifactAt h)⟩, content, h,
      List.dropLast_concat⟩

/-! ## The second walk -/

theorem data_of_loadGrubDir {artifacts : GrubArtifacts}
    (h : loadGrubDir tree dir listing = .ok (some artifacts)) :
    artifacts.efiGrubDir = dir ∧
      ∀ kind, artifacts.data kind = (listing.filterMap (contentAt tree kind)).getLast? := by
  obtain ⟨scan, hscan, h⟩ := bind_eq_ok h
  have hdata := data_of_foldlM hscan
  split at h
  · rename_i grubData shimData hgrub hshim
    cases h
    refine ⟨rfl, fun kind => ?_⟩
    have hsame : (⟨dir, grubData, shimData, scan.grubEnv, scan.grubCfg⟩ : GrubArtifacts).data kind =
        scan.data kind := by
      cases kind with
      | grub => exact hgrub.symm
      | shim => exact hshim.symm
      | grubEnv => rfl
      | grubCfg => rfl
    rw [hsame, hdata]
    cases kind <;> exact Option.or_none
  · cases h

/-- A directory is skipped only if a binary is missing. -/
theorem exists_loadGrubDir {grub shim : Bytes} (hwalk : tree.WalkDir dir listing)
    (hgrub : Below tree dir .grub grub) (hshim : Below tree dir .shim shim)
    {found : Option GrubArtifacts} (h : loadGrubDir tree dir listing = .ok found) :
    ∃ artifacts, found = some artifacts := by
  obtain ⟨scan, hscan, h⟩ := bind_eq_ok h
  have hfound : ∀ kind content, Below tree dir kind content → scan.data kind ≠ none := by
    intro kind content hbelow hnone
    rw [data_of_foldlM hscan, Option.or_eq_none_iff, List.getLast?_eq_none_iff] at hnone
    have hmem := (mem_filterMap_contentAt hwalk).mpr hbelow
    rw [hnone.1] at hmem
    cases hmem
  obtain ⟨grubData, hgrubData⟩ := Option.ne_none_iff_exists'.mp (hfound .grub grub hgrub)
  obtain ⟨shimData, hshimData⟩ := Option.ne_none_iff_exists'.mp (hfound .shim shim hshim)
  rw [show scan.grubData = some grubData from hgrubData,
    show scan.shimData = some shimData from hshimData] at h
  cases h
  exact ⟨_, rfl⟩

/-- A directory can be loaded exactly if all its texts are UTF-8. -/
theorem exists_loadGrubDir_eq_ok_iff (hwalk : tree.WalkDir dir listing) :
    (∃ found, loadGrubDir tree dir listing = .ok found) ↔
      ∀ kind content, Below tree dir kind content → Readable (kind, content) := by
  have hscan : (∃ scan, listing.foldlM (scanEntry tree) {} = .ok scan) ↔
      ∀ place ∈ listing, ∀ artifact, artifactAt tree place = some artifact → Readable artifact :=
    exists_foldlM_eq_ok_iff exists_scanEntry_iff
  have hload : (∃ found, loadGrubDir tree dir listing = .ok found) ↔
      ∃ scan, listing.foldlM (scanEntry tree) {} = .ok scan := by
    constructor
    · rintro ⟨found, h⟩
      obtain ⟨scan, hok, -⟩ := bind_eq_ok h
      exact ⟨scan, hok⟩
    · rintro ⟨scan, hok⟩
      rw [loadGrubDir, hok, ok_bind]
      split
      · exact ⟨_, rfl⟩
      · exact ⟨_, rfl⟩
  rw [hload, hscan]
  constructor
  · intro h kind content hbelow
    obtain ⟨place, hplace, hcontent⟩ :=
      List.mem_filterMap.mp ((mem_filterMap_contentAt hwalk).mpr hbelow)
    exact h place hplace _ (contentAt_eq_some_iff.mp hcontent)
  · rintro h place hplace ⟨kind, content⟩ hartifact
    refine h kind content ((mem_filterMap_contentAt hwalk).mp ?_)
    exact List.mem_filterMap.mpr ⟨place, hplace, contentAt_eq_some_iff.mpr hartifact⟩

theorem sublist_map_reduceOption {dirs : List Place} {loaded : List (Option GrubArtifacts)}
    (h : List.Forall₂ (fun dir found => ∀ a, found = some a → a.efiGrubDir = dir) dirs loaded) :
    (loaded.reduceOption.map GrubArtifacts.efiGrubDir).Sublist dirs := by
  induction h with
  | nil => exact .slnil
  | @cons dir found dirs loaded hdir _ ih =>
    cases found with
    | none => exact ih.cons _
    | some a =>
      rw [List.reduceOption_cons_of_some, List.map_cons, hdir a rfl]
      exact ih.cons_cons _

end

/-! ## All directories -/

section
variable {τ : Type} {tree : FileTree τ} {efiPartRootDir : String} {listing : Listing tree}
  {artifacts : List GrubArtifacts}

/-- Each directory with a `grubx64.efi` is loaded. -/
theorem forall₂_of_loadGrubArtifacts (h : loadGrubArtifacts efiPartRootDir listing = .ok artifacts) :
    ∃ loaded, loaded.reduceOption = artifacts ∧ List.Forall₂
      (fun dir found => loadGrubDir tree dir (listing.inner dir) = .ok found)
      (listing.iterate (grubDirs tree listing.outer)) loaded := by
  rw [loadGrubArtifacts] at h
  split_ifs at h
  obtain ⟨loaded, hloaded, h⟩ := bind_eq_ok h
  split_ifs at h
  cases h
  exact ⟨loaded, rfl, mapM_eq_ok hloaded⟩

theorem mem_iterate_grubDirs (listing : Listing tree) (dir : Place) :
    dir ∈ listing.iterate (grubDirs tree listing.outer) ↔
      ∃ content, Direct tree dir .grub content := by
  rw [(listing.perm_iterate _).mem_iff, mem_grubDirs listing.walk_outer]

theorem exists_loaded (h : loadGrubArtifacts efiPartRootDir listing = .ok artifacts) {dir : Place}
    {grub : Bytes} (hgrub : Direct tree dir .grub grub) :
    ∃ found, loadGrubDir tree dir (listing.inner dir) = .ok found ∧
      ∀ a, found = some a → a ∈ artifacts := by
  obtain ⟨loaded, rfl, hloaded⟩ := forall₂_of_loadGrubArtifacts h
  obtain ⟨found, hfound, hload⟩ :=
    exists_mem_of_forall₂ hloaded ((mem_iterate_grubDirs listing dir).mpr ⟨grub, hgrub⟩)
  refine ⟨found, hload, ?_⟩
  rintro a rfl
  exact List.reduceOption_mem_iff.mpr hfound

theorem mem_of_loadGrubArtifacts (h : loadGrubArtifacts efiPartRootDir listing = .ok artifacts)
    (a : GrubArtifacts) :
    a ∈ artifacts ↔ ∃ dir content, Direct tree dir .grub content ∧
      loadGrubDir tree dir (listing.inner dir) = .ok (some a) := by
  constructor
  · intro ha
    obtain ⟨loaded, rfl, hloaded⟩ := forall₂_of_loadGrubArtifacts h
    obtain ⟨dir, hdir, hload⟩ :=
      exists_mem_of_forall₂ hloaded.flip (List.reduceOption_mem_iff.mp ha)
    obtain ⟨content, hdirect⟩ := (mem_iterate_grubDirs listing dir).mp hdir
    exact ⟨dir, content, hdirect, hload⟩
  · rintro ⟨dir, content, hdirect, hload⟩
    obtain ⟨found, hload', hfound⟩ := exists_loaded h hdirect
    rw [hload] at hload'
    exact hfound a (Except.ok.inj hload').symm

theorem nodup_of_loadGrubArtifacts (h : loadGrubArtifacts efiPartRootDir listing = .ok artifacts) :
    (artifacts.map GrubArtifacts.efiGrubDir).Nodup := by
  obtain ⟨loaded, rfl, hloaded⟩ := forall₂_of_loadGrubArtifacts h
  have hdirs := (listing.perm_iterate (grubDirs tree listing.outer)).nodup_iff.mpr nodup_grubDirs
  refine hdirs.sublist (sublist_map_reduceOption (hloaded.imp ?_))
  rintro dir _ hload a rfl
  exact (data_of_loadGrubDir hload).1

/-- The artifacts of a directory are those of the last files below it. -/
theorem data_of_mem (h : loadGrubArtifacts efiPartRootDir listing = .ok artifacts)
    {a : GrubArtifacts} (ha : a ∈ artifacts) (kind : ArtifactKind) :
    a.data kind = ((listing.inner a.efiGrubDir).filterMap (contentAt tree kind)).getLast? := by
  obtain ⟨dir, content, -, hload⟩ := (mem_of_loadGrubArtifacts h a).mp ha
  obtain ⟨rfl, hdata⟩ := data_of_loadGrubDir hload
  exact hdata kind

theorem below_of_data (h : loadGrubArtifacts efiPartRootDir listing = .ok artifacts)
    {a : GrubArtifacts} (ha : a ∈ artifacts) {kind : ArtifactKind} {content : Bytes}
    (hdata : a.data kind = some content) : Below tree a.efiGrubDir kind content := by
  rw [data_of_mem h ha] at hdata
  exact (mem_filterMap_contentAt (listing.walk_inner _)).mp (List.mem_of_getLast? hdata)

theorem data_ne_none_of_below (h : loadGrubArtifacts efiPartRootDir listing = .ok artifacts)
    {a : GrubArtifacts} (ha : a ∈ artifacts) {kind : ArtifactKind} {content : Bytes}
    (hbelow : Below tree a.efiGrubDir kind content) : a.data kind ≠ none := by
  have hmem := (mem_filterMap_contentAt (listing.walk_inner _)).mpr hbelow
  rw [data_of_mem h ha, ne_eq, List.getLast?_eq_none_iff]
  exact List.ne_nil_of_mem hmem

/-- Every directory with both binaries, at any depth, has artifacts. -/
theorem exists_mem_of_below (h : loadGrubArtifacts efiPartRootDir listing = .ok artifacts)
    {dir : Place} {grub shim : Bytes} (hgrub : Direct tree dir .grub grub)
    (hshim : Below tree dir .shim shim) : ∃ a ∈ artifacts, a.efiGrubDir = dir := by
  obtain ⟨found, hload, hfound⟩ := exists_loaded h hgrub
  obtain ⟨a, rfl⟩ := exists_loadGrubDir (listing.walk_inner dir) hgrub.below hshim hload
  exact ⟨a, hfound a rfl, (data_of_loadGrubDir hload).1⟩

/-- The artifacts can be loaded if the texts below the directories are UTF-8 and one of these has
both binaries. -/
theorem exists_loadGrubArtifacts_eq_ok (efiPartRootDir : String) (listing : Listing tree)
    (hread : ∀ dir grub kind content, Direct tree dir .grub grub → Below tree dir kind content →
      Readable (kind, content))
    {dir : Place} {grub shim : Bytes} (hgrub : Direct tree dir .grub grub)
    (hshim : Below tree dir .shim shim) :
    ∃ artifacts, loadGrubArtifacts efiPartRootDir listing = .ok artifacts := by
  have hdir := (mem_iterate_grubDirs listing dir).mpr ⟨grub, hgrub⟩
  have hdirs : (grubDirs tree listing.outer).isEmpty = false := by
    rw [List.isEmpty_eq_false_iff]
    exact List.ne_nil_of_mem ((listing.perm_iterate _).mem_iff.mp hdir)
  obtain ⟨loaded, hloaded⟩ : ∃ loaded, (listing.iterate (grubDirs tree listing.outer)).mapM
      (fun dir => loadGrubDir tree dir (listing.inner dir)) = .ok loaded := by
    refine exists_mapM_eq_ok_iff.mpr fun dir hdir => ?_
    obtain ⟨grub, hgrub⟩ := (mem_iterate_grubDirs listing dir).mp hdir
    exact (exists_loadGrubDir_eq_ok_iff (listing.walk_inner dir)).mpr fun kind content =>
      hread dir grub kind content hgrub
  have hsome : loaded.reduceOption.isEmpty = false := by
    obtain ⟨found, hfound, hload⟩ := exists_mem_of_forall₂ (mapM_eq_ok hloaded) hdir
    obtain ⟨a, rfl⟩ := exists_loadGrubDir (listing.walk_inner dir) hgrub.below hshim hload
    rw [List.isEmpty_eq_false_iff]
    exact List.ne_nil_of_mem (List.reduceOption_mem_iff.mpr hfound)
  refine ⟨loaded.reduceOption, ?_⟩
  rw [loadGrubArtifacts, hdirs, hloaded, ok_bind, hsome]
  rfl

end

/-! ## Which files are meant -/

/-- The artifacts as they should be: one for each directory that contains both binaries, with the
files in this directory. -/
structure Exact {τ : Type} (tree : FileTree τ) (artifacts : List GrubArtifacts) : Prop where
  nodup : (artifacts.map GrubArtifacts.efiGrubDir).Nodup
  dirs : ∀ dir, (∃ a ∈ artifacts, a.efiGrubDir = dir) ↔
    (∃ grub, Direct tree dir .grub grub) ∧ ∃ shim, Direct tree dir .shim shim
  direct : ∀ a ∈ artifacts, ∀ kind content, a.data kind = some content →
    Direct tree a.efiGrubDir kind content
  complete : ∀ a ∈ artifacts, ∀ kind content, Direct tree a.efiGrubDir kind content →
    a.data kind ≠ none

/-- Whatever is below a directory is in it as well, and all files of a kind are the same. -/
structure Unambiguous {τ : Type} (tree : FileTree τ) (dir : Place) : Prop where
  direct : ∀ kind content, Below tree dir kind content → Direct tree dir kind content
  same : ∀ kind content content', Below tree dir kind content → Below tree dir kind content' →
    content = content'

section
variable {τ : Type} {tree : FileTree τ} {efiPartRootDir : String} {listing listing' : Listing tree}
  {artifacts artifacts' : List GrubArtifacts} {dir : Place}

/-- The directory of some artifacts contains a `grubx64.efi`, and a shim is below it. -/
theorem direct_of_mem (h : loadGrubArtifacts efiPartRootDir listing = .ok artifacts)
    {a : GrubArtifacts} (ha : a ∈ artifacts) :
    (∃ grub, Direct tree a.efiGrubDir .grub grub) ∧ ∃ shim, Below tree a.efiGrubDir .shim shim := by
  obtain ⟨dir, content, hdirect, hload⟩ := (mem_of_loadGrubArtifacts h a).mp ha
  obtain ⟨rfl, -⟩ := data_of_loadGrubDir hload
  exact ⟨⟨content, hdirect⟩, a.shimData, below_of_data h ha rfl⟩

theorem exact_of_unambiguous
    (hall : ∀ dir grub shim, Direct tree dir .grub grub → Below tree dir .shim shim →
      Unambiguous tree dir)
    (h : loadGrubArtifacts efiPartRootDir listing = .ok artifacts) : Exact tree artifacts := by
  have hdir : ∀ a ∈ artifacts, Unambiguous tree a.efiGrubDir := by
    intro a ha
    obtain ⟨⟨grub, hgrub⟩, shim, hshim⟩ := direct_of_mem h ha
    exact hall _ grub shim hgrub hshim
  refine ⟨nodup_of_loadGrubArtifacts h, fun dir => ⟨?_, ?_⟩, ?_, ?_⟩
  · rintro ⟨a, ha, rfl⟩
    obtain ⟨hgrub, shim, hshim⟩ := direct_of_mem h ha
    exact ⟨hgrub, shim, (hdir a ha).direct _ _ hshim⟩
  · rintro ⟨⟨grub, hgrub⟩, shim, hshim⟩
    exact exists_mem_of_below h hgrub hshim.below
  · intro a ha kind content hdata
    exact (hdir a ha).direct _ _ (below_of_data h ha hdata)
  · intro a ha kind content hdirect
    exact data_ne_none_of_below h ha hdirect.below

/-- What is found does not depend on the order. -/
theorem data_eq_of_unambiguous (h : loadGrubArtifacts efiPartRootDir listing = .ok artifacts)
    (h' : loadGrubArtifacts efiPartRootDir listing' = .ok artifacts') {a a' : GrubArtifacts}
    (ha : a ∈ artifacts) (ha' : a' ∈ artifacts') (hdir : a'.efiGrubDir = a.efiGrubDir)
    (hsame : Unambiguous tree a.efiGrubDir) (kind : ArtifactKind) : a'.data kind = a.data kind := by
  cases hdata : a.data kind with
  | none =>
    by_contra hne
    obtain ⟨content, hcontent⟩ := Option.ne_none_iff_exists'.mp hne
    have hbelow := below_of_data h' ha' hcontent
    rw [hdir] at hbelow
    exact data_ne_none_of_below h ha hbelow hdata
  | some content =>
    have hbelow := below_of_data h ha hdata
    have hbelow' := hbelow
    rw [← hdir] at hbelow'
    obtain ⟨content', hcontent'⟩ :=
      Option.ne_none_iff_exists'.mp (data_ne_none_of_below h' ha' hbelow')
    have hother := below_of_data h' ha' hcontent'
    rw [hdir] at hother
    rw [hcontent', hsame.same kind content' content hother hbelow]

theorem mem_of_unambiguous
    (hall : ∀ dir grub shim, Direct tree dir .grub grub → Below tree dir .shim shim →
      Unambiguous tree dir)
    (h : loadGrubArtifacts efiPartRootDir listing = .ok artifacts)
    (h' : loadGrubArtifacts efiPartRootDir listing' = .ok artifacts') {a : GrubArtifacts}
    (ha : a ∈ artifacts) : a ∈ artifacts' := by
  obtain ⟨⟨grub, hgrub⟩, shim, hshim⟩ := direct_of_mem h ha
  obtain ⟨a', ha', hdir⟩ := exists_mem_of_below h' hgrub hshim
  have hsame := hall _ grub shim hgrub hshim
  rwa [← GrubArtifacts.ext_data hdir (data_eq_of_unambiguous h h' ha ha' hdir hsame)]

theorem readable_of_loadGrubArtifacts
    (h : loadGrubArtifacts efiPartRootDir listing = .ok artifacts) {grub content : Bytes}
    {kind : ArtifactKind} (hgrub : Direct tree dir .grub grub)
    (hbelow : Below tree dir kind content) : Readable (kind, content) := by
  obtain ⟨found, hload, -⟩ := exists_loaded h hgrub
  exact (exists_loadGrubDir_eq_ok_iff (listing.walk_inner dir)).mp ⟨found, hload⟩ kind content hbelow

/-- Any file below a directory can be the last one of its walk. -/
theorem exists_listing_last {name : String} {rest : Place} {content : Bytes}
    (hfile : tree.node (dir ++ name :: rest) = some (.file content)) :
    ∃ (listing : Listing tree) (before : List Place),
      listing.inner dir = before ++ [dir ++ name :: rest] := by
  obtain ⟨before, hlast⟩ : ∃ before, tree.WalkDir dir (before ++ [dir ++ name :: rest]) := by
    refine FileTree.exists_walkDir_last (FileTree.ne_none hfile) ?_
    rw [hfile]
    rintro ⟨⟩
  obtain ⟨outer, houter⟩ := tree.exists_walkDir []
  choose inner hinner using tree.exists_walkDir
  refine ⟨⟨outer, Function.update inner dir (before ++ [dir ++ name :: rest]), id, houter,
    fun other => ?_, fun _ => .refl _⟩, before, Function.update_self ..⟩
  by_cases heq : other = dir
  · rw [heq, Function.update_self]
    exact hlast
  · rw [Function.update_of_ne heq]
    exact hinner other

/-- So it can be the one that is found. -/
theorem exists_load_of_below (efiPartRootDir : String)
    (hread : ∀ dir grub kind content, Direct tree dir .grub grub → Below tree dir kind content →
      Readable (kind, content))
    {grub shim content : Bytes} {kind : ArtifactKind} (hgrub : Direct tree dir .grub grub)
    (hshim : Below tree dir .shim shim) (hbelow : Below tree dir kind content) :
    ∃ (listing : Listing tree) (artifacts : List GrubArtifacts),
      loadGrubArtifacts efiPartRootDir listing = .ok artifacts ∧
      ∃ a ∈ artifacts, a.efiGrubDir = dir ∧ a.data kind = some content := by
  obtain ⟨name, rest, hartifact⟩ := hbelow
  obtain ⟨listing, before, hlast⟩ := exists_listing_last (node_of_artifactAt hartifact)
  obtain ⟨artifacts, h⟩ := exists_loadGrubArtifacts_eq_ok efiPartRootDir listing hread hgrub hshim
  obtain ⟨a, ha, rfl⟩ := exists_mem_of_below h hgrub hshim
  refine ⟨listing, artifacts, h, a, ha, rfl, ?_⟩
  rw [data_of_mem h ha, hlast, List.filterMap_append]
  simp [contentAt_eq_some_iff.mpr hartifact]

end

/-- **The artifacts are those of the directories**, in whatever order these are listed, exactly if
a text that is read is not UTF-8, so that nothing is returned, or each directory with both binaries
below it is unambiguous. -/
theorem loadGrubArtifacts_iff {τ : Type} (tree : FileTree τ) (efiPartRootDir : String) :
    ((∀ (listing : Listing tree) artifacts,
        loadGrubArtifacts efiPartRootDir listing = .ok artifacts → Exact tree artifacts) ∧
      ∀ (listing listing' : Listing tree) artifacts artifacts',
        loadGrubArtifacts efiPartRootDir listing = .ok artifacts →
        loadGrubArtifacts efiPartRootDir listing' = .ok artifacts' →
        ∀ a, a ∈ artifacts ↔ a ∈ artifacts') ↔
      (∃ dir grub kind content, Direct tree dir .grub grub ∧ Below tree dir kind content ∧
        kind.IsText ∧ decodeUtf8 content = none) ∨
      ∀ dir grub shim, Direct tree dir .grub grub → Below tree dir .shim shim →
        Unambiguous tree dir := by
  constructor
  · rintro ⟨hexact, horder⟩
    refine or_iff_not_imp_left.mpr fun hnone dir grub shim hgrub hshim => ?_
    have hread : ∀ dir grub kind content, Direct tree dir .grub grub →
        Below tree dir kind content → Readable (kind, content) :=
      fun dir grub kind content hgrub hbelow htext hdecode =>
        hnone ⟨dir, grub, kind, content, hgrub, hbelow, htext, hdecode⟩
    have hload := fun {kind content} (hbelow : Below tree dir kind content) =>
      exists_load_of_below efiPartRootDir hread hgrub hshim hbelow
    refine ⟨fun kind content hbelow => ?_, fun kind content content' hbelow hbelow' => ?_⟩
    · obtain ⟨listing, artifacts, h, a, ha, rfl, hdata⟩ := hload hbelow
      exact (hexact listing artifacts h).direct a ha kind content hdata
    · obtain ⟨listing, artifacts, h, a, ha, hdir, hdata⟩ := hload hbelow
      obtain ⟨listing', artifacts', h', a', ha', hdir', hdata'⟩ := hload hbelow'
      have hmem := (horder listing listing' artifacts artifacts' h h' a).mp ha
      have heq : a = a' := List.inj_on_of_nodup_map (hexact listing' artifacts' h').nodup hmem ha'
        (hdir.trans hdir'.symm)
      rw [heq, hdata'] at hdata
      exact (Option.some.inj hdata).symm
  · rintro (⟨dir, grub, kind, content, hgrub, hbelow, htext, hnone⟩ | hall)
    · -- a text that is not UTF-8 makes every call fail
      have hfail : ∀ (listing : Listing tree) artifacts,
          loadGrubArtifacts efiPartRootDir listing ≠ .ok artifacts :=
        fun listing artifacts h => readable_of_loadGrubArtifacts h hgrub hbelow htext hnone
      exact ⟨fun listing artifacts h => absurd h (hfail listing artifacts),
        fun listing _ artifacts _ h => absurd h (hfail listing artifacts)⟩
    · refine ⟨fun listing artifacts h => exact_of_unambiguous hall h, ?_⟩
      intro listing listing' artifacts artifacts' h h' a
      exact ⟨mem_of_unambiguous hall h h', mem_of_unambiguous hall h' h⟩

/-! A directory with both binaries, and another shim below it. -/

def nestedEntries : List (Place × Node Unit) :=
  [(["grubx64.efi"], .file [1]), (["shimx64.efi"], .file [2]), (["old"], .dir),
    (["old", "shimx64.efi"], .file [3])]

def nestedTree : FileTree Unit := .ofEntries nestedEntries (by decide)

def nestedListing : List Place :=
  [["grubx64.efi"], ["shimx64.efi"], ["old"], ["old", "shimx64.efi"]]

theorem nestedTree_node_ne_none {place : Place} (hplace : place ≠ []) :
    nestedTree.node place ≠ none ↔ place ∈ nestedListing := by
  refine (FileTree.lookup_ne_none_iff hplace).trans ?_
  simp [nestedEntries, nestedListing, eq_comm]

theorem walkDir_nestedListing : nestedTree.WalkDir [] nestedListing := by
  have hroot : nestedTree.Lists [] ["grubx64.efi", "shimx64.efi", "old"] := by
    refine ⟨by decide, fun name => ?_⟩
    rw [nestedTree_node_ne_none (List.concat_ne_nil name [])]
    simp [nestedListing]
  have hold : nestedTree.Lists ["old"] ["shimx64.efi"] := by
    refine ⟨by decide, fun name => ?_⟩
    rw [nestedTree_node_ne_none (List.concat_ne_nil name ["old"])]
    simp [nestedListing]
  exact ⟨_, hroot, .leaf (by decide) (.leaf (by decide) (.dir (by decide) hold
    (.leaf (by decide) (.nil _)) (.nil _)))⟩

theorem loadGrubArtifacts_nested : ∃ listing : Listing nestedTree,
    loadGrubArtifacts "/efi" listing = .ok [⟨[], [1], [3], none, none⟩] ∧
      ¬Direct nestedTree [] .shim [3] := by
  choose inner hinner using nestedTree.exists_walkDir
  have hwalk : ∀ dir, nestedTree.WalkDir dir (if dir = [] then nestedListing else inner dir) := by
    intro dir
    split_ifs with hdir
    · rw [hdir]
      exact walkDir_nestedListing
    · exact hinner dir
  refine ⟨⟨nestedListing, _, id, walkDir_nestedListing, hwalk, fun _ => .refl _⟩, rfl, ?_⟩
  rintro ⟨name, h⟩
  have hnode := node_of_artifactAt h
  have hmem := (nestedTree_node_ne_none (List.concat_ne_nil name [])).mp (FileTree.ne_none hnode)
  obtain rfl | rfl | rfl : name = "grubx64.efi" ∨ name = "shimx64.efi" ∨ name = "old" := by
    simpa [nestedListing] using hmem
  all_goals
    revert hnode
    decide

end CryptPilot.Fde
