import CryptPilot.Core.ProviderConfig
import CryptPilot.Crypt.Commands
import CryptPilot.Data.Sorted
import Mathlib.Data.Set.List
import Mathlib.Data.String.Basic

/-!
# Where the volumes are configured

`config/volume.rs` in TOML, `config/fs.rs` and `get_volume_config`: each file of the directory
`volumes` configures a volume. A directory is listed in an order that nobody knows.

What is loaded is every file once, sorted by the name of the volume, and loading fails if two files
have one name (`loadVolumeConfigs_eq_ok_iff`). So it does not depend on the order, and a volume is
found by its name (`volumes_any_order`).
-/

namespace CryptPilot.Crypt

open CryptPilot.Data CryptPilot.Data.Prog CryptPilot.Data.Toml CryptPilot.Core

/-! ## `config/volume.rs` -/

/-- A `VolumeConfig` of the source, with the field that only the boot service reads. -/
structure VolumeFile where
  config : VolumeConfig
  autoOpen : Option Bool
  deriving DecidableEq

def VolumeFile.volume (self : VolumeFile) : String := self.config.volume

def deMakeFsType (v : Value) : Except DeError MakeFsType := do
  let name ← deString v
  if name = "swap" then return .swap
  else if name = "ext4" then return .ext4
  else if name = "xfs" then return .xfs
  else if name = "vfat" then return .vfat
  else throw (.unknownVariant name)

def VolumeFile.deserialize (t : Table) : Except DeError VolumeFile := do
  let volume ← t.required ["volume"] deString
  let dev ← t.required ["dev"] deString
  let encrypt ← t.required ["encrypt"] (deTable EncryptConfig.deserialize)
  -- what is flattened takes its entries, and what it leaves is unknown
  let collected := t.rest ["volume", "dev", "encrypt"]
  let autoOpen ← collected.optional ["auto_open"] deBool
  let makefs ← collected.optional ["makefs"] deMakeFsType
  let integrity ← collected.optional ["integrity"] deBool
  (collected.rest ["auto_open", "makefs", "integrity"]).denyUnknown
  return ⟨⟨volume, dev, ⟨makefs, integrity⟩, encrypt⟩, autoOpen⟩

/-! ## `config/fs.rs` -/

/-- What is listed in a directory: the name, whether it is a file, and how reading it ends. -/
structure DirEntry (Text : Type) where
  fileName : String
  isFile : Bool
  content : Except String Text

/-- `Path::extension` of a file name: what follows the last dot, unless that is the first character. -/
def extension (fileName : String) : Option String :=
  if fileName = ".." then none
  else
    match fileName.toList.reverse.span (· ≠ '.') with
    | (_, []) | (_, [_]) => none
    | (after, _) => some (String.ofList after.reverse)

section
variable {Text : Type} (toml : Format Text) (debug : Path → String)

def DirEntry.isVolumeFile (entry : DirEntry Text) : Bool :=
  entry.isFile && extension entry.fileName = some "toml"

def readVolumeFile (entry : DirEntry Text) : Except String VolumeFile := do
  let content ← entry.content
  addContext "Failed to parse content as TOML" (toml.fromStr VolumeFile.deserialize content)

/-- One pass of the loop. `volume_names` are the names of the volumes that were pushed. -/
def loadVolumeConfig (configDir : Path) (volumeConfigs : List VolumeFile) (entry : DirEntry Text) :
    Except String (List VolumeFile) :=
  if entry.isVolumeFile then
    addContext ("Failed to loading volume config file: " ++ debug (configDir ++ "/" ++ entry.fileName)) do
      let volumeConfig ← readVolumeFile toml entry
      if volumeConfig.volume ∈ volumeConfigs.map VolumeFile.volume then
        throw s!"Volume `{volumeConfig.volume}` is already defined in other volume config files. Please checking your volume config files."
      else return volumeConfigs ++ [volumeConfig]
  else return volumeConfigs

/-- What `read_dir` gives for the directory: nothing if there is none, and each entry can fail. -/
abbrev Listing (Text : Type) := Option (Except String (List (Except String (DirEntry Text))))

def loadVolumeConfigs (configDir : Path) : Listing Text → Except String (List VolumeFile)
  | none => .ok []
  | some listing => do
    let entries ← listing
    let volumeConfigs ← entries.foldlM (fun volumeConfigs entry => do
      loadVolumeConfig toml debug configDir volumeConfigs (← entry)) []
    return sortByKey VolumeFile.volume volumeConfigs

end

/-- `get_volume_config` -/
def getVolumeConfig (volumeConfigs : Except String (List VolumeFile)) (volume : String) :
    Except String VolumeFile :=
  addContext s!"Failed to get config for volume name: {volume}. Maybe forget to write config file for it?" do
    let volumeConfigs ← volumeConfigs
    match volumeConfigs.find? (·.volume = volume) with
    | some volumeConfig => return volumeConfig
    | none => throw s!"Unknown volume name: {volume}"

/-! ## What is loaded -/

theorem addContext_eq_ok {α : Type} {message : String} {r : Except String α} {a : α} :
    addContext message r = .ok a ↔ r = .ok a := by
  cases r with
  | error e => exact iff_of_false (fun h => by cases h) (fun h => by cases h)
  | ok b => rfl

section
variable {Text : Type} {toml : Format Text} {debug : Path → String} {configDir : Path}
  {entry : DirEntry Text} {entries entries' : List (DirEntry Text)}
  {files files' : List VolumeFile}

theorem loadVolumeConfig_eq_ok (hentry : entry.isVolumeFile) :
    loadVolumeConfig toml debug configDir files entry = .ok files' ↔
      ∃ file, readVolumeFile toml entry = .ok file ∧ file.volume ∉ files.map VolumeFile.volume ∧
        files' = files ++ [file] := by
  rw [loadVolumeConfig, if_pos hentry, addContext_eq_ok]
  cases readVolumeFile toml entry with
  | error e => simp
  | ok file =>
    rw [ok_bind]
    split_ifs with hmem
    · exact iff_of_false (fun h => by cases h) (by rintro ⟨_, ⟨⟩, hnew, -⟩; exact hnew hmem)
    · constructor
      · rintro ⟨⟩
        exact ⟨file, rfl, hmem, rfl⟩
      · rintro ⟨_, ⟨⟩, -, rfl⟩
        rfl

/-- The volume files of a listing, each as it is read. -/
def readAll (toml : Format Text) (entries : List (DirEntry Text)) : List (Except String VolumeFile) :=
  (entries.filter (·.isVolumeFile)).map (readVolumeFile toml)

/-- The loop, from what it has found so far. -/
theorem foldlM_loadVolumeConfig (hfiles : (files.map VolumeFile.volume).Nodup) :
    entries.foldlM (loadVolumeConfig toml debug configDir) files = .ok files' ↔
      ∃ new : List VolumeFile, readAll toml entries = new.map .ok ∧ files' = files ++ new ∧
        (files'.map VolumeFile.volume).Nodup := by
  induction entries generalizing files with
  | nil =>
    constructor
    · rintro ⟨⟩
      exact ⟨[], rfl, (List.append_nil _).symm, hfiles⟩
    · rintro ⟨new, hnew, rfl, -⟩
      obtain rfl : new = [] := List.map_eq_nil_iff.mp hnew.symm
      rw [List.append_nil]
      rfl
  | cons entry entries ih =>
    rw [List.foldlM_cons]
    by_cases hentry : entry.isVolumeFile
    · have hreads : readAll toml (entry :: entries) =
          readVolumeFile toml entry :: readAll toml entries := by
        simp [readAll, hentry]
      rw [hreads]
      constructor
      · intro h
        obtain ⟨_, hload, hrest⟩ := bind_eq_ok h
        obtain ⟨file, hread, hnew, rfl⟩ := (loadVolumeConfig_eq_ok hentry).mp hload
        have hnodup : ((files ++ [file]).map VolumeFile.volume).Nodup := by
          rw [List.map_append, List.nodup_append]
          refine ⟨hfiles, List.nodup_singleton _, fun a ha b hb => ?_⟩
          rintro rfl
          exact hnew (List.mem_singleton.mp hb ▸ ha)
        obtain ⟨new, hall, rfl, hdistinct⟩ := (ih hnodup).mp hrest
        exact ⟨file :: new, by rw [hread, hall, List.map_cons], by simp, hdistinct⟩
      · rintro ⟨new, hall, rfl, hdistinct⟩
        obtain ⟨file, new, rfl, hread, hrest⟩ := List.map_eq_cons_iff.mp hall.symm
        have hsplit : files ++ file :: new = files ++ [file] ++ new := by simp
        have hhead : ((files ++ [file]).map VolumeFile.volume).Nodup := by
          rw [hsplit, List.map_append] at hdistinct
          exact hdistinct.of_append_left
        have hnew : file.volume ∉ files.map VolumeFile.volume := by
          rw [List.map_append, List.nodup_append] at hhead
          exact fun hmem => hhead.2.2 _ hmem _ (List.mem_singleton_self _) rfl
        rw [(loadVolumeConfig_eq_ok hentry).mpr ⟨file, hread.symm, hnew, rfl⟩, ok_bind]
        exact (ih hhead).mpr ⟨new, hrest.symm, hsplit, hdistinct⟩
    · have hreads : readAll toml (entry :: entries) = readAll toml entries := by
        simp [readAll, hentry]
      have hload : loadVolumeConfig toml debug configDir files entry = .ok files := by
        rw [loadVolumeConfig, if_neg hentry]
        rfl
      rw [hreads, hload, ok_bind]
      exact ih hfiles

theorem foldlM_loadVolumeConfig_nil :
    entries.foldlM (loadVolumeConfig toml debug configDir) [] = .ok files ↔
      readAll toml entries = files.map .ok ∧ (files.map VolumeFile.volume).Nodup := by
  rw [foldlM_loadVolumeConfig (show (([] : List VolumeFile).map VolumeFile.volume).Nodup from
    List.nodup_nil)]
  constructor
  · rintro ⟨new, hall, rfl, hnodup⟩
    exact ⟨hall, hnodup⟩
  · rintro ⟨hall, hnodup⟩
    exact ⟨files, hall, rfl, hnodup⟩

/-- **What is loaded**: every volume file once, with names that are distinct and sorted. -/
theorem loadVolumeConfigs_eq_ok_iff :
    loadVolumeConfigs toml debug configDir (some (.ok (entries.map .ok))) = .ok files ↔
      (readAll toml entries).Perm (files.map .ok) ∧
        files.Pairwise fun a b => a.volume < b.volume := by
  have hload : loadVolumeConfigs toml debug configDir (some (.ok (entries.map .ok))) = (do
      let loaded ← entries.foldlM (loadVolumeConfig toml debug configDir) []
      return sortByKey VolumeFile.volume loaded) := by
    rw [loadVolumeConfigs, ok_bind, List.foldlM_map]
    rfl
  rw [hload]
  constructor
  · intro h
    obtain ⟨loaded, hloaded, hsorted⟩ := bind_eq_ok h
    obtain ⟨hall, hnodup⟩ := foldlM_loadVolumeConfig_nil.mp hloaded
    obtain rfl : sortByKey VolumeFile.volume loaded = files := Except.ok.inj hsorted
    have hperm : (sortByKey VolumeFile.volume loaded).Perm loaded := sortByKey_perm _ _
    rw [hall]
    refine ⟨(hperm.map _).symm, pairwise_lt_of_sorted ?_ (sortByKey_sorted _ _)⟩
    exact (hperm.map _).nodup_iff.mpr hnodup
  · rintro ⟨hperm, hsorted⟩
    -- the files in the order of the listing
    have hok : readAll toml entries ∈ Set.range (List.map Except.ok) := by
      rw [Set.range_list_map]
      intro r hr
      obtain ⟨file, -, rfl⟩ := List.mem_map.mp (hperm.mem_iff.mp hr)
      exact ⟨file, rfl⟩
    obtain ⟨new, hnew⟩ := hok
    have hfiles : new.Perm files := by
      rw [← hnew] at hperm
      exact (List.map_perm_map_iff fun _ _ => Except.ok.inj).mp hperm
    have hdistinct : (files.map VolumeFile.volume).Nodup :=
      List.pairwise_map.mpr (hsorted.imp ne_of_lt)
    have hnodup : (new.map VolumeFile.volume).Nodup := (hfiles.map _).nodup_iff.mpr hdistinct
    rw [foldlM_loadVolumeConfig_nil.mpr ⟨hnew.symm, hnodup⟩, ok_bind]
    refine congrArg Except.ok (sorted_unique hdistinct ((sortByKey_perm _ _).trans hfiles) (.refl _)
      (sortByKey_sorted _ _) (hsorted.imp le_of_lt))

/-! ## What is found -/

theorem getVolumeConfig_eq_ok {volume : String} {file : VolumeFile} :
    getVolumeConfig (.ok files) volume = .ok file ↔ files.find? (·.volume = volume) = some file := by
  rw [getVolumeConfig, addContext_eq_ok, ok_bind]
  cases files.find? (·.volume = volume) with
  | none => exact iff_of_false (fun h => by cases h) (fun h => by cases h)
  | some found => exact ⟨fun h => congrArg some (Except.ok.inj h), fun h => congrArg Except.ok (Option.some.inj h)⟩

/-- A volume has one configuration. -/
theorem eq_of_volume_eq (hsorted : files.Pairwise fun a b => a.volume < b.volume)
    {file file' : VolumeFile} (hmem : file ∈ files) (hmem' : file' ∈ files)
    (hvolume : file.volume = file'.volume) : file = file' := by
  have hdistinct : (files.map VolumeFile.volume).Nodup :=
    List.pairwise_map.mpr (hsorted.imp ne_of_lt)
  exact List.inj_on_of_nodup_map hdistinct hmem hmem' hvolume

theorem mem_of_getVolumeConfig {volume : String} {file : VolumeFile}
    (h : getVolumeConfig (.ok files) volume = .ok file) : file ∈ files ∧ file.volume = volume := by
  have hfind := getVolumeConfig_eq_ok.mp h
  exact ⟨List.mem_of_find?_eq_some hfind, by simpa using List.find?_some hfind⟩

theorem getVolumeConfig_of_mem (hsorted : files.Pairwise fun a b => a.volume < b.volume)
    {file : VolumeFile} (hmem : file ∈ files) : getVolumeConfig (.ok files) file.volume = .ok file := by
  refine getVolumeConfig_eq_ok.mpr ?_
  obtain ⟨found, hfound⟩ : ∃ found, files.find? (·.volume = file.volume) = some found :=
    Option.isSome_iff_exists.mp (List.find?_isSome.mpr ⟨file, hmem, by simp⟩)
  have hvolume : found.volume = file.volume := by simpa using List.find?_some hfound
  rw [hfound, eq_of_volume_eq hsorted (List.mem_of_find?_eq_some hfound) hmem hvolume]

/-- **The order of the directory does not matter.** Whatever it is, the same volumes are loaded,
every file of the directory once and sorted by name, or loading fails. A volume that was loaded is
found under its name, as its one file has it, and nothing is found under any other name. -/
theorem volumes_any_order (toml : Format Text) (debug : Path → String) (configDir : Path)
    (hperm : entries.Perm entries') (files : List VolumeFile) :
    (loadVolumeConfigs toml debug configDir (some (.ok (entries.map .ok))) = .ok files ↔
      loadVolumeConfigs toml debug configDir (some (.ok (entries'.map .ok))) = .ok files) ∧
    (loadVolumeConfigs toml debug configDir (some (.ok (entries.map .ok))) = .ok files →
      (readAll toml entries).Perm (files.map .ok) ∧
        files.Pairwise fun a b => a.volume < b.volume) ∧
    ∀ volume file,
      getVolumeConfig (loadVolumeConfigs toml debug configDir (some (.ok (entries.map .ok)))) volume
        = .ok file ↔
      (∃ files, loadVolumeConfigs toml debug configDir (some (.ok (entries'.map .ok))) = .ok files) ∧
        file.volume = volume ∧ .ok file ∈ readAll toml entries := by
  have hall : (readAll toml entries).Perm (readAll toml entries') := (hperm.filter _).map _
  have hload (files : List VolumeFile) :
      loadVolumeConfigs toml debug configDir (some (.ok (entries.map .ok))) = .ok files ↔
        loadVolumeConfigs toml debug configDir (some (.ok (entries'.map .ok))) = .ok files := by
    rw [loadVolumeConfigs_eq_ok_iff, loadVolumeConfigs_eq_ok_iff, hall.congr_left]
  refine ⟨hload files, loadVolumeConfigs_eq_ok_iff.mp, fun volume file => ?_⟩
  simp only [← hload]
  constructor
  · intro h
    cases hfiles : loadVolumeConfigs toml debug configDir (some (.ok (entries.map .ok))) with
    | error e =>
      rw [hfiles] at h
      cases h
    | ok files =>
      rw [hfiles] at h
      obtain ⟨hmem, hvolume⟩ := mem_of_getVolumeConfig h
      obtain ⟨hfound, -⟩ := loadVolumeConfigs_eq_ok_iff.mp hfiles
      exact ⟨⟨files, rfl⟩, hvolume, hfound.mem_iff.mpr (List.mem_map_of_mem hmem)⟩
  · rintro ⟨⟨files, hfiles⟩, rfl, hread⟩
    obtain ⟨hfound, hsorted⟩ := loadVolumeConfigs_eq_ok_iff.mp hfiles
    obtain ⟨_, hmem, ⟨⟩⟩ := List.mem_map.mp (hfound.mem_iff.mp hread)
    rw [hfiles]
    exact getVolumeConfig_of_mem hsorted hmem

end

/-- A volume that is thrown away when it is closed, and one that is kept. -/
def swapEntry : DirEntry Table :=
  ⟨"swap.toml", true, .ok [("volume", .string "swap"), ("dev", .string "/dev/sdc"),
    ("auto_open", .boolean true), ("makefs", .string "swap"), ("encrypt", .table [("otp", .table [])])]⟩

def dataEntry : DirEntry Table :=
  ⟨"b.toml", true, .ok [("volume", .string "data"), ("dev", .string "/dev/sdb"),
    ("encrypt", .table [("exec", .table [("command", .string "key")])])]⟩

def swapFile : VolumeFile :=
  ⟨⟨"swap", "/dev/sdc", ⟨some .swap, none⟩, ⟨.otp⟩⟩, some true⟩

def dataFile : VolumeFile :=
  ⟨⟨"data", "/dev/sdb", ⟨none, none⟩, ⟨.exec ⟨"key", []⟩⟩⟩, none⟩

/-- Tables as they are, for text. -/
def tableFormat : Format Table where
  render table := table
  renderPretty table := table
  parse := .ok
  display _ := "invalid"
  parse_renderPretty _ _ := rfl

def twoEntries : List (DirEntry Table) := [swapEntry, ⟨".toml", true, .ok []⟩, dataEntry]

theorem readAll_twoEntries : readAll tableFormat twoEntries = [.ok swapFile, .ok dataFile] := by
  rfl

theorem load_twoEntries (debug : Path → String) (configDir : Path) :
    loadVolumeConfigs tableFormat debug configDir (some (.ok (twoEntries.map .ok))) =
      .ok [dataFile, swapFile] := by
  refine loadVolumeConfigs_eq_ok_iff.mpr ⟨?_, by decide⟩
  rw [readAll_twoEntries]
  exact .swap ..

theorem volumes_any_order_two :
    loadVolumeConfigs tableFormat id "/etc/cryptpilot/volumes"
        (some (.ok (twoEntries.reverse.map .ok))) = .ok [dataFile, swapFile] ∧
      [dataFile, swapFile].Pairwise (fun a b => a.volume < b.volume) ∧
      getVolumeConfig (loadVolumeConfigs tableFormat id "/etc/cryptpilot/volumes"
        (some (.ok (twoEntries.map .ok)))) "swap" = .ok swapFile := by
  have hload := load_twoEntries id "/etc/cryptpilot/volumes"
  have hany := volumes_any_order tableFormat id "/etc/cryptpilot/volumes"
    (List.reverse_perm twoEntries).symm
  obtain ⟨hsame, hsorted, hfound⟩ := hany [dataFile, swapFile]
  have hreverse := hsame.mp hload
  refine ⟨hreverse, (hsorted hload).2, (hfound "swap" swapFile).mpr ⟨⟨_, hreverse⟩, rfl, ?_⟩⟩
  rw [readAll_twoEntries]
  exact List.mem_cons_self

end CryptPilot.Crypt
