import CryptPilot.Data.Except
import CryptPilot.Fde.GrubMenu
import CryptPilot.Fde.PartitionDevice

/-!
# Kernel, initrd and command line of the entry that boots

`load_kernel_artifacts` of `disk/grub.rs`. A boot entry is described by a loader entry file, or else
by a menu entry of `grub.cfg`. Both are read separately: what is between the name of a command and
the first blank, or the second word of a line.

In `grub.cfg` a path `/vmlinuz` is one on the boot partition, so the code puts `/boot` before it. It
does not do so in a loader entry, and neither does what comes after: that only puts `/boot` before a
relative path. `locateKernel_iff` says for which paths both descriptions mean the same files.
-/

namespace CryptPilot.Fde

open CryptPilot.Data CryptPilot.Data.Prog CryptPilot.Data.Text

/-! ## The code -/

/-- A relative path is one in `/boot`. -/
def makeAbsolute (path : List Char) : List Char :=
  if path.head? = some '/' then path else "/boot/".toList ++ path

/-- The first part of `load_kernel_artifacts`: from a loader entry file, or else from `grub.cfg`. -/
def locateKernel (readFile : List Char → Except String (List Char)) (vars : GrubVars)
    (grubCfg : List Char) : Except String KernelInfo :=
  match vars.get "saved_entry".toList with
  | none => .error "saved_entry not found in GRUB environment"
  | some savedEntry =>
    let info := match loadFromLoaderEntryFile readFile savedEntry vars.entries with
      | .ok info => info
      | .error _ => loadFromGrubCfg savedEntry grubCfg
    .ok (makeAbsolute info.1, makeAbsolute info.2.1, info.2.2)

inductive PartitionTableType where
  | mbr
  | gpt
  deriving DecidableEq, Repr

/-- The table type in the output of `fdisk -l`, GPT if there is none. -/
def PartitionTableType.ofFdisk (stdout : List Char) : PartitionTableType :=
  ((lines stdout).findSome? fun line =>
    if "Disklabel type: gpt".toList <:+: line then some .gpt
    else if "Disklabel type: dos".toList <:+: line then some .mbr
    else none).getD .gpt

/-- What `load_kernel_artifacts` asks a disk for:
* `readFileOnDisk` is the content of a file, `readFileOnDiskToString` its text;
* `getBootDirLocatedDev` is the partition of `/boot`;
* `fdisk` is the output of `fdisk -l` for a disk;
* `debug` prints a path. -/
structure Disk where
  readFileOnDisk : List Char → Except String (List UInt8)
  readFileOnDiskToString : List Char → Except String (List Char)
  getBootDirLocatedDev : Except String (List Char)
  fdisk : List Char → Except String (List Char)
  debug : List Char → String

/-- `detect_disk_partition_type`. -/
def Disk.detectDiskPartitionType (disk : Disk) : Except String PartitionTableType := do
  let device := getDiskRootDevice (← disk.getBootDirLocatedDev)
  let stdout ← addContext s!"Failed to execute fdisk -l for {disk.debug device}" (disk.fdisk device)
  return .ofFdisk stdout

structure KernelArtifacts where
  kernelCmdlines : List (List Char)
  kernel : List UInt8
  initrd : List UInt8
  deriving DecidableEq

/-- The partition in the words of GRUB. -/
def deviceIdentifier (partitionType : PartitionTableType) (n : Nat) : List Char :=
  match partitionType with
  | .gpt => "(hd0,gpt".toList ++ Nat.toDigits 10 n ++ ")".toList
  | .mbr => "(hd0,msdos".toList ++ Nat.toDigits 10 n ++ ")".toList

/-- `load_kernel_artifacts`. -/
def Disk.loadKernelArtifacts (disk : Disk) (vars : GrubVars) (grubCfg : List Char) :
    Except String KernelArtifacts := do
  let (kernelPath, initrdPath, cmdline) ← locateKernel disk.readFileOnDiskToString vars grubCfg
  let kernel ← addContext s!"Failed to read kernel file at {disk.debug kernelPath}"
    (disk.readFileOnDisk kernelPath)
  let initrd ← addContext s!"Failed to read initrd file at {disk.debug initrdPath}"
    (disk.readFileOnDisk initrdPath)
  let shorter := (kernelPath.dropPrefix? "/boot".toList).getD kernelPath ++ ' ' :: cmdline
  let partitionType ← disk.detectDiskPartitionType
  let device ← disk.getBootDirLocatedDev
  let identifier ← match partitionNumber device with
    | some n => .ok (deviceIdentifier partitionType n)
    | none =>
      .error s!"Unable to extract partition number from device path: {disk.debug device}"
  return ⟨[shorter, identifier ++ kernelPath ++ ' ' :: cmdline], kernel, initrd⟩

/-! ## Loader entries -/

/-- What is behind the name of the last command of a kind. -/
def commandValue (kind : List Char) (ls : List (List Char)) : List Char :=
  ((lastLine kind ls).map fun line => trim isWhitespace ((behind [' '] line).getD [])).getD []

theorem lastLine_concat (kind line : List Char) (ls : List (List Char)) :
    lastLine kind (ls ++ [line]) =
      (if kind <+: line then some line else none).or (lastLine kind ls) := by
  rw [lastLine, lastLine, List.filter_append, List.getLast?_append]
  by_cases h : kind <+: line <;> simp [h]

theorem commandValue_concat (kind line : List Char) (ls : List (List Char)) :
    commandValue kind (ls ++ [line]) =
      if kind <+: line then trim isWhitespace ((behind [' '] line).getD [])
      else commandValue kind ls := by
  rw [commandValue, commandValue, lastLine_concat]
  split_ifs <;> rfl

/-- A later line of the same kind overrides an earlier one. -/
theorem LoaderEntry.parse_eq (content : List Char) :
    LoaderEntry.parse content = ⟨commandValue "linux ".toList (lines content),
      commandValue "options ".toList (lines content),
      commandValue "initrd ".toList (lines content)⟩ := by
  rw [LoaderEntry.parse]
  induction lines content using List.reverseRecOn with
  | nil => rfl
  | append_singleton ls line ih =>
    rw [List.foldl_append, ih, List.foldl_cons, List.foldl_nil, commandValue_concat,
      commandValue_concat, commandValue_concat, readLine]
    -- a line is of one kind at most
    by_cases hlinux : "linux ".toList <+: line
    · obtain ⟨text, rfl⟩ := hlinux
      simp
    · by_cases hoptions : "options ".toList <+: line
      · obtain ⟨text, rfl⟩ := hoptions
        simp
      · simp only [if_neg hlinux, if_neg hoptions]
        split_ifs <;> rfl

/-- The value of a command that is given once. -/
theorem commandValue_of_filter (name : List Char) {value : List Char} {ls : List (List Char)}
    (hname : ' ' ∉ name) (hvalue : trim isWhitespace value = value)
    (h : ls.filter (name ++ [' '] <+: ·) = [name ++ ' ' :: value]) :
    commandValue (name ++ [' ']) ls = value := by
  have hbehind : behind [' '] (name ++ ' ' :: value) = some value := by
    simpa using @behind_marked _ _ ' ' [] name value List.not_mem_nil hname
  rw [commandValue, lastLine, h, List.getLast?_singleton, Option.map_some, Option.getD_some,
    hbehind, Option.getD_some, hvalue]

/-! ## Two descriptions of an entry -/

/-- A path from the root of a partition, without blanks and variables. -/
structure IsBootPath (path : List Char) : Prop where
  absolute : path.head? = some '/'
  plain : ∀ c ∈ path, isWhitespace c = false ∧ c ≠ '$'

/-- The words of a command line, without variables. -/
def IsOptions (options : List (List Char)) : Prop :=
  ∀ option ∈ options, option ≠ [] ∧ ∀ c ∈ option, isWhitespace c = false ∧ c ≠ '$'

/-- A loader entry file that has each command once. -/
structure DescribesEntry (content kernel initrd : List Char) (options : List (List Char)) :
    Prop where
  kernel : (lines content).filter ("linux ".toList <+: ·) = ["linux ".toList ++ kernel]
  initrd : (lines content).filter ("initrd ".toList <+: ·) = ["initrd ".toList ++ initrd]
  options : (lines content).filter ("options ".toList <+: ·) =
    ["options ".toList ++ unwords ' ' options]

/-- A `grub.cfg` whose first menu entry has a title, and each command once. -/
structure DescribesMenu (grubCfg name kernel initrd : List Char) (options : List (List Char)) where
  before : List (List Char)
  header : List Char
  body : List (List Char)
  after : List (List Char)
  lines_eq : (lines grubCfg).map (trim isWhitespace) =
    before ++ header :: (body ++ "\x7d".toList :: after)
  before_plain : ∀ line ∈ before, ¬"menuentry".toList <+: line
  isHeader : "menuentry".toList <+: header
  titled : Quoted name header
  body_plain : ∀ line ∈ body, ¬"menuentry".toList <+: line ∧ line ≠ "\x7d".toList
  kernel : body.filter ("linux".toList <+: ·) = [unwords ' ' ("linux".toList :: kernel :: options)]
  initrd : body.filter ("initrd".toList <+: ·) = [unwords ' ' ["initrd".toList, initrd]]

section
variable {kernel initrd : List Char} {options : List (List Char)}

theorem not_isWhitespace_of_all {text : List Char} (h : text.all (!isWhitespace ·) = true) :
    ∀ c ∈ text, isWhitespace c = false := by
  simpa using h

theorem IsBootPath.trim_eq (h : IsBootPath kernel) : trim isWhitespace kernel = kernel :=
  trim_eq_self_iff.mpr ⟨fun c hc => (h.plain c (List.mem_of_head? hc)).1,
    fun c hc => (h.plain c (List.mem_of_getLast? hc)).1⟩

theorem IsBootPath.cutAtSpace_eq (h : IsBootPath kernel) : cutAtSpace kernel = kernel := by
  have hspace : ' ' ∉ kernel := fun hmem => absurd (h.plain ' ' hmem).1 (by decide)
  have hfind : find [' '] kernel = none := @find_marked_eq_none _ _ ' ' [] kernel hspace
  rw [cutAtSpace, hfind]

theorem IsBootPath.makeAbsolute_eq (h : IsBootPath kernel) : makeAbsolute kernel = kernel :=
  if_pos h.absolute

theorem underBoot_cons (rest : List Char) :
    underBoot ('/' :: rest) =
      if "/boot".toList <+: '/' :: rest then '/' :: rest else "/boot/".toList ++ rest := by
  have hdrop : ('/' :: rest).dropPrefix? ['/'] = some rest := dropPrefix?_append_self ['/'] rest
  rw [underBoot, hdrop]

/-- A path in `/boot` stays where it is, any other is moved there. -/
theorem IsBootPath.underBoot_eq_iff (h : IsBootPath kernel) :
    underBoot kernel = kernel ↔ "/boot".toList <+: kernel := by
  obtain ⟨rest, rfl⟩ := List.head?_eq_some_iff.mp h.absolute
  rw [underBoot_cons]
  split_ifs with hboot
  · exact iff_of_true rfl hboot
  · have hlen : ("/boot/".toList ++ rest).length ≠ ('/' :: rest).length := by
      rw [List.length_append, List.length_cons, show "/boot/".toList.length = 6 from rfl]
      omega
    exact iff_of_false (fun heq => hlen (congrArg List.length heq)) hboot

theorem IsBootPath.makeAbsolute_underBoot (h : IsBootPath kernel) :
    makeAbsolute (underBoot kernel) = underBoot kernel := by
  obtain ⟨rest, rfl⟩ := List.head?_eq_some_iff.mp h.absolute
  rw [underBoot_cons]
  split_ifs <;> rfl

theorem IsOptions.words (h : IsOptions options) :
    ∀ option ∈ options, option ≠ [] ∧ ∀ c ∈ option, isWhitespace c = false :=
  fun option ho => ⟨(h option ho).1, fun c hc => ((h option ho).2 c hc).1⟩

end

section
variable {readFile : List Char → Except String (List Char)} {vars : GrubVars}
  {savedEntry content grubCfg kernel initrd : List Char} {options : List (List Char)}

/-- The paths of a loader entry stay as they are. -/
theorem locateKernel_of_entry (hentry : vars.get "saved_entry".toList = some savedEntry)
    (hkernel : IsBootPath kernel) (hinitrd : IsBootPath initrd) (hoptions : IsOptions options)
    (hread : readFile (entryPath savedEntry) = .ok content)
    (h : DescribesEntry content kernel initrd options) :
    locateKernel readFile vars grubCfg = .ok (kernel, initrd, unwords ' ' options) := by
  have hclean : cleanCmdline (unwords ' ' options) = unwords ' ' options :=
    trim_squeeze_unwords (by decide) hoptions.words
  have hmark : '$' ∉ unwords ' ' options :=
    not_mem_unwords (by decide) fun option ho hmem => ((hoptions option ho).2 '$' hmem).2 rfl
  have htrim : trim isWhitespace (unwords ' ' options) = unwords ' ' options := by
    rw [← hclean, cleanCmdline, trim_trim]
  have hparse : LoaderEntry.parse content = ⟨kernel, unwords ' ' options, initrd⟩ := by
    rw [LoaderEntry.parse_eq]
    congr
    · exact commandValue_of_filter "linux".toList (by decide) hkernel.trim_eq h.kernel
    · exact commandValue_of_filter "options".toList (by decide) htrim h.options
    · exact commandValue_of_filter "initrd".toList (by decide) hinitrd.trim_eq h.initrd
  have hload : loadFromLoaderEntryFile readFile savedEntry vars.entries =
      .ok (kernel, initrd, unwords ' ' options) := by
    rw [loadFromLoaderEntryFile_eq hread, hparse, LoaderEntry.substitute_eq,
      replaceAll_of_not_mem hmark,
      replaceAll_of_not_mem fun hmem => (hinitrd.plain '$' hmem).2 rfl, LoaderEntry.cleanUp,
      hkernel.cutAtSpace_eq, hinitrd.cutAtSpace_eq, hclean]
  rw [locateKernel, hentry]
  simp only [hload, hkernel.makeAbsolute_eq, hinitrd.makeAbsolute_eq]

/-- The menu entry is found, with its lines. -/
theorem findMenuEntry_of_describes (hsubmenu : '>' ∉ savedEntry)
    (h : DescribesMenu grubCfg savedEntry kernel initrd options) :
    findMenuEntry savedEntry grubCfg =
      ⟨true, some (unwords ' ' ("linux".toList :: kernel :: options)),
        some (unwords ' ' ["initrd".toList, initrd])⟩ := by
  have htrim : ∀ line ∈ h.before ++ h.header :: (h.body ++ "\x7d".toList :: h.after),
      trim isWhitespace line = line := by
    rw [← h.lines_eq]
    intro line hline
    obtain ⟨line, -, rfl⟩ := List.mem_map.mp hline
    exact trim_trim isWhitespace line
  have hbefore : ∀ line ∈ h.before, ¬("menuentry".toList <+: trim isWhitespace line ∧
      savedEntry <:+: trim isWhitespace line) := by
    intro line hline hnamed
    rw [htrim line (List.mem_append_left _ hline)] at hnamed
    exact h.before_plain line hline hnamed.1
  have hbody : ∀ line ∈ h.body, trim isWhitespace line = line := fun line hline =>
    htrim line (by simp [hline])
  rw [findMenuEntry, entryTitle, if_neg hsubmenu, ← scanMenu_map_trim, h.lines_eq,
    scanMenu_append_of_not_named hbefore,
    scanMenu_of_named (htrim h.header (by simp)) h.isHeader (infix_of_quoted h.titled),
    scanMenu_body hbody h.body_plain, lastLine, lastLine, h.kernel, h.initrd]
  rfl

/-- The paths of a menu entry are paths in `/boot`. -/
theorem locateKernel_of_menu (hentry : vars.get "saved_entry".toList = some savedEntry)
    (hsubmenu : '>' ∉ savedEntry) (hkernel : IsBootPath kernel) (hinitrd : IsBootPath initrd)
    (hoptions : IsOptions options) {error : String}
    (hread : readFile (entryPath savedEntry) = .error error)
    (h : DescribesMenu grubCfg savedEntry kernel initrd options) :
    locateKernel readFile vars grubCfg =
      .ok (underBoot kernel, underBoot initrd, unwords ' ' options) := by
  have hword {text : List Char} (hpath : IsBootPath text) :
      text ≠ [] ∧ ∀ c ∈ text, isWhitespace c = false :=
    ⟨fun hnil => by simpa [hnil] using hpath.absolute, fun c hc => (hpath.plain c hc).1⟩
  have hkernelWords : words isWhitespace (unwords ' ' ("linux".toList :: kernel :: options)) =
      "linux".toList :: kernel :: options := by
    refine words_unwords (by decide) ?_
    rw [List.forall_mem_cons, List.forall_mem_cons]
    exact ⟨⟨by decide, not_isWhitespace_of_all (by decide)⟩, hword hkernel, hoptions.words⟩
  have hinitrdWords : words isWhitespace (unwords ' ' ["initrd".toList, initrd]) =
      ["initrd".toList, initrd] := by
    refine words_unwords (by decide) ?_
    rw [List.forall_mem_cons, List.forall_mem_singleton]
    exact ⟨⟨by decide, not_isWhitespace_of_all (by decide)⟩, hword hinitrd⟩
  have hload : loadFromGrubCfg savedEntry grubCfg =
      (underBoot kernel, underBoot initrd, unwords ' ' options) := by
    rw [loadFromGrubCfg_eq_bootInfo, findMenuEntry_of_describes hsubmenu h, bootInfo,
      commandArguments, commandArguments, Option.getD_some, Option.getD_some, hkernelWords,
      hinitrdWords]
    rfl
  have hmissing : ∃ error, loadFromLoaderEntryFile readFile savedEntry vars.entries =
      .error error := by
    simp only [loadFromLoaderEntryFile, hread]
    exact ⟨_, rfl⟩
  obtain ⟨error, hmissing⟩ := hmissing
  rw [locateKernel, hentry]
  simp only [hmissing, hload, hkernel.makeAbsolute_underBoot, hinitrd.makeAbsolute_underBoot]

end

/-- **Both descriptions of an entry mean the same files** exactly if the paths of the kernel and of
the initrd begin with `/boot`. The command line is the same in any case. -/
theorem locateKernel_iff {withEntry withoutEntry : List Char → Except String (List Char)}
    {vars : GrubVars} {savedEntry content grubCfg kernel initrd : List Char}
    {options : List (List Char)} {error : String}
    (hentry : vars.get "saved_entry".toList = some savedEntry) (hsubmenu : '>' ∉ savedEntry)
    (hkernel : IsBootPath kernel) (hinitrd : IsBootPath initrd) (hoptions : IsOptions options)
    (hwith : withEntry (entryPath savedEntry) = .ok content)
    (hcontent : DescribesEntry content kernel initrd options)
    (hwithout : withoutEntry (entryPath savedEntry) = .error error)
    (hcfg : DescribesMenu grubCfg savedEntry kernel initrd options) (otherCfg : List Char) :
    locateKernel withEntry vars otherCfg = locateKernel withoutEntry vars grubCfg ↔
      "/boot".toList <+: kernel ∧ "/boot".toList <+: initrd := by
  rw [locateKernel_of_entry hentry hkernel hinitrd hoptions hwith hcontent,
    locateKernel_of_menu hentry hsubmenu hkernel hinitrd hoptions hwithout hcfg,
    ← hkernel.underBoot_eq_iff, ← hinitrd.underBoot_eq_iff]
  simp [eq_comm]

/-- So on a disk with a loader entry, the same artifacts are loaded as without it. -/
theorem Disk.loadKernelArtifacts_of_describes {disk : Disk}
    {withoutEntry : List Char → Except String (List Char)} {vars : GrubVars}
    {savedEntry content grubCfg kernel initrd : List Char} {options : List (List Char)}
    {error : String} (hentry : vars.get "saved_entry".toList = some savedEntry)
    (hsubmenu : '>' ∉ savedEntry) (hkernel : IsBootPath kernel) (hinitrd : IsBootPath initrd)
    (hoptions : IsOptions options)
    (hwith : disk.readFileOnDiskToString (entryPath savedEntry) = .ok content)
    (hcontent : DescribesEntry content kernel initrd options)
    (hwithout : withoutEntry (entryPath savedEntry) = .error error)
    (hcfg : DescribesMenu grubCfg savedEntry kernel initrd options) (otherCfg : List Char)
    (hboot : "/boot".toList <+: kernel) (hboot' : "/boot".toList <+: initrd) :
    disk.loadKernelArtifacts vars otherCfg =
      { disk with readFileOnDiskToString := withoutEntry }.loadKernelArtifacts vars grubCfg := by
  rw [loadKernelArtifacts, loadKernelArtifacts,
    locateKernel_of_entry hentry hkernel hinitrd hoptions hwith hcontent,
    locateKernel_of_menu hentry hsubmenu hkernel hinitrd hoptions hwithout hcfg,
    hkernel.underBoot_eq_iff.mpr hboot, hinitrd.underBoot_eq_iff.mpr hboot']
  rfl

/-- A GRUB environment with nothing but the entry that boots. -/
def bootsEntry (savedEntry : List Char) : GrubVars :=
  ⟨[("saved_entry".toList, savedEntry)], by simp⟩

/-- The two descriptions of an entry, for a kernel and an initrd. -/
def entryFile (kernel initrd : String) : List Char :=
  s!"linux {kernel}\ninitrd {initrd}\noptions ro quiet".toList

def menuFile (kernel initrd : String) : List Char :=
  s!"menuentry 'al8' \x7b\n  linux {kernel} ro quiet\n  initrd {initrd}\n\x7d".toList

theorem plain_of_all {text : List Char}
    (h : text.all (fun c => !isWhitespace c && c != '$') = true) :
    ∀ c ∈ text, isWhitespace c = false ∧ c ≠ '$' := by
  simpa using h

/-- What `menuFile` describes. -/
def describesMenu_boot : DescribesMenu (menuFile "/boot/k" "/boot/i") "al8".toList
    "/boot/k".toList "/boot/i".toList ["ro".toList, "quiet".toList] where
  before := []
  header := "menuentry 'al8' \x7b".toList
  body := ["linux /boot/k ro quiet".toList, "initrd /boot/i".toList]
  after := []
  lines_eq := by decide +kernel
  before_plain := by simp
  isHeader := by decide
  titled := .inl ⟨"menuentry ".toList, " \x7b".toList, rfl⟩
  body_plain := by decide
  kernel := by decide
  initrd := by decide

theorem locateKernel_iff_boot :
    locateKernel (fun _ => .ok (entryFile "/boot/k" "/boot/i")) (bootsEntry "al8".toList) [] =
      locateKernel (fun _ => .error "not found") (bootsEntry "al8".toList)
        (menuFile "/boot/k" "/boot/i") :=
  (@locateKernel_iff (fun _ => .ok (entryFile "/boot/k" "/boot/i")) (fun _ => .error "not found")
    (bootsEntry "al8".toList) "al8".toList (entryFile "/boot/k" "/boot/i")
    (menuFile "/boot/k" "/boot/i") "/boot/k".toList "/boot/i".toList
    ["ro".toList, "quiet".toList] "not found" (by decide +kernel) (by decide)
    ⟨rfl, plain_of_all (by decide)⟩ ⟨rfl, plain_of_all (by decide)⟩
    (List.forall_mem_cons.mpr ⟨⟨by decide, plain_of_all (by decide)⟩,
      List.forall_mem_singleton.mpr ⟨by decide, plain_of_all (by decide)⟩⟩) rfl
    ⟨by decide +kernel, by decide +kernel, by decide +kernel⟩ rfl describesMenu_boot []).mpr
    (by decide)

/-- Paths on the boot partition are moved to `/boot` in one description only. -/
theorem locateKernel_partition :
    locateKernel (fun _ => .ok (entryFile "/vmlinuz" "/initrd")) (bootsEntry "al8".toList) [] =
      .ok ("/vmlinuz".toList, "/initrd".toList, "ro quiet".toList) ∧
    locateKernel (fun _ => .error "not found") (bootsEntry "al8".toList)
        (menuFile "/vmlinuz" "/initrd") =
      .ok ("/boot/vmlinuz".toList, "/boot/initrd".toList, "ro quiet".toList) := by
  decide +kernel

end CryptPilot.Fde
