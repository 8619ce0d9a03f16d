import CryptPilot.Data.Expand
import CryptPilot.Data.Prog
import CryptPilot.Data.Words

/-!
# The kernel command line that GRUB will use

`disk/grub.rs`. The reference value for attestation is computed from the boot partition: from the
loader entry that the GRUB environment names, or from the menu entry of `grub.cfg`. In a loader
entry, `$name` stands for the value of a variable of the environment.

The code replaces one variable after the other, in the order of a hash map, and then makes one blank
out of two, once. `substitute_iff` says when the order does not matter and the result is that of one
pass over the text, and `cmdline_words_iff` when one blank is left between two arguments.
-/

namespace CryptPilot.Fde

open CryptPilot.Data CryptPilot.Data.Prog CryptPilot.Data.Text

/-! ## The environment -/

/-- A map from names to values. What its entries are listed in is one of the orders in which a loop
may go through them. -/
structure GrubVars where
  entries : List (List Char × List Char)
  nodup : (entries.map Prod.fst).Nodup

namespace GrubVars

def empty : GrubVars := ⟨[], List.nodup_nil⟩

def get (vars : GrubVars) (key : List Char) : Option (List Char) := vars.entries.lookup key

def containsKey (vars : GrubVars) (key : List Char) : Bool := (vars.get key).isSome

def insert (vars : GrubVars) (key value : List Char) : GrubVars where
  entries := vars.entries.filter (·.1 ≠ key) ++ [(key, value)]
  nodup := by
    rw [List.map_append, List.map_singleton, List.nodup_append]
    refine ⟨(List.filter_sublist.map Prod.fst).nodup vars.nodup, by simp, ?_⟩
    intro name hname key' hkey'
    obtain ⟨var, hvar, rfl⟩ := List.mem_map.mp hname
    rw [List.mem_singleton.mp hkey']
    simpa using (List.mem_filter.mp hvar).2

/-- `key=value`. A line without `=` says nothing. -/
def insertLine (vars : GrubVars) (line : List Char) : GrubVars :=
  match find ['='] line with
  | some pos => vars.insert (line.take pos) (line.drop (pos + 1))
  | none => vars

/-- An empty value for a variable that has none. -/
def insertDefault (vars : GrubVars) (key : List Char) : GrubVars :=
  if vars.containsKey key then vars else vars.insert key []

/-- A value for a variable, if there is one. -/
def insertSome (vars : GrubVars) (key : List Char) : Option (List Char) → GrubVars
  | some value => vars.insert key value
  | none => vars

end GrubVars

/-- The value of `kernelopts` in a line that sets it. -/
def kerneloptsValue (start line : List Char) : Option (List Char) :=
  if "set kernelopts=".toList <:+: line then
    (line.dropPrefix? start).map fun opts => trim (· = '"') (trim isWhitespace opts)
  else none

/-- `parse_grub_env_vars`. The second place in `grub.cfg` overrides the first. -/
def parseGrubEnvVars (grubEnv grubCfg : List Char) : GrubVars :=
  let vars := (lines grubEnv).foldl GrubVars.insertLine .empty
  let vars := (vars.insertDefault "tuned_params".toList).insertDefault "tuned_initrd".toList
  if vars.containsKey "kernelopts".toList then vars
  else
    let cfg := lines grubCfg
    let set := cfg.findSome? (kerneloptsValue "set kernelopts=".toList)
    let fallback := (cfg.zip cfg.tail).findSome? fun (line, next) =>
      if "if [ -z \\\"$\x7bkernelopts\x7d\\\" ]; then".toList <:+: line then
        kerneloptsValue "  set kernelopts=".toList next
      else none
    (vars.insertSome "kernelopts".toList set).insertSome "kernelopts".toList fallback

/-! ## Loader entries -/

/-- What is collected from the lines of a loader entry. -/
structure LoaderEntry where
  kernelPath : List Char
  cmdline : List Char
  initrdPath : List Char
  deriving DecidableEq

namespace LoaderEntry

/-- A later line of the same kind overrides an earlier one. -/
def readLine (entry : LoaderEntry) (line : List Char) : LoaderEntry :=
  let rest := trim isWhitespace ((behind [' '] line).getD [])
  if "linux ".toList <+: line then { entry with kernelPath := rest }
  else if "options ".toList <+: line then { entry with cmdline := rest }
  else if "initrd ".toList <+: line then { entry with initrdPath := rest }
  else entry

def parse (content : List Char) : LoaderEntry := (lines content).foldl readLine ⟨[], [], []⟩

/-- The loop over the variables. -/
def substitute (vars : List (List Char × List Char)) (entry : LoaderEntry) : LoaderEntry :=
  vars.foldl (fun entry var => { entry with
    cmdline := replace ('$' :: var.1) var.2 entry.cmdline
    initrdPath := replace ('$' :: var.1) var.2 entry.initrdPath }) entry

end LoaderEntry

/-- One blank for two, once, and none at the ends. -/
def cleanCmdline (cmdline : List Char) : List Char :=
  trim isWhitespace (replace [' ', ' '] [' '] cmdline)

/-- A path, up to the first blank. -/
def cutAtSpace (path : List Char) : List Char :=
  match find [' '] path with
  | some pos => path.take pos
  | none => path

/-- The paths of the kernel and of the initrd, and the command line. -/
abbrev KernelInfo := List Char × List Char × List Char

def LoaderEntry.cleanUp (entry : LoaderEntry) : KernelInfo :=
  (cutAtSpace entry.kernelPath, cutAtSpace entry.initrdPath, cleanCmdline entry.cmdline)

def entryPath (savedEntry : List Char) : List Char :=
  "/boot/loader/entries/".toList ++ savedEntry ++ ".conf".toList

/-- `load_from_loader_entry_file`, with the variables in the order of the loop. -/
def loadFromLoaderEntryFile (readFile : List Char → Except String (List Char))
    (savedEntry : List Char) (vars : List (List Char × List Char)) : Except String KernelInfo := do
  let path := entryPath savedEntry
  let content ←
    addContext s!"Failed to read loader entry file {String.ofList path}" (readFile path)
  return ((LoaderEntry.parse content).substitute vars).cleanUp

/-! ## `grub.cfg` -/

/-- What is collected from the lines of `grub.cfg`. -/
structure MenuEntry where
  inTargetEntry : Bool
  kernelLine : Option (List Char)
  initrdLine : Option (List Char)
  deriving DecidableEq

/-- The loop over the lines. It ends with the menu entry. -/
def scanMenu (savedEntry : List Char) : MenuEntry → List (List Char) → MenuEntry
  | entry, [] => entry
  | entry, line :: rest =>
    let line := trim isWhitespace line
    if "menuentry".toList <+: line ∧ savedEntry <:+: line then
      scanMenu savedEntry { entry with inTargetEntry := true } rest
    else if entry.inTargetEntry then
      -- the first closing brace ends the loop, whatever it closes
      if line = "\x7d".toList then entry
      else
        let trimmed := trim isWhitespace line
        if "linux".toList <+: trimmed ∨ "linuxefi".toList <+: trimmed then
          scanMenu savedEntry { entry with kernelLine := some trimmed } rest
        else if "initrd".toList <+: trimmed ∨ "initrdefi".toList <+: trimmed then
          scanMenu savedEntry { entry with initrdLine := some trimmed } rest
        else scanMenu savedEntry entry rest
    else scanMenu savedEntry entry rest

/-- The title of an entry of a submenu is behind the last `>`. -/
def entryTitle (savedEntry : List Char) : List Char :=
  if '>' ∈ savedEntry then savedEntry.rtakeWhile (· ≠ '>') else savedEntry

def findMenuEntry (savedEntry grubCfg : List Char) : MenuEntry :=
  scanMenu (entryTitle savedEntry) ⟨false, none, none⟩ (lines grubCfg)

/-- An absolute path, in `/boot`. -/
def underBoot (path : List Char) : List Char :=
  match path.dropPrefix? ['/'] with
  | some rest => if "/boot".toList <+: path then path else "/boot/".toList ++ rest
  | none => path

def loadFromGrubCfg (savedEntry grubCfg : List Char) : KernelInfo :=
  let menu := findMenuEntry savedEntry grubCfg
  let (kernelPath, cmdline) := match menu.kernelLine.map (words isWhitespace) with
    | some (_ :: path :: arguments) => (path, unwords ' ' arguments)
    | _ => ([], [])
  let initrdPath := match menu.initrdLine.map (words isWhitespace) with
    | some (_ :: path :: _) => path
    | _ => []
  (underBoot kernelPath, underBoot initrdPath, cleanCmdline cmdline)

/-! ## One pass over the text -/

/-- The characters of the names of variables. -/
def isNameChar (c : Char) : Bool := c.isAlphanum || c = '_'

/-- What the variables stand for, each where the text has its whole name. -/
def LoaderEntry.expand (vars : List (List Char × List Char)) (entry : LoaderEntry) : LoaderEntry :=
  { entry with
    cmdline := Text.expand '$' isNameChar (vars.lookup ·) entry.cmdline
    initrdPath := Text.expand '$' isNameChar (vars.lookup ·) entry.initrdPath }

/-- Whichever variables have been replaced, the next one is found only where the entry itself refers
to it. -/
def LoaderEntry.Separate (vars : List (List Char × List Char)) (entry : LoaderEntry) : Prop :=
  Text.Separate '$' isNameChar vars entry.cmdline ∧
    Text.Separate '$' isNameChar vars entry.initrdPath

/-- The arguments after the path in the line of the kernel. -/
def kernelArguments (savedEntry grubCfg : List Char) : List (List Char) :=
  match (findMenuEntry savedEntry grubCfg).kernelLine with
  | some line => (words isWhitespace line).drop 2
  | none => []

theorem LoaderEntry.substitute_eq (vars : List (List Char × List Char)) (entry : LoaderEntry) :
    entry.substitute vars = { entry with
      cmdline := replaceAll '$' vars entry.cmdline
      initrdPath := replaceAll '$' vars entry.initrdPath } := by
  induction vars generalizing entry with
  | nil => rfl
  | cons var vars ih => exact ih _

theorem isNameChar_mark : isNameChar '$' = false := by decide

section
variable {readFile : List Char → Except String (List Char)} {savedEntry content : List Char}

theorem loadFromLoaderEntryFile_eq (hread : readFile (entryPath savedEntry) = .ok content)
    (order : List (List Char × List Char)) :
    loadFromLoaderEntryFile readFile savedEntry order =
      .ok ((LoaderEntry.parse content).substitute order).cleanUp := by
  simp only [loadFromLoaderEntryFile, hread]
  rfl

/-- **In whatever order, as in one pass.** After every round of the loop, in every order, the entry
is that of one pass with the variables of the rounds so far, exactly if each variable is found only
where the entry refers to it. Then the result does not depend on the order. -/
theorem substitute_iff (hread : readFile (entryPath savedEntry) = .ok content) (vars : GrubVars)
    (hnames : ∀ var ∈ vars.entries, ∀ c ∈ var.1, isNameChar c = true) :
    ((∀ order rounds, order.Perm vars.entries → rounds <+: order →
        (LoaderEntry.parse content).substitute rounds =
          (LoaderEntry.parse content).expand rounds) ↔
      (LoaderEntry.parse content).Separate vars.entries) ∧
    ((LoaderEntry.parse content).Separate vars.entries → ∀ order, order.Perm vars.entries →
      loadFromLoaderEntryFile readFile savedEntry order =
        .ok ((LoaderEntry.parse content).expand vars.entries).cleanUp) := by
  have hmark : ∀ var ∈ vars.entries, '$' ∉ var.1 := fun var hvar h => by
    simpa [isNameChar_mark] using hnames var hvar '$' h
  -- both texts go through the same loop, each for itself
  have hiff (text : List Char) := replaceAll_eq_expand_iff isNameChar_mark vars.nodup hmark text
  have hsubstitute : (LoaderEntry.parse content).Separate vars.entries ↔
      ∀ rounds, rounds.Subperm vars.entries →
        (LoaderEntry.parse content).substitute rounds =
          (LoaderEntry.parse content).expand rounds := by
    rw [LoaderEntry.Separate, ← hiff, ← hiff]
    simp only [LoaderEntry.substitute_eq, LoaderEntry.expand, LoaderEntry.mk.injEq, true_and]
    exact ⟨fun h rounds hrounds => ⟨h.1 rounds hrounds, h.2 rounds hrounds⟩,
      fun h => ⟨fun l hl => (h l hl).1, fun l hl => (h l hl).2⟩⟩
  refine ⟨?_, fun hseparate order horder => ?_⟩
  · rw [hsubstitute]
    constructor
    · intro h rounds hrounds
      obtain ⟨order, horder, hprefix⟩ := subperm_iff_begins.mp hrounds
      exact h order rounds horder hprefix
    · intro h order rounds horder hprefix
      exact h rounds (subperm_iff_begins.mpr ⟨order, horder, hprefix⟩)
  · have hlookup : (order.lookup ·) = (vars.entries.lookup ·) :=
      funext (lookup_perm horder ((horder.map Prod.fst).nodup_iff.mpr vars.nodup))
    rw [loadFromLoaderEntryFile_eq hread, hsubstitute.mp hseparate order horder.subperm,
      LoaderEntry.expand, hlookup]
    rfl

/-- An entry that refers to the variables which are there without any environment. -/
def tunedEntry : List Char := "options ro $tuned_params quiet\ninitrd /i $tuned_initrd".toList

theorem substitute_iff_tuned : (LoaderEntry.parse tunedEntry).Separate
      (parseGrubEnvVars [] []).entries ∧
    ∀ order, order.Perm (parseGrubEnvVars [] []).entries →
      loadFromLoaderEntryFile (fun _ => .ok tunedEntry) "al8".toList order =
        .ok ([], "/i".toList, "ro quiet".toList) := by
  have hseparate : (LoaderEntry.parse tunedEntry).Separate (parseGrubEnvVars [] []).entries := by
    unfold LoaderEntry.Separate
    decide +kernel
  have hnames : (parseGrubEnvVars [] []).entries.all (·.1.all isNameChar) = true := by
    decide +kernel
  have hresult := (@substitute_iff (fun _ => .ok tunedEntry) "al8".toList tunedEntry rfl
    (parseGrubEnvVars [] []) fun var hvar =>
      List.all_eq_true.mp (List.all_eq_true.mp hnames var hvar)).2 hseparate
  refine ⟨hseparate, fun order horder => (hresult order horder).trans ?_⟩
  decide +kernel

/-- One name begins with another: the result depends on the order. -/
theorem substitute_order :
    loadFromLoaderEntryFile (fun _ => .ok "options $opts_extra".toList) "al8".toList
        [("opts".toList, "ro".toList), ("opts_extra".toList, "quiet".toList)] =
      .ok ([], [], "ro_extra".toList) ∧
    loadFromLoaderEntryFile (fun _ => .ok "options $opts_extra".toList) "al8".toList
        [("opts_extra".toList, "quiet".toList), ("opts".toList, "ro".toList)] =
      .ok ([], [], "quiet".toList) := by
  decide +kernel

/-! ## One blank between arguments -/

theorem mem_kernelArguments {grubCfg argument : List Char}
    (h : argument ∈ kernelArguments savedEntry grubCfg) :
    argument ≠ [] ∧ ∀ c ∈ argument, isWhitespace c = false := by
  unfold kernelArguments at h
  split at h
  · exact mem_wordsFrom (by simp) (List.mem_of_mem_drop h)
  · cases h

theorem loadFromGrubCfg_cmdline (savedEntry grubCfg : List Char) :
    (loadFromGrubCfg savedEntry grubCfg).2.2 =
      cleanCmdline (unwords ' ' (kernelArguments savedEntry grubCfg)) := by
  rw [kernelArguments, loadFromGrubCfg]
  rcases (findMenuEntry savedEntry grubCfg).kernelLine with _ | line
  · rfl
  · show _ = cleanCmdline (unwords ' ' ((words isWhitespace line).drop 2))
    rw [Option.map_some]
    rcases words isWhitespace line with _ | ⟨_, _ | ⟨_, _⟩⟩ <;> rfl

/-- **One blank between arguments.** The command line of a loader entry is that of its arguments,
with one blank between them, exactly if the substituted line has only blanks at its ends that
separate arguments, and no three blanks in a row between them. The command line from `grub.cfg`
always is. -/
theorem cmdline_words_iff (hread : readFile (entryPath savedEntry) = .ok content)
    (order : List (List Char × List Char)) (grubCfg : List Char) :
    ((∃ kernelPath initrdPath, loadFromLoaderEntryFile readFile savedEntry order =
        .ok (kernelPath, initrdPath, unwords ' ' (words (· = ' ')
          ((LoaderEntry.parse content).substitute order).cmdline))) ↔
      trim isWhitespace ((LoaderEntry.parse content).substitute order).cmdline =
          trim (· = ' ') ((LoaderEntry.parse content).substitute order).cmdline ∧
        ¬[' ', ' ', ' '] <:+:
          trim (· = ' ') ((LoaderEntry.parse content).substitute order).cmdline) ∧
    (loadFromGrubCfg savedEntry grubCfg).2.2 =
      unwords ' ' (kernelArguments savedEntry grubCfg) := by
  have hspace : isWhitespace ' ' = true := by decide
  constructor
  · rw [loadFromLoaderEntryFile_eq hread, ← trim_squeeze_iff hspace]
    constructor
    · rintro ⟨kernelPath, initrdPath, h⟩
      exact congrArg (·.2.2) (Except.ok.inj h)
    · intro h
      exact ⟨_, _, congrArg (fun cmdline => Except.ok (_, _, cmdline)) h⟩
  · rw [loadFromGrubCfg_cmdline]
    exact trim_squeeze_unwords hspace fun argument h => mem_kernelArguments h

theorem cmdline_words_iff_tuned :
    ∃ kernelPath initrdPath, loadFromLoaderEntryFile (fun _ => .ok tunedEntry) "al8".toList
        (parseGrubEnvVars [] []).entries =
      .ok (kernelPath, initrdPath, unwords ' ' (words (· = ' ')
        ((LoaderEntry.parse tunedEntry).substitute (parseGrubEnvVars [] []).entries).cmdline)) :=
  (@cmdline_words_iff (fun _ => .ok tunedEntry) "al8".toList tunedEntry rfl
    (parseGrubEnvVars [] []).entries []).1.mpr (by decide +kernel)

/-- Two variables without a value, next to each other, leave three blanks. -/
theorem cmdline_words_adjacent :
    loadFromLoaderEntryFile (fun _ => .ok "options ro $tuned_params $extra quiet".toList)
        "al8".toList [("tuned_params".toList, []), ("extra".toList, [])] =
      .ok ([], [], "ro  quiet".toList) ∧
    unwords ' ' (words (· = ' ')
        ((LoaderEntry.parse "options ro $tuned_params $extra quiet".toList).substitute
          [("tuned_params".toList, []), ("extra".toList, [])]).cmdline) =
      "ro quiet".toList := by
  decide +kernel

end

end CryptPilot.Fde
