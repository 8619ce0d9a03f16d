import CryptPilot.Fde.Grub

/-!
# The menu entry that is measured

`load_from_grub_cfg` of `disk/grub.rs`, on a `grub.cfg` that is a menu: blocks

    menuentry 'title' … 'id' {
      linux  /vmlinuz root=/dev/vda1
      initrd /initrd.img
    }

one after the other, some of them in submenus. The code goes through the lines and takes the first
block whose first line contains the name of the saved entry anywhere (`scanMenu_lines`). So it is not
the block of that name if another one before it contains the name too (`loadFromGrubCfg_iff`).
-/

namespace CryptPilot.Fde

open CryptPilot.Data CryptPilot.Data.Text

/-! ## Menus -/

/-- A name in quotation marks. -/
def Quoted (name line : List Char) : Prop :=
  '\'' :: name ++ ['\''] <:+: line ∨ '"' :: name ++ ['"'] <:+: line

/-- A menu entry, in lines without blanks around them. -/
structure MenuBlock where
  title : List Char
  id : List Char
  header : List Char
  body : List (List Char)
  isHeader : "menuentry".toList <+: header
  trim_header : trim isWhitespace header = header
  quoted_title : Quoted title header
  quoted_id : Quoted id header
  trim_body : ∀ line ∈ body, trim isWhitespace line = line
  /-- A block has no other block in it, and ends with its first closing brace. -/
  plain_body : ∀ line ∈ body, ¬"menuentry".toList <+: line ∧ line ≠ "\x7d".toList

/-- The first line of a submenu. -/
structure SubmenuHeader where
  line : List Char
  isHeader : "submenu".toList <+: line
  trim_line : trim isWhitespace line = line

/-- A menu, and what comes after its first item. -/
inductive Menu where
  | nil
  | entry (block : MenuBlock) (rest : Menu)
  | submenu (header : SubmenuHeader) (items rest : Menu)

def Menu.lines : Menu → List (List Char)
  | nil => []
  | entry block rest => block.header :: (block.body ++ "\x7d".toList :: rest.lines)
  | submenu header items rest => header.line :: (items.lines ++ "\x7d".toList :: rest.lines)

/-- All entries, also those in submenus. -/
def Menu.blocks : Menu → List MenuBlock
  | nil => []
  | entry block rest => block :: rest.blocks
  | submenu _ items rest => items.blocks ++ rest.blocks

/-! ## What a block boots -/

/-- The last line of a kind. -/
def lastLine (kind : List Char) (ls : List (List Char)) : Option (List Char) :=
  (ls.filter (kind <+: ·)).getLast?

/-- The arguments of the command in a line. -/
def commandArguments (line : Option (List Char)) : List (List Char) :=
  (words isWhitespace (line.getD [])).tail

/-- Kernel path and arguments from one line, the path of the initrd from the other. -/
def bootInfo (kernelLine initrdLine : Option (List Char)) : KernelInfo :=
  (underBoot ((commandArguments kernelLine).headD []),
    underBoot ((commandArguments initrdLine).headD []),
    unwords ' ' (commandArguments kernelLine).tail)

def MenuBlock.info (block : MenuBlock) : KernelInfo :=
  bootInfo (lastLine "linux".toList block.body) (lastLine "initrd".toList block.body)

theorem loadFromGrubCfg_eq_bootInfo (savedEntry grubCfg : List Char) :
    loadFromGrubCfg savedEntry grubCfg =
      bootInfo (findMenuEntry savedEntry grubCfg).kernelLine
        (findMenuEntry savedEntry grubCfg).initrdLine := by
  have harguments : kernelArguments savedEntry grubCfg =
      (commandArguments (findMenuEntry savedEntry grubCfg).kernelLine).tail := by
    rw [kernelArguments, commandArguments]
    cases (findMenuEntry savedEntry grubCfg).kernelLine with
    | none => rfl
    | some line => rw [Option.getD_some, ← List.drop_one, ← List.drop_one, List.drop_drop]
  have hcmdline : (loadFromGrubCfg savedEntry grubCfg).2.2 =
      unwords ' ' (commandArguments (findMenuEntry savedEntry grubCfg).kernelLine).tail := by
    rw [loadFromGrubCfg_cmdline, ← harguments]
    exact trim_squeeze_unwords (by decide) fun argument h => mem_kernelArguments h
  refine Prod.ext ?_ (Prod.ext ?_ hcmdline)
  · rw [loadFromGrubCfg, bootInfo]
    rcases (findMenuEntry savedEntry grubCfg).kernelLine with _ | line
    · rfl
    · simp only [commandArguments, Option.getD_some, Option.map_some]
      rcases words isWhitespace line with _ | ⟨_, _ | ⟨_, _⟩⟩ <;> rfl
  · rw [loadFromGrubCfg, bootInfo]
    rcases (findMenuEntry savedEntry grubCfg).initrdLine with _ | line
    · rfl
    · simp only [commandArguments, Option.getD_some, Option.map_some]
      rcases words isWhitespace line with _ | ⟨_, _ | ⟨_, _⟩⟩ <;> rfl

/-! ## The loop over the lines -/

theorem lastLine_cons (kind line : List Char) (ls : List (List Char)) :
    lastLine kind (line :: ls) =
      (lastLine kind ls).or (if kind <+: line then some line else none) := by
  rw [lastLine, lastLine]
  by_cases h : kind <+: line
  · rw [List.filter_cons_of_pos (by simpa using h), if_pos h, List.getLast?_cons]
    cases (ls.filter (kind <+: ·)).getLast? <;> rfl
  · rw [List.filter_cons_of_neg (by simpa using h), if_neg h, Option.or_none]

section
variable {name line : List Char}

/-- Before the entry is found, lines that do not begin it say nothing. -/
theorem scanMenu_append_of_not_named {before : List (List Char)}
    (h : ∀ line ∈ before, ¬("menuentry".toList <+: trim isWhitespace line ∧
      name <:+: trim isWhitespace line)) (rest : List (List Char)) :
    scanMenu name ⟨false, none, none⟩ (before ++ rest) =
      scanMenu name ⟨false, none, none⟩ rest := by
  induction before with
  | nil => rfl
  | cons line before ih =>
    rw [List.forall_mem_cons] at h
    rw [List.cons_append, scanMenu, ← ih h.2]
    simp only [if_neg h.1]
    rfl

theorem scanMenu_of_named (htrim : trim isWhitespace line = line)
    (hheader : "menuentry".toList <+: line) (hname : name <:+: line) (entry : MenuEntry)
    (rest : List (List Char)) :
    scanMenu name entry (line :: rest) =
      scanMenu name { entry with inTargetEntry := true } rest := by
  rw [scanMenu, htrim]
  exact if_pos ⟨hheader, hname⟩

theorem scanMenu_close (kernelLine initrdLine : Option (List Char)) (rest : List (List Char)) :
    scanMenu name ⟨true, kernelLine, initrdLine⟩ ("\x7d".toList :: rest) =
      ⟨true, kernelLine, initrdLine⟩ := by
  have htrim : trim isWhitespace "\x7d".toList = "\x7d".toList := by decide
  have hheader : ¬"menuentry".toList <+: "\x7d".toList := by decide
  rw [scanMenu, htrim]
  simp only [hheader, false_and, if_false, if_true]

/-- A line in the entry that was found. -/
theorem scanMenu_line (htrim : trim isWhitespace line = line)
    (hplain : ¬"menuentry".toList <+: line ∧ line ≠ "\x7d".toList)
    (kernelLine initrdLine : Option (List Char)) (rest : List (List Char)) :
    scanMenu name ⟨true, kernelLine, initrdLine⟩ (line :: rest) =
      scanMenu name ⟨true, (if "linux".toList <+: line then some line else none).or kernelLine,
        (if "initrd".toList <+: line then some line else none).or initrdLine⟩ rest := by
  have hlinux : ("linux".toList <+: line ∨ "linuxefi".toList <+: line) ↔ "linux".toList <+: line :=
    or_iff_left_of_imp (List.prefix_append "linux".toList "efi".toList).trans
  have hinitrd : ("initrd".toList <+: line ∨ "initrdefi".toList <+: line) ↔
      "initrd".toList <+: line :=
    or_iff_left_of_imp (List.prefix_append "initrd".toList "efi".toList).trans
  rw [scanMenu]
  simp only [htrim, hplain.1, hplain.2, hlinux, hinitrd, false_and, if_false, if_true]
  by_cases hkernel : "linux".toList <+: line
  · -- no line is of both kinds
    have hother : ¬"initrd".toList <+: line := by
      obtain ⟨text, rfl⟩ := hkernel
      simp
    simp only [if_pos hkernel, if_neg hother]
    rfl
  · simp only [if_neg hkernel]
    split_ifs <;> rfl

/-- In the entry that was found, the last line of each kind counts. -/
theorem scanMenu_body {body : List (List Char)}
    (htrim : ∀ line ∈ body, trim isWhitespace line = line)
    (hplain : ∀ line ∈ body, ¬"menuentry".toList <+: line ∧ line ≠ "\x7d".toList)
    (kernelLine initrdLine : Option (List Char)) (rest : List (List Char)) :
    scanMenu name ⟨true, kernelLine, initrdLine⟩ (body ++ "\x7d".toList :: rest) =
      ⟨true, (lastLine "linux".toList body).or kernelLine,
        (lastLine "initrd".toList body).or initrdLine⟩ := by
  induction body generalizing kernelLine initrdLine with
  | nil => exact scanMenu_close kernelLine initrdLine rest
  | cons line body ih =>
    rw [List.forall_mem_cons] at htrim hplain
    rw [List.cons_append, scanMenu_line htrim.1 hplain.1, ih htrim.2 hplain.2, lastLine_cons,
      lastLine_cons, Option.or_assoc, Option.or_assoc]

end

/-- The lines of a menu lead into the first block that contains the name, if there is one. -/
theorem scanMenu_lines (name : List Char) (menu : Menu) (rest : List (List Char)) :
    scanMenu name ⟨false, none, none⟩ (menu.lines ++ rest) =
      match menu.blocks.find? (name <:+: ·.header) with
      | some block => ⟨true, lastLine "linux".toList block.body, lastLine "initrd".toList block.body⟩
      | none => scanMenu name ⟨false, none, none⟩ rest := by
  have hclose : ¬("menuentry".toList <+: trim isWhitespace "\x7d".toList ∧
      name <:+: trim isWhitespace "\x7d".toList) := fun h => absurd h.1 (by decide)
  induction menu generalizing rest with
  | nil => rfl
  | entry block menu ih =>
    rw [Menu.lines, Menu.blocks, List.cons_append, List.append_assoc, List.cons_append]
    by_cases hname : name <:+: block.header
    · rw [List.find?_cons_of_pos (by simpa using hname),
        scanMenu_of_named block.trim_header block.isHeader hname,
        scanMenu_body block.trim_body block.plain_body]
      simp only [Option.or_none]
    · have hskip : ∀ line ∈ block.header :: (block.body ++ ["\x7d".toList]),
          ¬("menuentry".toList <+: trim isWhitespace line ∧ name <:+: trim isWhitespace line) := by
        intro line hline h
        rcases List.mem_cons.mp hline with rfl | hline
        · rw [block.trim_header] at h
          exact hname h.2
        · rcases List.mem_append.mp hline with hline | hline
          · rw [block.trim_body line hline] at h
            exact (block.plain_body line hline).1 h.1
          · rw [List.mem_singleton.mp hline] at h
            exact hclose h
      have hsplit : block.header :: (block.body ++ "\x7d".toList :: (menu.lines ++ rest)) =
          (block.header :: (block.body ++ ["\x7d".toList])) ++ (menu.lines ++ rest) := by simp
      rw [List.find?_cons_of_neg (by simpa using hname), ← ih, hsplit,
        scanMenu_append_of_not_named hskip]
  | submenu header items menu ihItems ih =>
    have hheader : ∀ line ∈ [header.line],
        ¬("menuentry".toList <+: trim isWhitespace line ∧ name <:+: trim isWhitespace line) := by
      intro line hline h
      rw [List.mem_singleton.mp hline, header.trim_line] at h
      obtain ⟨text, htext⟩ := header.isHeader
      rw [← htext] at h
      simp at h
    have hfirst := scanMenu_append_of_not_named hheader
      (items.lines ++ "\x7d".toList :: (menu.lines ++ rest))
    rw [Menu.lines, Menu.blocks, List.cons_append, List.append_assoc, List.cons_append,
      ← List.singleton_append, hfirst, ihItems, List.find?_append]
    cases hitems : items.blocks.find? (name <:+: ·.header) with
    | some block => rfl
    | none =>
      have hlast := @scanMenu_append_of_not_named name ["\x7d".toList]
        (by simpa using hclose) (menu.lines ++ rest)
      rw [List.singleton_append] at hlast
      simp only [Option.none_or, hlast, ih]

theorem scanMenu_map_trim (name : List Char) (entry : MenuEntry) (ls : List (List Char)) :
    scanMenu name entry (ls.map (trim isWhitespace)) = scanMenu name entry ls := by
  induction ls generalizing entry with
  | nil => rfl
  | cons line ls ih => simp only [List.map_cons, scanMenu, trim_trim, ih]

theorem infix_of_quoted {name line : List Char} (h : Quoted name line) : name <:+: line := by
  have hquoted (c : Char) : name <:+: c :: name ++ [c] := ⟨[c], [c], by simp⟩
  rcases h with h | h
  · exact (hquoted '\'').trans h
  · exact (hquoted '"').trans h

theorem loadFromGrubCfg_of_find {grubCfg savedEntry : List Char} {menu : Menu} {first : MenuBlock}
    (hcfg : (lines grubCfg).map (trim isWhitespace) = menu.lines)
    (hfirst : menu.blocks.find? (entryTitle savedEntry <:+: ·.header) = some first) :
    loadFromGrubCfg savedEntry grubCfg = first.info := by
  have hscan := scanMenu_lines (entryTitle savedEntry) menu []
  rw [hfirst, List.append_nil, ← hcfg, scanMenu_map_trim] at hscan
  rw [loadFromGrubCfg_eq_bootInfo, findMenuEntry, hscan]
  rfl

/-- **The block of the saved entry is measured** exactly if the first block that has the name of the
saved entry anywhere in its first line boots the same kernel, arguments and initrd. -/
theorem loadFromGrubCfg_iff {grubCfg savedEntry : List Char} {menu : Menu} {block : MenuBlock}
    (hcfg : (lines grubCfg).map (trim isWhitespace) = menu.lines) (hblock : block ∈ menu.blocks)
    (hname : entryTitle savedEntry = block.title ∨ entryTitle savedEntry = block.id) :
    loadFromGrubCfg savedEntry grubCfg = block.info ↔
      ∀ first, menu.blocks.find? (entryTitle savedEntry <:+: ·.header) = some first →
        first.info = block.info := by
  have hheader : entryTitle savedEntry <:+: block.header := by
    rcases hname with h | h
    · rw [h]
      exact infix_of_quoted block.quoted_title
    · rw [h]
      exact infix_of_quoted block.quoted_id
  -- the block itself contains the name, so there is a first one that does
  have hsome : (menu.blocks.find? (entryTitle savedEntry <:+: ·.header)).isSome = true :=
    List.find?_isSome.mpr ⟨block, hblock, by simpa using hheader⟩
  obtain ⟨first, hfirst⟩ := Option.isSome_iff_exists.mp hsome
  rw [loadFromGrubCfg_of_find hcfg hfirst, hfirst]
  simp

/-! ## Titles that extend one another -/

/-- A block with nothing but title and id in its first line, that boots a kernel and an initrd. -/
def MenuBlock.boots (title id : List Char) (kernelLine initrdLine : List Char)
    (htrim : ∀ line ∈ [kernelLine, initrdLine], trim isWhitespace line = line)
    (hplain : ∀ line ∈ [kernelLine, initrdLine],
      ¬"menuentry".toList <+: line ∧ line ≠ "\x7d".toList) : MenuBlock where
  title := title
  id := id
  header := "menuentry '".toList ++ title ++ "' '".toList ++ id ++ "' \x7b".toList
  body := [kernelLine, initrdLine]
  isHeader := ⟨" '".toList ++ title ++ "' '".toList ++ id ++ "' \x7b".toList, by simp⟩
  trim_header := trim_eq_self_iff.mpr ⟨by simp; decide, fun c hc => by
    rw [List.getLast?_append_of_ne_nil _ (by decide)] at hc
    obtain rfl : '\x7b' = c := Option.some.inj hc
    decide⟩
  quoted_title := .inl ⟨"menuentry ".toList, " '".toList ++ id ++ "' \x7b".toList, by simp⟩
  quoted_id := .inl ⟨"menuentry '".toList ++ title ++ "' ".toList, " \x7b".toList, by simp⟩
  trim_body := htrim
  plain_body := hplain

def linuxBlock : MenuBlock :=
  .boots "Linux".toList "os".toList "linux /vmlinuz ro".toList "initrd /initrd".toList
    (by decide) (by decide)

def rescueBlock : MenuBlock :=
  .boots "Linux rescue".toList "rescue".toList "linux /rescue single".toList "initrd /initrd".toList
    (by decide) (by decide)

/-- The lines of two blocks. -/
def twoBlocks (first second : MenuBlock) : List Char :=
  ['\n'].intercalate (Menu.entry first (.entry second .nil)).lines

theorem loadFromGrubCfg_iff_first :
    loadFromGrubCfg "Linux".toList (twoBlocks linuxBlock rescueBlock) = linuxBlock.info :=
  (@loadFromGrubCfg_iff (twoBlocks linuxBlock rescueBlock) "Linux".toList
    (.entry linuxBlock (.entry rescueBlock .nil)) linuxBlock (by decide +kernel)
    List.mem_cons_self (.inl rfl)).mpr fun first hfirst =>
      congrArg MenuBlock.info (Option.some.inj hfirst).symm

/-- The rescue system is measured in place of the one that boots. -/
theorem loadFromGrubCfg_rescue :
    loadFromGrubCfg "Linux".toList (twoBlocks rescueBlock linuxBlock) =
        ("/boot/rescue".toList, "/boot/initrd".toList, "single".toList) ∧
      linuxBlock.info = ("/boot/vmlinuz".toList, "/boot/initrd".toList, "ro".toList) := by
  decide +kernel

end CryptPilot.Fde
