import CryptPilot.VerityFuse.Filesystem

/-!
# Listing a directory

`readdir` fills a reply as far as its buffer goes; the kernel calls it again with the offset attached
to the last entry it got, until a reply is empty. The offsets count positions in the list of all
entries. But from offset 1 on, `readdir` leaves out the entries for the directory itself and the one
above it *and* skips as many entries as the offset says, so after the first reply it is ahead by one
or two entries.

Hence nothing is lost or repeated if the first reply takes the whole listing, and otherwise
something always is lost (`listDir_eq`). A recorded name that turns out to be neither a directory,
nor a file, nor a link is not listed at all; `listDir_complete_iff` takes both into account.
-/

namespace CryptPilot.VerityFuse

open CryptPilot.Data CryptPilot.VerityCore

section
variable (fromPath : Bytes → Option RelativePath) (verifier : FileVerifier) (source : Source)
  (entSize : Bytes → Nat)

/-- The loop over `ReplyDirectory::add`, with room for `cap` more bytes. `entSize` is the size of an
entry in the reply. -/
def fillReply : Nat → Int → List DirEntry → List (DirEntry × Int)
  | _, _, [] => []
  | cap, index, e :: rest =>
    if entSize e.name ≤ cap then
      (e, index) :: fillReply (cap - entSize e.name) (index + 1) rest
    else []

/-- `readdir`, with a reply buffer of `cap` bytes: the entries delivered, and their offsets. -/
def readdir (ino : Nat) (offset : Int) (cap : Nat) : Except Errno (List (DirEntry × Int)) := do
  let entries ← readdirEntries fromPath verifier source ino offset
  let offset := max offset 0
  return fillReply entSize cap (offset + 1) (entries.drop offset.toNat)

/-- How the kernel lists a directory: call `readdir` with the offset of the last entry delivered,
until nothing is delivered. `caps` are the sizes of the reply buffers; `none` means that the last
call was not reached. -/
def listDir (ino : Nat) (caps : Nat → Nat) : Nat → Nat → Int → Option (Except Errno (List DirEntry))
  | 0, _, _ => none
  | fuel + 1, call, offset =>
    match readdir fromPath verifier source entSize ino offset (caps call) with
    | .error e => some (.error e)
    | .ok reply =>
      match reply.getLast? with
      | none => some (.ok [])
      | some (_, next) =>
        (listDir ino caps fuel (call + 1) next).map (Except.map (reply.map Prod.fst ++ ·))

end

/-! ## One reply -/

section
variable (entSize : Bytes → Nat)

/-- The bytes that entries take in a reply. -/
def totalSize (entries : List DirEntry) : Nat := (entries.map fun e => entSize e.name).sum

/-- A reply is the first `n` entries with their offsets. It is all of them if they fit, and at least
one if the first one fits. -/
theorem fillReply_eq (entries : List DirEntry) : ∀ (cap : Nat) (index : Int),
    ∃ n ≤ entries.length,
      (fillReply entSize cap index entries).map Prod.fst = entries.take n ∧
      (∀ e next, (fillReply entSize cap index entries).getLast? = some (e, next) →
        next = index + n - 1) ∧
      (n = entries.length ↔ totalSize entSize entries ≤ cap) ∧
      ∀ e ∈ entries.head?, entSize e.name ≤ cap → 0 < n := by
  induction entries with
  | nil => intro cap index; exact ⟨0, Nat.le_refl _, rfl, by simp [fillReply], by simp [totalSize],
      by simp⟩
  | cons e rest ih =>
    intro cap index
    by_cases hfit : entSize e.name ≤ cap
    · obtain ⟨n, hn, hmap, hlast, hall, -⟩ := ih (cap - entSize e.name) (index + 1)
      refine ⟨n + 1, by simpa using hn, ?_, ?_, ?_, by simp⟩
      · simp [fillReply, hfit, hmap]
      · intro e' next hnext
        rw [fillReply, if_pos hfit, List.getLast?_cons] at hnext
        cases hrest : (fillReply entSize (cap - entSize e.name) (index + 1) rest).getLast? with
        | none =>
          -- the reply ends with this entry
          have hzero : n = 0 := by
            have hnil := List.getLast?_eq_none_iff.mp hrest
            rw [hnil] at hmap
            have hlen := congrArg List.length hmap
            simp only [List.map_nil, List.length_nil, List.length_take] at hlen
            omega
          rw [hrest] at hnext
          simp only [Option.getD_none, Option.some.injEq, Prod.mk.injEq] at hnext
          subst hzero
          omega
        | some last =>
          rw [hrest] at hnext
          simp only [Option.getD_some, Option.some.injEq] at hnext
          subst hnext
          have := hlast e' next hrest
          push_cast
          omega
      · simp only [totalSize, List.map_cons, List.sum_cons, List.length_cons] at hall ⊢
        rw [Nat.add_right_cancel_iff, hall]
        omega
    · refine ⟨0, Nat.zero_le _, ?_, ?_, ?_, ?_⟩
      · simp [fillReply, hfit]
      · simp [fillReply, hfit]
      · simp only [totalSize, List.map_cons, List.sum_cons, List.length_cons]
        omega
      · intro e' he' hfit'
        cases he'
        exact absurd hfit' hfit

variable {entSize} {fromPath : Bytes → Option RelativePath} {verifier : FileVerifier}
  {source : Source}

/-- Nothing is delivered that was not collected. -/
theorem readdir_eq_ok {ino : Nat} {offset : Int} {cap : Nat} {reply : List (DirEntry × Int)}
    (h : readdir fromPath verifier source entSize ino offset cap = .ok reply) :
    ∃ entries, readdirEntries fromPath verifier source ino offset = .ok entries ∧
      ∀ r ∈ reply, r.1 ∈ entries := by
  obtain ⟨entries, hentries, h⟩ := bind_eq_ok h
  cases h
  refine ⟨entries, hentries, fun r hr => ?_⟩
  obtain ⟨n, -, hmap, -⟩ :=
    fillReply_eq entSize (entries.drop (max offset 0).toNat) cap (max offset 0 + 1)
  have hmem : r.1 ∈ (entries.drop (max offset 0).toNat).take n := hmap ▸ List.mem_map_of_mem hr
  exact List.mem_of_mem_drop (List.mem_of_mem_take hmem)

end

/-! ## All replies -/

section
variable {fromPath : Bytes → Option RelativePath} {verifier : FileVerifier} {source : Source}
  {entSize : Bytes → Nat} {ino : Nat} {file : VerifiableFile} {object : Object} {caps : Nat → Nat}

/-- The entries from offset `k` on, as `readdir` sees them. -/
def remaining (ino : Nat) (children : List DirEntry) (k : Nat) : List DirEntry :=
  (dotEntries ino k ++ children).drop k

theorem remaining_zero (children : List DirEntry) :
    remaining ino children 0 = ⟨ino, .directory, dot⟩ :: ⟨ino, .directory, dotDot⟩ :: children := by
  simp [remaining, dotEntries]

/-- After the first entry, the second one is gone. -/
theorem remaining_one (children : List DirEntry) : remaining ino children 1 = children := by
  simp [remaining, dotEntries]

/-- Later on, two entries are gone. -/
theorem remaining_of_two_le (children : List DirEntry) {k : Nat} (hk : 2 ≤ k) :
    remaining ino children k = children.drop k := by
  have h0 : ¬ (k : Int) ≤ 0 := by omega
  have h1 : ¬ (k : Int) ≤ 1 := by omega
  rw [remaining, dotEntries, if_neg h0, if_neg h1]
  rfl

theorem readdir_eq (hfile : verifier.lookupByIno ino = some file)
    (hobj : source.object file.path = .ok object) (hdir : object.metadata.kind = .directory)
    (k cap : Nat) :
    readdir fromPath verifier source entSize ino k cap =
      .ok (fillReply entSize cap (k + 1)
        (remaining ino (childEntries fromPath verifier source file.path object.names) k)) := by
  have hmeta : source.symlinkMetadata file.path = .ok object.metadata := by
    rw [Source.symlinkMetadata, hobj]
    rfl
  have hnames : source.readDir file.path = .ok object.names := by
    simp [Source.readDir, hobj, Metadata.isDir, hdir, pure, Except.pure]
  have hget : getMetadata source file = .ok object.metadata := by
    simp [getMetadata, hmeta, checkMetadataFileSize, Metadata.isFile, Metadata.isSymlink, hdir,
      pure, Except.pure]
  simp [readdir, readdirEntries, hfile, hget, hnames, Metadata.isDir, hdir, pure, Except.pure,
    remaining]

/-- One call: `n` of the remaining entries are delivered, and the listing goes on after them. -/
theorem listDir_succ (hfile : verifier.lookupByIno ino = some file)
    (hobj : source.object file.path = .ok object) (hdir : object.metadata.kind = .directory)
    {children rem : List DirEntry} {k : Nat}
    (hchildren : children = childEntries fromPath verifier source file.path object.names)
    (hrem : rem = remaining ino children k) {call : Nat}
    (hcap : ∀ e ∈ rem.head?, entSize e.name ≤ caps call) (fuel : Nat) :
    ∃ n ≤ rem.length, (n = rem.length ↔ totalSize entSize rem ≤ caps call) ∧
      (rem ≠ [] → 0 < n) ∧
      listDir fromPath verifier source entSize ino caps (fuel + 1) call k =
        if n = 0 then some (.ok [])
        else (listDir fromPath verifier source entSize ino caps fuel (call + 1)
          ((k + n : Nat) : Int)).map (Except.map (rem.take n ++ ·)) := by
  obtain ⟨n, hn, hmap, hlast, hall, hpos⟩ := fillReply_eq entSize rem (caps call) (k + 1)
  refine ⟨n, hn, hall, ?_, ?_⟩
  · intro hne
    obtain ⟨e, rest, rfl⟩ := List.exists_cons_of_ne_nil hne
    exact hpos e rfl (hcap e rfl)
  · rw [listDir, readdir_eq hfile hobj hdir, ← hchildren, ← hrem]
    dsimp only
    cases hget : (fillReply entSize (caps call) (k + 1) rem).getLast? with
    | none =>
      have hnil := List.getLast?_eq_none_iff.mp hget
      rw [hnil] at hmap
      have hlen := congrArg List.length hmap
      simp only [List.map_nil, List.length_nil, List.length_take] at hlen
      rw [if_pos (by omega)]
    | some last =>
      obtain ⟨e, next⟩ := last
      have hnext := hlast e next hget
      have hne : n ≠ 0 := by
        rintro rfl
        rw [List.take_zero, List.map_eq_nil_iff] at hmap
        rw [hmap] at hget
        cases hget
      rw [if_neg hne]
      dsimp only
      rw [hmap, hnext, show (k : Int) + 1 + n - 1 = ((k + n : Nat) : Int) by push_cast; omega]

variable (hfile : verifier.lookupByIno ino = some file)
  (hobj : source.object file.path = .ok object) (hdir : object.metadata.kind = .directory)
  {children : List DirEntry}
  (hchildren : children = childEntries fromPath verifier source file.path object.names)
  (hcap : ∀ call, ∀ e ∈ remaining ino children 0, entSize e.name ≤ caps call)

include hcap in
theorem child_fits {k call : Nat} {e : DirEntry} (he : e ∈ (children.drop k).head?) :
    entSize e.name ≤ caps call := by
  apply hcap call e
  rw [remaining_zero]
  exact List.mem_cons_of_mem _ (List.mem_cons_of_mem _
    (List.mem_of_mem_drop (List.mem_of_mem_head? he)))

include hfile hobj hdir hchildren hcap

/-- From offset 2 on, the children from that position on are listed. -/
theorem listDir_of_two_le : ∀ (fuel call k : Nat), 2 ≤ k → (children.drop k).length < fuel →
    listDir fromPath verifier source entSize ino caps fuel call k =
      some (.ok (children.drop k)) := by
  intro fuel
  induction fuel with
  | zero => intro _ _ _ hfuel; omega
  | succ fuel ih =>
    intro call k hk hfuel
    have hfits : ∀ e ∈ (children.drop k).head?, entSize e.name ≤ caps call :=
      fun e he => child_fits hcap he
    obtain ⟨n, hn, -, hpos, hstep⟩ := listDir_succ hfile hobj hdir hchildren
      (remaining_of_two_le children hk).symm hfits fuel
    rw [hstep]
    split
    · next h0 =>
      have hnil : children.drop k = [] := by
        by_contra hne
        exact absurd (hpos hne) (by omega)
      rw [hnil]
    · next hne =>
      have hlen : (children.drop (k + n)).length < fuel := by
        rw [List.length_drop] at hfuel hn ⊢
        omega
      rw [ih (call + 1) (k + n) (by omega) hlen]
      show some (Except.ok ((children.drop k).take n ++ children.drop (k + n))) = _
      rw [← List.drop_drop, List.take_append_drop]

/-- After a first reply of one entry, at most the children are listed. -/
theorem listDir_one {fuel : Nat} (hfuel : children.length + 1 < fuel) (call : Nat) :
    ∃ delivered, listDir fromPath verifier source entSize ino caps fuel call (1 : Nat) =
      some (.ok delivered) ∧ delivered.length ≤ children.length := by
  obtain ⟨fuel, rfl⟩ : ∃ f, fuel = f + 1 := ⟨fuel - 1, by omega⟩
  have hfits : ∀ e ∈ children.head?, entSize e.name ≤ caps call :=
    fun e he => child_fits hcap (k := 0) (by simpa using he)
  obtain ⟨n, hn, -, -, hstep⟩ := listDir_succ hfile hobj hdir hchildren
    (remaining_one children).symm hfits fuel
  rw [hstep]
  split
  · exact ⟨[], rfl, Nat.zero_le _⟩
  · have hlen : (children.drop (1 + n)).length < fuel := by
      rw [List.length_drop]
      omega
    rw [listDir_of_two_le hfile hobj hdir hchildren hcap fuel (call + 1) (1 + n) (by omega) hlen]
    refine ⟨children.take n ++ children.drop (1 + n), rfl, ?_⟩
    rw [List.length_append, List.length_take, List.length_drop]
    omega

/-- If the first reply takes the whole listing, that is what is listed; otherwise something is
missing. -/
theorem listDir_eq {fuel : Nat} (hfuel : children.length + 2 < fuel) :
    ∃ delivered, listDir fromPath verifier source entSize ino caps fuel 0 (0 : Nat) =
        some (.ok delivered) ∧
      (totalSize entSize (remaining ino children 0) ≤ caps 0 →
        delivered = remaining ino children 0) ∧
      (¬ totalSize entSize (remaining ino children 0) ≤ caps 0 →
        delivered.length < (remaining ino children 0).length) := by
  obtain ⟨fuel, rfl⟩ : ∃ f, fuel = f + 1 := ⟨fuel - 1, by omega⟩
  have hlen0 : (remaining ino children 0).length = children.length + 2 := by
    rw [remaining_zero]
    rfl
  obtain ⟨n, hn, hall, hpos, hstep⟩ := listDir_succ hfile hobj hdir hchildren rfl
    (fun e he => hcap 0 e (List.mem_of_mem_head? he)) fuel
  have hn0 : 0 < n := hpos (List.ne_nil_of_length_pos (by omega))
  rw [hstep, if_neg (by omega), Nat.zero_add n]
  rcases Nat.lt_or_ge n 2 with hone | htwo
  · -- a single entry was delivered
    obtain rfl : n = 1 := by omega
    obtain ⟨later, hlater, hle⟩ := listDir_one hfile hobj hdir hchildren hcap
      (by omega : children.length + 1 < fuel) (0 + 1)
    rw [hlater]
    have hshort : ((remaining ino children 0).take 1 ++ later).length <
        (remaining ino children 0).length := by
      rw [List.length_append, List.length_take]
      omega
    refine ⟨_, rfl, fun hfit => ?_, fun _ => hshort⟩
    have := hall.mpr hfit
    omega
  · have hlen : (children.drop n).length < fuel := by
      rw [List.length_drop]
      omega
    rw [listDir_of_two_le hfile hobj hdir hchildren hcap fuel (0 + 1) n htwo hlen]
    refine ⟨(remaining ino children 0).take n ++ children.drop n, rfl, ?_, ?_⟩
    · intro hfit
      rw [hall.mpr hfit, List.take_length, List.drop_eq_nil_of_le (by omega), List.append_nil]
    · intro hfit
      have hlt : n < (remaining ino children 0).length :=
        Nat.lt_of_le_of_ne hn (fun h => hfit (hall.mp h))
      rw [List.length_append, List.length_take, List.length_drop]
      omega

end

/-! ## The listing and what is recorded -/

section
variable (fromPath : Bytes → Option RelativePath) (verifier : FileVerifier) (source : Source)

/-- The metadata of a name in a directory, if the name is recorded and its size check passes. -/
def checkedChild (dirPath : RelativePath) (name : Bytes) : Option Metadata := do
  let childPath := dirPath ++ (← fromPath name)
  let metadata ← (source.symlinkMetadata childPath).toOption
  let childFile ← verifier.lookupByPath childPath
  (checkMetadataFileSize childFile metadata).toOption
  return metadata

/-- The names of a directory that are recorded and pass their size check. -/
def checkedNames (dirPath : RelativePath) (names : List (Except IoError Bytes)) : List Bytes :=
  (names.filterMap Except.toOption).filter
    fun name => (checkedChild fromPath verifier source dirPath name).isSome

/-- What a listing should have. -/
def expectedNames (dirPath : RelativePath) (names : List (Except IoError Bytes)) : List Bytes :=
  dot :: dotDot :: checkedNames fromPath verifier source dirPath names

end

section
variable {fromPath : Bytes → Option RelativePath} {verifier : FileVerifier} {source : Source}

/-- The name of an entry: of the names that pass, those with a type that is reported. -/
theorem childEntry_map_name (dirPath : RelativePath) (name : Bytes) :
    (childEntry fromPath verifier source dirPath name).map DirEntry.name =
      if (checkedChild fromPath verifier source dirPath name).any (fun m => (fileType m).isSome)
      then some name else none := by
  unfold childEntry checkedChild
  cases fromPath name with
  | none => rfl
  | some relative =>
    cases hmeta : (source.symlinkMetadata (dirPath ++ relative)).toOption with
    | none => simp [hmeta]
    | some metadata =>
      cases hfile : verifier.lookupByPath (dirPath ++ relative) with
      | none => simp [hmeta, hfile]
      | some childFile =>
        cases hcheck : (checkMetadataFileSize childFile metadata).toOption with
        | none => simp [hmeta, hfile, hcheck]
        | some _ => cases hkind : fileType metadata <;> simp [hmeta, hfile, hcheck, hkind]

theorem map_name_childEntries (dirPath : RelativePath) (names : List (Except IoError Bytes)) :
    (childEntries fromPath verifier source dirPath names).map DirEntry.name =
      (checkedNames fromPath verifier source dirPath names).filter
        fun name => (checkedChild fromPath verifier source dirPath name).any
          fun m => (fileType m).isSome := by
  rw [childEntries, checkedNames, List.map_filterMap, List.filter_filter,
    ← List.filterMap_eq_filter]
  congr 1
  funext name
  rw [childEntry_map_name]
  cases hchild : checkedChild fromPath verifier source dirPath name <;>
    simp [Option.guard, hchild]

theorem fileType_isSome_iff (metadata : Metadata) :
    (fileType metadata).isSome ↔ metadata.kind ≠ .other := by
  unfold fileType Metadata.isDir Metadata.isFile Metadata.isSymlink
  cases metadata.kind <;> simp

/-- No name that passes is left out exactly if all of them have a type that is reported. -/
theorem forall_reported_iff (dirPath : RelativePath) (names : List (Except IoError Bytes)) :
    (∀ name ∈ checkedNames fromPath verifier source dirPath names,
        (checkedChild fromPath verifier source dirPath name).any
          (fun m => (fileType m).isSome) = true) ↔
      ∀ name ∈ checkedNames fromPath verifier source dirPath names, ∀ metadata,
        checkedChild fromPath verifier source dirPath name = some metadata →
          metadata.kind ≠ .other := by
  refine forall₂_congr fun name hname => ?_
  obtain ⟨m, hm⟩ := Option.isSome_iff_exists.mp (List.mem_filter.mp hname).2
  simp [hm, fileType_isSome_iff]

end

section
variable {fromPath : Bytes → Option RelativePath} {verifier : FileVerifier} {source : Source}
  {entSize : Bytes → Nat} {ino : Nat} {file : VerifiableFile} {object : Object} {caps : Nat → Nat}

/-- **Directory listing.** Listing a directory comes to an end, whatever the sizes of the replies as
long as each has room for one entry. It has `.`, `..` and every recorded name that passes its size
check, each once, exactly if the first reply has room for all of them and none of the names is of a
type that is not reported. -/
theorem listDir_complete_iff (hfile : verifier.lookupByIno ino = some file)
    (hobj : source.object file.path = .ok object) (hdir : object.metadata.kind = .directory)
    (hcap : ∀ call, ∀ e ∈ remaining ino
      (childEntries fromPath verifier source file.path object.names) 0,
        entSize e.name ≤ caps call)
    {fuel : Nat} (hfuel :
      (childEntries fromPath verifier source file.path object.names).length + 2 < fuel) :
    ∃ delivered, listDir fromPath verifier source entSize ino caps fuel 0 0 =
        some (.ok delivered) ∧
      ((delivered.map DirEntry.name).Perm
          (expectedNames fromPath verifier source file.path object.names) ↔
        totalSize entSize (remaining ino
            (childEntries fromPath verifier source file.path object.names) 0) ≤ caps 0 ∧
          ∀ name ∈ checkedNames fromPath verifier source file.path object.names, ∀ metadata,
            checkedChild fromPath verifier source file.path name = some metadata →
              metadata.kind ≠ .other) := by
  obtain ⟨delivered, hlist, hall, hshort⟩ := listDir_eq hfile hobj hdir rfl hcap hfuel
  refine ⟨delivered, hlist, ?_⟩
  have hnames : (remaining ino (childEntries fromPath verifier source file.path object.names)
      0).map DirEntry.name = dot :: dotDot :: (checkedNames fromPath verifier source file.path
        object.names).filter fun name => (checkedChild fromPath verifier source file.path name).any
          fun m => (fileType m).isSome := by
    rw [remaining_zero, List.map_cons, List.map_cons, map_name_childEntries]
  have hlen := congrArg List.length hnames
  have hle := List.length_filter_le (fun name => (checkedChild fromPath verifier source file.path
    name).any fun m => (fileType m).isSome)
    (checkedNames fromPath verifier source file.path object.names)
  rw [List.length_map, List.length_cons, List.length_cons] at hlen
  rw [← forall_reported_iff]
  constructor
  · -- a listing that is complete is as long as it should be
    intro hperm
    have hcount := hperm.length_eq
    rw [List.length_map, expectedNames, List.length_cons, List.length_cons] at hcount
    have hfit : totalSize entSize (remaining ino
        (childEntries fromPath verifier source file.path object.names) 0) ≤ caps 0 := by
      by_contra hno
      have := hshort hno
      omega
    rw [hall hfit] at hcount
    exact ⟨hfit, List.length_filter_eq_length_iff.mp (by omega)⟩
  · rintro ⟨hfit, hkinds⟩
    rw [hall hfit, hnames, List.filter_eq_self.mpr hkinds, expectedNames]

end

/-- The files `a` and `b`, in one directory. -/
def abInfos : List (FileVerityInfo FsVerityDigest.lengthHash) :=
  [{ FileVerityInfo.twoInfo with path := "a" }, { FileVerityInfo.twoInfo with path := "b" }]

def abVerifier : FileVerifier := (VerityVerifier.new abInfos).toFileVerifier .dev

def abDirectory : Object :=
  ⟨⟨.directory, 0, none, none, none, 0, 1, 0, 0⟩, [], [.ok [97], .ok [98]]⟩

def abSource : Source := .ofObjects fun path =>
  .ok <| if path = [] then abDirectory
    else ⟨⟨.file, 128, none, none, none, 0, 1, 0, 0⟩, [], []⟩

def abPath (name : Bytes) : Option RelativePath :=
  if name = [97] then some ["a"] else if name = [98] then some ["b"] else none

/-- The size of `fuse_dirent` with a name, up to the next multiple of 8. -/
def direntSize (name : Bytes) : Nat := (24 + name.length + 7) / 8 * 8

theorem ab_fits : ∀ e ∈ remaining rootIno
    (childEntries abPath abVerifier abSource [] abDirectory.names) 0, direntSize e.name ≤ 32 := by
  decide +kernel

theorem listDir_complete_large_reply :
    ∃ delivered, listDir abPath abVerifier abSource direntSize rootIno (fun _ => 4096) 5 0 0 =
        some (.ok delivered) ∧
      (delivered.map DirEntry.name).Perm
        (expectedNames abPath abVerifier abSource [] abDirectory.names) := by
  obtain ⟨file, hfile, hpath⟩ : ∃ file, abVerifier.lookupByIno rootIno = some file ∧
      file.path = [] := ⟨_, rfl, rfl⟩
  have hobj : abSource.object file.path = .ok abDirectory := by rw [hpath]; rfl
  have hcap : ∀ call : Nat, ∀ e ∈ remaining rootIno
      (childEntries abPath abVerifier abSource file.path abDirectory.names) 0,
        direntSize e.name ≤ (fun _ => 4096) call :=
    fun _ e he => (ab_fits e (hpath ▸ he)).trans (show 32 ≤ 4096 by decide)
  have hfuel : (childEntries abPath abVerifier abSource file.path abDirectory.names).length + 2 <
      5 := by
    rw [hpath]
    decide +kernel
  obtain ⟨delivered, hlist, hiff⟩ := listDir_complete_iff hfile hobj rfl hcap hfuel
  rw [hpath] at hiff
  refine ⟨delivered, hlist, hiff.mpr ⟨by decide +kernel, ?_⟩⟩
  rw [← forall_reported_iff]
  decide +kernel

/-- With replies that have room for one entry, `..` and `b` are lost. -/
theorem listDir_one_entry_replies :
    (∀ e ∈ remaining rootIno (childEntries abPath abVerifier abSource [] abDirectory.names) 0,
        direntSize e.name ≤ 32) ∧
      expectedNames abPath abVerifier abSource [] abDirectory.names =
        [dot, dotDot, [97], [98]] ∧
      (listDir abPath abVerifier abSource direntSize rootIno (fun _ => 32) 5 0 0).map
        (Except.map (List.map DirEntry.name)) = some (.ok [dot, [97]]) :=
  ⟨ab_fits, by decide +kernel, rfl⟩

end CryptPilot.VerityFuse
