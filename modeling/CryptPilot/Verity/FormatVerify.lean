import CryptPilot.Data.Utf8
import CryptPilot.Verity.RoundTrip

/-!
# A formatted directory verifies

`format` measures the files first and then writes: the metadata, and the root hash if it is not
printed. `verify` finds the files by the text of their names. So a directory that was just formatted
verifies if the names lead to the files that were measured and no output went to one of them, nor
the root hash to the metadata (`Undisturbed`). Otherwise it does not, unless an output happens to be
the content that was measured, or two strings collide (`verify_formatted`).

Nothing in `format` sees to that. Only files with the default name of the metadata are left out:
formatting again with `--force` and other metadata below the directory is enough
(`verify_reformatted`).
-/

namespace CryptPilot.Verity

open CryptPilot.Data CryptPilot.VerityCore CryptPilot.VerityFuse

variable {h : Bytes → List.Vector UInt8 32} {σ η ℓ : Type} {libs : Libs h} {p : Profile}
  {host : Host σ η} {s : σ} {options : FormatOptions} {out : FormatOutput σ}

/-! ## Files -/

/-- A host whose paths lead to regular files. A path may lead to a place where no file is yet, and
several paths may lead to one place. Reading and mapping find what is stored there. Writing stores
it, changes no other file, and does not change where paths lead. -/
structure FileStore (host : Host σ η) (ℓ : Type) [DecidableEq ℓ] where
  place : σ → PathBuf → Option ℓ
  stored : σ → ℓ → Option Bytes
  read_iff : ∀ {s path bytes}, host.read s path = .ok bytes ↔
    ∃ l, place s path = some l ∧ stored s l = some bytes
  content_iff : ∀ {s path bytes}, host.content s path = .ok bytes ↔
    ∃ l, place s path = some l ∧ stored s l = some bytes
  write_inv : ∀ {s path bytes s'}, host.write s path bytes = .ok s' →
    place s' = place s ∧ ∃ l, place s path = some l ∧
      stored s' = Function.update (stored s) l (some bytes)

variable [DecidableEq ℓ] {store : FileStore host ℓ}

/-- The root hash is written to where this path leads; to no place if it is printed. -/
def FileStore.hashPlace (store : FileStore host ℓ) (s : σ) (options : FormatOptions) : Option ℓ :=
  if options.hashOutput = utf8 "-" then none else store.place s options.hashOutput

/-- What `format` leaves behind. -/
structure Wrote (store : FileStore host ℓ) (s : σ) (options : FormatOptions)
    (out : FormatOutput σ) : Prop where
  place_eq : store.place out.state = store.place s
  metadata : ∃ l, store.place s options.metadataPath = some l ∧
    (store.hashPlace s options ≠ some l → store.stored out.state l = some out.metadata)
  rootHash : ∀ l, store.hashPlace s options = some l →
    store.stored out.state l = some (utf8 out.rootHash)
  others : ∀ l, store.place s options.metadataPath ≠ some l → store.hashPlace s options ≠ some l →
    store.stored out.state l = store.stored s l

theorem wrote_of_format (hf : (format libs p host s options).run = some (.ok out)) :
    Wrote store s options out := by
  obtain ⟨-, s₁, -, -, hmeta, -, hhash⟩ := format_inv hf
  obtain ⟨hplace, m, hm, hstored⟩ := store.write_inv hmeta
  rcases hhash with ⟨hprint, rfl⟩ | ⟨hwrite, hhash⟩
  · have hnone : store.hashPlace s options = none := if_pos hprint
    refine ⟨hplace, ⟨m, hm, fun _ => ?_⟩, fun l hl => ?_, fun l hl _ => ?_⟩
    · rw [hstored, Function.update_self]
    · rw [hnone] at hl
      cases hl
    · have hlm : l ≠ m := by
        rintro rfl
        exact hl hm
      rw [hstored, Function.update_of_ne hlm]
  · obtain ⟨hplace', o, ho, hstored'⟩ := store.write_inv hhash
    rw [hplace] at ho
    have hsome : store.hashPlace s options = some o := (if_neg hwrite).trans ho
    refine ⟨hplace'.trans hplace, ⟨m, hm, fun hne => ?_⟩, fun l hl => ?_, fun l hl hne => ?_⟩
    · have hmo : m ≠ o := by
        rintro rfl
        exact hne hsome
      rw [hstored', Function.update_of_ne hmo, hstored, Function.update_self]
    · rw [hsome, Option.some.injEq] at hl
      rw [hstored', hl, Function.update_self]
    · have hlo : l ≠ o := by
        rintro rfl
        exact hne hsome
      have hlm : l ≠ m := by
        rintro rfl
        exact hl hm
      rw [hstored', Function.update_of_ne hlo, hstored, Function.update_of_ne hlm]

/-! ## Undisturbed files -/

/-- The text that is recorded for a file. -/
def recordedPath (libs : Libs h) (options : FormatOptions) (file : WalkEntry) : PathBuf :=
  join options.dataDir (utf8 (libs.toStringLossy file.relative))

/-- The name that is recorded for a file leads to a file with its content, and neither output goes
there. The root hash does not replace the metadata. -/
structure Undisturbed (store : FileStore host ℓ) (libs : Libs h) (s : σ) (options : FormatOptions) :
    Prop where
  metadata : ∀ l, store.place s options.metadataPath = some l → store.hashPlace s options ≠ some l
  files : ∀ file ∈ recordedFiles host s options,
    ∃ l content, store.place s (recordedPath libs options file) = some l ∧
      store.stored s l = some content ∧
      host.read s (join options.dataDir file.relative) = .ok content ∧
      store.place s options.metadataPath ≠ some l ∧ store.hashPlace s options ≠ some l

/-- It is enough that names are UTF-8 and the outputs go to other places. -/
theorem undisturbed_of_text
    (hmeta : ∀ l, store.place s options.metadataPath = some l → store.hashPlace s options ≠ some l)
    (htext : ∀ file ∈ recordedFiles host s options, ∃ text, file.relative = utf8 text)
    (hread : ∀ file ∈ recordedFiles host s options, ∃ content,
      host.read s (join options.dataDir file.relative) = .ok content)
    (hother : ∀ file ∈ recordedFiles host s options, ∀ l,
      store.place s (join options.dataDir file.relative) = some l →
        store.place s options.metadataPath ≠ some l ∧ store.hashPlace s options ≠ some l) :
    Undisturbed store libs s options := by
  refine ⟨hmeta, fun file hfile => ?_⟩
  obtain ⟨text, heq⟩ := htext file hfile
  obtain ⟨content, hcontent⟩ := hread file hfile
  obtain ⟨l, hl, hstored⟩ := store.read_iff.mp hcontent
  have hpath : recordedPath libs options file = join options.dataDir file.relative := by
    rw [recordedPath, heq, libs.toStringLossy_utf8]
  rw [hpath]
  exact ⟨l, content, hl, hstored, hcontent, hother file hfile l hl⟩

/-! ## The directory after `format` -/

/-- `verify` on the directory, the metadata and the root hash of `format`. -/
def verifyOptions (options : FormatOptions) (out : FormatOutput σ) : VerifyOptions :=
  ⟨options.dataDir, out.rootHash, options.metadata, false⟩

theorem verify_of_undisturbed (hf : (format libs .release host s options).run = some (.ok out))
    (hu : Undisturbed store libs s options) :
    (verify libs .release host out.state (verifyOptions options out)).run = some (.ok ()) := by
  have hw : Wrote store s options out := wrote_of_format hf
  obtain ⟨hroot, -⟩ := format_eq_ok hf
  -- the metadata is read back, and its records are those that were made
  obtain ⟨metadata, infos, hmetadata, -, hperm, hinfos⟩ := exists_formatted hf
  obtain ⟨m, hm, hstored⟩ := hw.metadata
  have hread : host.read out.state (verifyOptions options out).metadataPath = .ok out.metadata :=
    store.read_iff.mpr ⟨m, by rw [hw.place_eq]; exact hm, hstored (hu.metadata m hm)⟩
  have hmem : ∀ info ∈ metadata.fileInfos, ∃ file ∈ recordedFiles host s options,
      (formatFile libs .release host s options file).run = some (.ok info) := by
    intro info hinfo
    exact exists_mem_of_forall₂ hinfos.flip (hperm.mem_iff.mp hinfo)
  refine verify_of_ok rfl hread hroot hmetadata ?_ ?_
  · intro info hinfo
    obtain ⟨file, -, hrecord⟩ := hmem info hinfo
    obtain ⟨content, m, -, -, hr, hm, hhash⟩ := formatFile_inv hrecord
    exact FileVerityInfo.verifySelf_genuine hr hm hhash (Or.inl rfl)
  · intro info hinfo
    obtain ⟨file, hfile, hrecord⟩ := hmem info hinfo
    obtain ⟨content, hcontent, hpath, hmeasure⟩ := formatFile_eq_ok hrecord
    obtain ⟨l, content', hl, hstored, hcontent', hne, hne'⟩ := hu.files file hfile
    rw [hcontent, Except.ok.injEq] at hcontent'
    subst hcontent'
    refine verifyFile_of_measures (store.content_iff.mpr ⟨l, ?_, ?_⟩) hmeasure
    · rw [hw.place_eq, VerifyOptions.filePath, hpath]
      exact hl
    · rw [hw.others l hne hne', hstored]

/-- An output has the content that was measured of a file. -/
def Repeats (host : Host σ η) (s : σ) (options : FormatOptions) (out : FormatOutput σ) : Prop :=
  ∃ file ∈ recordedFiles host s options,
    host.read s (join options.dataDir file.relative) = .ok out.metadata ∨
      host.read s (join options.dataDir file.relative) = .ok (utf8 out.rootHash)

theorem undisturbed_of_verify
    (hhex : ∀ (digest : List.Vector UInt8 32) table,
      libs.root (utf8 (hexEncode digest.toList)) ≠ .ok table)
    (hf : (format libs .release host s options).run = some (.ok out))
    (hv : (verify libs .release host out.state (verifyOptions options out)).run = some (.ok ()))
    (hrepeat : ¬ Repeats host s options out)
    (hfiles : ∀ file ∈ recordedFiles host s options, ∃ content,
      host.read s (join options.dataDir file.relative) = .ok content ∧
        host.content out.state (recordedPath libs options file) = .ok content) :
    Undisturbed store libs s options := by
  have hw : Wrote store s options out := wrote_of_format hf
  obtain ⟨-, -, -, -, -, hroot, -⟩ := format_inv hf
  obtain ⟨m, hm, hstored⟩ := hw.metadata
  have hkept : store.hashPlace s options ≠ some m := by
    -- otherwise `verify` reads the root hash as metadata
    intro hclash
    obtain ⟨bytes, -, hread, hroot', -⟩ := verify_eq_ok hv rfl
    have hplace : store.place out.state (verifyOptions options out).metadataPath = some m := by
      rw [hw.place_eq]
      exact hm
    obtain ⟨l, hl, hbytes⟩ := store.read_iff.mp hread
    rw [hplace, Option.some.injEq] at hl
    subst hl
    rw [hw.rootHash m hclash, Option.some.injEq] at hbytes
    subst hbytes
    obtain ⟨json, -, hhash⟩ := calculateMetadataHash_eq_ok hroot
    obtain ⟨json', hjson', -⟩ := calculateMetadataHash_eq_ok hroot'
    obtain ⟨table, -, htable, -⟩ := metadataHashDoc_eq_ok hjson'
    rw [hhash] at htable
    exact hhex _ _ htable
  refine ⟨fun l hl => ?_, fun file hfile => ?_⟩
  · rw [hm, Option.some.injEq] at hl
    exact hl ▸ hkept
  · obtain ⟨content, hcontent, hfound⟩ := hfiles file hfile
    obtain ⟨l, hl, hl'⟩ := store.content_iff.mp hfound
    rw [hw.place_eq] at hl
    have hne' : store.hashPlace s options ≠ some l := by
      intro heq
      rw [hw.rootHash l heq, Option.some.injEq] at hl'
      exact hrepeat ⟨file, hfile, Or.inr (hl' ▸ hcontent)⟩
    have hne : store.place s options.metadataPath ≠ some l := by
      intro heq
      rw [hm, Option.some.injEq] at heq
      subst heq
      rw [hstored hkept, Option.some.injEq] at hl'
      exact hrepeat ⟨file, hfile, Or.inl (hl' ▸ hcontent)⟩
    rw [hw.others l hne hne'] at hl'
    exact ⟨l, content, hl, hl', hcontent, hne, hne'⟩

/-- **When a formatted directory verifies.** After `format` returned, `verify` with the same
directory, metadata and root hash succeeds if the files are undisturbed. If it succeeds, they are,
or an output has the content of a recorded file, or two of the strings hashed collide. A root hash
in hexadecimal is not read as metadata. -/
theorem verify_formatted (store : FileStore host ℓ)
    (hhex : ∀ (digest : List.Vector UInt8 32) table,
      libs.root (utf8 (hexEncode digest.toList)) ≠ .ok table)
    (hf : (format libs .release host s options).run = some (.ok out)) :
    (Undisturbed store libs s options →
      (verify libs .release host out.state (verifyOptions options out)).run = some (.ok ())) ∧
    ((verify libs .release host out.state (verifyOptions options out)).run = some (.ok ()) →
      Undisturbed store libs s options ∨ Repeats host s options out ∨
        ∃ M, host.read out.state options.metadataPath = .ok M ∧
          Collides h (hashInputs libs out.metadata (formatContents host s options))
            (hashInputs libs M (verifyContents host out.state (verifyOptions options out)
              ((recordedFiles host s options).map fun file =>
                libs.toStringLossy file.relative)))) := by
  refine ⟨verify_of_undisturbed hf, fun hv => ?_⟩
  rcases verify_sound hf hv rfl rfl with hfiles | hcol
  · by_cases hrepeat : Repeats host s options out
    · exact Or.inr (Or.inl hrepeat)
    · exact Or.inl (undisturbed_of_verify hhex hf hv hrepeat hfiles)
  · exact Or.inr (Or.inr hcol)

/-! ## One file -/

/-- A host that is a map from paths to contents, and a walk that finds `entries`. -/
def mapHost (entries : List (Except String WalkEntry)) : Host (PathBuf → Option Bytes) PathBuf where
  metadataOk s path := (s path).isSome
  read s path := (s path).elim (.error "No such file or directory") .ok
  write s path bytes := .ok (Function.update s path (some bytes))
  walkDir _ _ := entries
  openFile s path := (s path).elim (.error "No such file or directory") fun _ => .ok path
  mmap s path := (s path).elim (.error "No such file or directory") .ok

/-- In it, every path is a place of its own. -/
def mapStore (entries : List (Except String WalkEntry)) : FileStore (mapHost entries) PathBuf where
  place _ path := some path
  stored s path := s path
  read_iff := by
    intro s path bytes
    cases hs : s path <;> simp [mapHost, hs]
  content_iff := by
    intro s path bytes
    cases hs : s path with
    | none => simp [Host.content, mapHost, hs, bind, Except.bind]
    | some content => simp [Host.content, mapHost, hs]
  write_inv := by
    intro s path bytes s' hw
    cases hw
    exact ⟨rfl, path, rfl, rfl⟩

/-- A directory `d` with one file `f`. -/
def oneFile : PathBuf → Option Bytes := fun path => if path = utf8 "d/f" then some [7] else none

def walkOne : List (Except String WalkEntry) := [.ok ⟨[utf8 "f"], true⟩]

theorem recordedFiles_walkOne (s : PathBuf → Option Bytes) (options : FormatOptions) :
    recordedFiles (mapHost walkOne) s options = [⟨[utf8 "f"], true⟩] := by
  have hcollect : collectFiles walkOne = [⟨[utf8 "f"], true⟩] := by decide +kernel
  show (collectFiles walkOne).mergeSort _ = _
  rw [hcollect, List.mergeSort_singleton]

/-- Hexadecimal digits are no buffer for these libraries. -/
theorem root_hexEncode_ne (info : FileVerityInfo h) (digest : List.Vector UInt8 32)
    (table : MetadataTable) :
    (singleLibs info).root (utf8 (hexEncode digest.toList)) ≠ .ok table := by
  have hne : utf8 (hexEncode digest.toList) ≠ [1] := by
    intro heq
    have htext : hexEncode digest.toList = String.singleton (Char.ofNat 1) := encodeUtf8_inj heq
    have hlen := congrArg (fun text => text.toList.length) htext
    simp [hexEncode, hexByte, List.length_flatMap] at hlen
  show (if utf8 (hexEncode digest.toList) = [1] then Except.ok _ else Except.error "invalid") ≠ _
  rw [if_neg hne]
  exact fun hok => by cases hok

theorem verify_formatted_one_file :
    ∃ (info : FileVerityInfo FsVerityDigest.lengthHash) (out : FormatOutput (PathBuf → Option Bytes)),
      (format (singleLibs info) .release (mapHost walkOne) oneFile oneFormat).run =
        some (.ok out) ∧
      (verify (singleLibs info) .release (mapHost walkOne) out.state
        (verifyOptions oneFormat out)).run = some (.ok ()) := by
  obtain ⟨info, m, hpath, hrun, hm, hhash, -⟩ := exists_oneInfo FsVerityDigest.lengthHash
    (by decide : ([7] : Bytes).length < 2 ^ 52)
  have hguard : ((mapHost walkOne).metadataOk oneFile oneFormat.metadataPath && !oneFormat.force) =
      false := by
    decide +kernel
  have hread : (mapHost walkOne).read oneFile (join oneFormat.dataDir (utf8 "f")) = .ok [7] := by
    decide +kernel
  have hformat := format_single hpath hrun hm hhash hguard (recordedFiles_walkOne _ _) hread rfl rfl
    rfl
  refine ⟨info, _, hformat, ?_⟩
  obtain ⟨hok, -⟩ := verify_formatted (mapStore walkOne) (root_hexEncode_ne info) hformat
  apply hok
  apply undisturbed_of_text
  · intro l _ hl
    cases hl
  · rw [recordedFiles_walkOne]
    exact List.forall_mem_singleton.mpr ⟨"f", rfl⟩
  · rw [recordedFiles_walkOne]
    exact List.forall_mem_singleton.mpr ⟨[7], hread⟩
  · rw [recordedFiles_walkOne]
    refine List.forall_mem_singleton.mpr fun l hl => ?_
    cases hl
    exact ⟨by decide +kernel, by decide +kernel⟩

/-- Formatting again, with metadata below the directory under a name of its own. -/
def reformat : FormatOptions := ⟨utf8 "d", some (utf8 "d/f"), utf8 "-", true, []⟩

theorem measure_seven_ne_one :
    ((calculateFsverityHash FsVerityDigest.lengthHash .release [7]).bind
        fun r => r.1.toDescriptorHash) ≠
      (calculateFsverityHash FsVerityDigest.lengthHash .release [1]).bind
        fun r => r.1.toDescriptorHash := by
  decide +kernel

/-- The old metadata is recorded as a file, and then replaced: it does not verify. -/
theorem verify_reformatted :
    ∃ (info : FileVerityInfo FsVerityDigest.lengthHash) (out : FormatOutput (PathBuf → Option Bytes)),
      (format (singleLibs info) .release (mapHost walkOne) oneFile reformat).run = some (.ok out) ∧
      (verify (singleLibs info) .release (mapHost walkOne) out.state
        (verifyOptions reformat out)).run ≠ some (.ok ()) := by
  obtain ⟨info, m, hpath, hrun, hm, hhash, -⟩ := exists_oneInfo FsVerityDigest.lengthHash
    (by decide : ([7] : Bytes).length < 2 ^ 52)
  have hguard : ((mapHost walkOne).metadataOk oneFile reformat.metadataPath && !reformat.force) =
      false := by
    decide +kernel
  have hread : (mapHost walkOne).read oneFile (join reformat.dataDir (utf8 "f")) = .ok [7] := by
    decide +kernel
  have hformat := format_single hpath hrun hm hhash hguard (recordedFiles_walkOne _ _) hread rfl rfl
    rfl
  refine ⟨info, _, hformat, fun hverify => ?_⟩
  -- the file now has the content of the metadata, which measures otherwise
  obtain ⟨bytes, metadata, hbytes, -, hmetadata, hfiles⟩ := verify_eq_ok hverify rfl
  have hnow : (mapHost walkOne).read (Function.update oneFile reformat.metadataPath (some [1]))
      reformat.metadataPath = .ok [1] := by
    simp [mapHost]
  obtain rfl : bytes = [1] := Except.ok.inj (hbytes.symm.trans hnow)
  obtain ⟨metadata', hmetadata', hinfos⟩ := deserializeMetadata_single info
  rw [hmetadata', Option.some.injEq, Except.ok.injEq] at hmetadata
  subst hmetadata
  rw [hinfos] at hfiles
  obtain ⟨content, hcontent, r, m', hr, hm', hhex⟩ := hfiles info List.mem_cons_self
  have hfound : (mapHost walkOne).content (Function.update oneFile reformat.metadataPath (some [1]))
      reformat.metadataPath = .ok [1] := by
    simp [mapHost, Host.content]
  rw [hpath] at hcontent
  obtain rfl : content = [1] := Except.ok.inj (hcontent.symm.trans hfound)
  obtain rfl : m = m' := List.Vector.toList_injective (hexEncode_inj (hhash.trans hhex))
  refine measure_seven_ne_one ?_
  rw [hrun, hr]
  exact hm.trans hm'.symm

end CryptPilot.Verity
