import CryptPilot.Verity.FormatVerify

/-!
# Files that `format` leaves out

`collect_files` ends at the first error of the walk without saying so, takes no note of an entry
whose type cannot be determined, and passes over every file with the default name of the metadata.
The name of a file is recorded as text, whether or not it is. And the root hash can be written to a
file below the directory, which then has no entry, or one that is out of date. So a `format` that
returned has recorded every file exactly if none of this happened (`format_complete`). Otherwise
there is metadata with a valid root hash, and nothing that would tell which files it does not protect
(`format_walk_error`).
-/

namespace CryptPilot.Verity

open CryptPilot.Data CryptPilot.VerityCore CryptPilot.VerityFuse

variable {h : Bytes → List.Vector UInt8 32} {σ η ℓ : Type} {libs : Libs h} {p : Profile}
  {host : Host σ η} {s : σ} {options : FormatOptions} {out : FormatOutput σ}

/-! ## Walks -/

/-- The path with the given components, below a directory. -/
def relativePath (components : List Bytes) : PathBuf := [47].intercalate components

theorem relativePath_inj {f g : List Bytes} (hf : f ≠ [] ∧ ∀ name ∈ f, 47 ∉ name)
    (hg : g ≠ [] ∧ ∀ name ∈ g, 47 ∉ name) (heq : relativePath f = relativePath g) : f = g := by
  rw [← List.splitOn_intercalate 47 hf.2 hf.1, ← List.splitOn_intercalate 47 hg.2 hg.1]
  exact congrArg _ heq

/-- A walk of a directory with the given regular files: entries and errors in any order. No entry
comes twice, and only regular files are found to be such. Whatever is not reached is below a
directory, or is an entry, for which there is an error. -/
structure Walks (regular : Set (List Bytes)) (outcomes : List (Except String WalkEntry)) : Prop where
  names : ∀ f ∈ regular, f ≠ [] ∧ ∀ name ∈ f, 47 ∉ name
  sound : ∀ entry, .ok entry ∈ outcomes → entry.isFile = true → entry.components ∈ regular
  once : ((outcomes.filterMap Except.toOption).map WalkEntry.components).Nodup
  complete : (∀ e, .error e ∉ outcomes) →
    ∀ f ∈ regular, ∃ entry, .ok entry ∈ outcomes ∧ entry.components = f

theorem mem_filterMap_toOption {outcomes : List (Except String WalkEntry)} {entry : WalkEntry} :
    entry ∈ outcomes.filterMap Except.toOption ↔ .ok entry ∈ outcomes := by
  rw [List.mem_filterMap]
  constructor
  · rintro ⟨outcome, hmem, heq⟩
    rwa [toOption_eq_some heq] at hmem
  · intro hmem
    exact ⟨_, hmem, rfl⟩

/-- What is collected was found to be a file, under another name. -/
theorem mem_collectFiles {outcomes : List (Except String WalkEntry)} {entry : WalkEntry}
    (hmem : entry ∈ collectFiles outcomes) :
    .ok entry ∈ outcomes ∧ entry.fileName ≠ some defaultMetadataFile ∧ entry.isFile = true := by
  fun_induction collectFiles outcomes with
  | case1 => cases hmem
  | case2 => cases hmem
  | case3 _ _ _ ih => exact (ih hmem).imp_left (List.mem_cons_of_mem _)
  | case4 first rest hname hfile ih =>
    rcases List.mem_cons.mp hmem with rfl | hmem
    · exact ⟨List.mem_cons_self, hname, hfile⟩
    · exact (ih hmem).imp_left (List.mem_cons_of_mem _)
  | case5 _ _ _ _ ih => exact (ih hmem).imp_left (List.mem_cons_of_mem _)

/-- Without errors, nothing else is left out. -/
theorem mem_collectFiles_of_ok {outcomes : List (Except String WalkEntry)} {entry : WalkEntry}
    (herror : ∀ e, .error e ∉ outcomes) (hmem : .ok entry ∈ outcomes)
    (hname : entry.fileName ≠ some defaultMetadataFile) (hfile : entry.isFile = true) :
    entry ∈ collectFiles outcomes := by
  fun_induction collectFiles outcomes with
  | case1 => cases hmem
  | case2 e rest => exact absurd List.mem_cons_self (herror e)
  | case3 first rest hskip ih =>
    rcases List.mem_cons.mp hmem with heq | hmem
    · cases heq
      exact absurd hskip hname
    · exact ih (fun e he => herror e (List.mem_cons_of_mem _ he)) hmem
  | case4 first rest _ _ ih =>
    rcases List.mem_cons.mp hmem with heq | hmem
    · cases heq
      exact List.mem_cons_self
    · exact List.mem_cons_of_mem _ (ih (fun e he => herror e (List.mem_cons_of_mem _ he)) hmem)
  | case5 first rest _ hskip ih =>
    rcases List.mem_cons.mp hmem with heq | hmem
    · cases heq
      exact absurd hfile hskip
    · exact ih (fun e he => herror e (List.mem_cons_of_mem _ he)) hmem

theorem collectFiles_sublist (outcomes : List (Except String WalkEntry)) :
    (collectFiles outcomes).Sublist (outcomes.filterMap Except.toOption) := by
  fun_induction collectFiles outcomes with
  | case1 => exact List.Sublist.slnil
  | case2 => exact List.nil_sublist _
  | case3 first rest _ ih => exact ih.cons _
  | case4 first rest _ _ ih => exact ih.cons_cons _
  | case5 first rest _ _ ih => exact ih.cons _

theorem mem_recordedFiles {file : WalkEntry} :
    file ∈ recordedFiles host s options ↔
      file ∈ collectFiles (host.walkDir s options.dataDir) :=
  (List.mergeSort_perm _ _).mem_iff

section
variable {regular : Set (List Bytes)} (hwalk : Walks regular (host.walkDir s options.dataDir))
include hwalk

theorem Walks.regular_of_recorded {file : WalkEntry} (hfile : file ∈ recordedFiles host s options) :
    file.components ∈ regular := by
  obtain ⟨hmem, -, hisFile⟩ := mem_collectFiles (mem_recordedFiles.mp hfile)
  exact hwalk.sound file hmem hisFile

/-- An entry is known by its components. -/
theorem Walks.eq_of_components {entry entry' : WalkEntry}
    (he : .ok entry ∈ host.walkDir s options.dataDir)
    (he' : .ok entry' ∈ host.walkDir s options.dataDir)
    (heq : entry.components = entry'.components) : entry = entry' :=
  List.inj_on_of_nodup_map hwalk.once (mem_filterMap_toOption.mpr he)
    (mem_filterMap_toOption.mpr he') heq

end

/-- A walk that has no entry twice records no file twice. -/
theorem nodup_recordedFiles
    (honce : (((host.walkDir s options.dataDir).filterMap Except.toOption).map
      WalkEntry.components).Nodup) :
    ((recordedFiles host s options).map WalkEntry.components).Nodup := by
  have hperm := (List.mergeSort_perm (collectFiles (host.walkDir s options.dataDir))
    fun a b => decide (a.components ≤ b.components)).map WalkEntry.components
  exact hperm.nodup_iff.mpr (honce.sublist ((collectFiles_sublist _).map _))

/-! ## Records -/

/-- The paths in the metadata are the texts of the names of the recorded files. -/
theorem paths_of_format (hf : (format libs p host s options).run = some (.ok out)) :
    ∃ table, libs.root out.metadata = .ok table ∧
      ((table.files.getD []).map FileInfoTable.path).Perm
        ((recordedFiles host s options).map fun file =>
          some (libs.toStringLossy file.relative)) := by
  obtain ⟨infos, -, hinfos, hfb, -, hroot, -⟩ := format_inv hf
  obtain ⟨json, hjson, -⟩ := calculateMetadataHash_eq_ok hroot
  obtain ⟨table, -, htable, -⟩ := metadataHashDoc_eq_ok hjson
  have hpaths : ((recordedFiles host s options).map fun file =>
      some (libs.toStringLossy file.relative)) = infos.map fun info => some info.path := by
    refine map_eq_map_of_forall₂ (hinfos.imp fun file info hrecord => ?_)
    obtain ⟨content, m, -, hpath, -⟩ := formatFile_inv hrecord
    rw [hpath]
  refine ⟨table, htable, ?_⟩
  rw [libs.root_finish hfb htable, hpaths]
  show (((libs.sortUnstable infos).map fileInfoTable).map FileInfoTable.path).Perm _
  rw [List.map_map]
  exact (libs.sortUnstable_perm infos).map _

/-- An entry is known by its path, if that comes once. -/
theorem eq_of_count_path {files : List FileInfoTable} {path : Option String}
    (hcount : (files.map FileInfoTable.path).count path = 1) {t t' : FileInfoTable}
    (ht : t ∈ files) (ht' : t' ∈ files) (hpath : t.path = path) (hpath' : t'.path = path) :
    t = t' := by
  rw [List.count_eq_countP, List.countP_map, List.countP_eq_length_filter] at hcount
  obtain ⟨t₀, hfilter⟩ := List.length_eq_one_iff.mp hcount
  have hmem : ∀ {t : FileInfoTable}, t ∈ files → t.path = path → t = t₀ := by
    intro t ht hpath
    have hin : t ∈ files.filter ((· == path) ∘ FileInfoTable.path) :=
      List.mem_filter.mpr ⟨ht, beq_iff_eq.mpr hpath⟩
    rw [hfilter] at hin
    exact List.mem_singleton.mp hin
  rw [hmem ht hpath, hmem ht' hpath']

/-! ## Completeness -/

variable [DecidableEq ℓ] {store : FileStore host ℓ} {regular after : Set (List Bytes)}

/-- Where a file below the directory is. -/
def filePlace (store : FileStore host ℓ) (s : σ) (options : FormatOptions) (f : List Bytes) :
    Option ℓ :=
  store.place s (join options.dataDir (relativePath f))

/-- The regular files below the directory after `format`: those that were there before, and what it
wrote to a place where no file was. -/
structure Leaves (store : FileStore host ℓ) (s : σ) (options : FormatOptions)
    (regular after : Set (List Bytes)) : Prop where
  names : ∀ f ∈ after, f ≠ [] ∧ ∀ name ∈ f, 47 ∉ name
  kept : regular ⊆ after
  created : ∀ f ∈ after, f ∉ regular → ∃ l, filePlace store s options f = some l ∧
    store.stored s l = none ∧
    (store.place s options.metadataPath = some l ∨ store.hashPlace s options = some l)

/-- The file is where `format` writes the metadata. -/
def IsMetadata (store : FileStore host ℓ) (s : σ) (options : FormatOptions) (f : List Bytes) : Prop :=
  ∃ l, filePlace store s options f = some l ∧ store.place s options.metadataPath = some l

/-- What is to be protected. -/
def Covered (store : FileStore host ℓ) (s : σ) (options : FormatOptions)
    (after : Set (List Bytes)) : Set (List Bytes) :=
  { f | f ∈ after ∧ ¬ IsMetadata store s options f }

/-- The metadata has exactly one entry for the file, with its path and the descriptor hash of the
content it has in a state. -/
def Protects (libs : Libs h) (p : Profile) (host : Host σ η) (s : σ) (options : FormatOptions)
    (metadata : Bytes) (f : List Bytes) : Prop :=
  ∃ table text content hash, libs.root metadata = .ok table ∧ relativePath f = utf8 text ∧
    host.read s (join options.dataDir (relativePath f)) = .ok content ∧ Measures h p content hash ∧
    ((table.files.getD []).map FileInfoTable.path).count (some text) = 1 ∧
    ∃ t ∈ table.files.getD [], Names t ⟨hash, text⟩

/-- Old metadata that is itself recorded, before it is replaced, has a name that is UTF-8. -/
def MetadataText (store : FileStore host ℓ) (s : σ) (options : FormatOptions) : Prop :=
  ∀ file ∈ recordedFiles host s options, IsMetadata store s options file.components →
    ∃ text, file.relative = utf8 text

/-- Nothing went wrong in the walk. No file to be protected has the default name of the metadata or a
name that is not UTF-8, nor has old metadata that is recorded. The root hash is not written to a file
to be protected, unless that was there and had the same descriptor hash before. -/
structure Enumerated (h : Bytes → List.Vector UInt8 32) (p : Profile) (store : FileStore host ℓ)
    (s : σ) (options : FormatOptions) (rootHash : String) (after : Set (List Bytes)) : Prop where
  noError : ∀ e, .error e ∉ host.walkDir s options.dataDir
  typed : ∀ entry, .ok entry ∈ host.walkDir s options.dataDir →
    entry.components ∈ Covered store s options after → entry.isFile = true
  name : ∀ f ∈ Covered store s options after, f.getLast? ≠ some defaultMetadataFile
  text : ∀ f ∈ Covered store s options after, ∃ text, relativePath f = utf8 text
  metadataText : MetadataText store s options
  output : ∀ f ∈ Covered store s options after, ∀ l, filePlace store s options f = some l →
    store.hashPlace s options = some l →
    ∃ content hash, host.read s (join options.dataDir (relativePath f)) = .ok content ∧
      Measures h p content hash ∧ Measures h p (utf8 rootHash) hash

section
variable (hwalk : Walks regular (host.walkDir s options.dataDir))
  (hleaves : Leaves store s options regular after)

include hleaves in
/-- Under that condition every file to be protected was there before. -/
theorem Enumerated.mem_regular {rootHash : String}
    (he : Enumerated h p store s options rootHash after) {f : List Bytes}
    (hcovered : f ∈ Covered store s options after) : f ∈ regular := by
  by_contra hnew
  obtain ⟨l, hl, hnone, hmeta | hhash⟩ := hleaves.created f hcovered.1 hnew
  · exact hcovered.2 ⟨l, hl, hmeta⟩
  · obtain ⟨content, hash, hread, -, -⟩ := he.output f hcovered l hl hhash
    obtain ⟨l', hl', hstored⟩ := store.read_iff.mp hread
    obtain rfl : l = l' := Option.some.inj (hl.symm.trans hl')
    rw [hnone] at hstored
    cases hstored

section
variable (hmeta : MetadataText store s options)
  (htext : ∀ f ∈ Covered store s options after, ∃ text, relativePath f = utf8 text)
include hwalk hleaves hmeta htext

/-- Names that are text are recorded as they are, so recorded files can be told apart. -/
theorem text_of_recorded {file : WalkEntry} (hfile : file ∈ recordedFiles host s options) :
    file.relative = utf8 (libs.toStringLossy file.relative) := by
  have hregular := hwalk.regular_of_recorded hfile
  obtain ⟨text, heq⟩ : ∃ text, file.relative = utf8 text := by
    by_cases hm : IsMetadata store s options file.components
    · exact hmeta file hfile hm
    · exact htext _ ⟨hleaves.kept hregular, hm⟩
  rw [heq, libs.toStringLossy_utf8]

/-- The file that is recorded under the path of another one is that one. -/
theorem components_of_recorded {file : WalkEntry} (hfile : file ∈ recordedFiles host s options)
    {f : List Bytes} (hf : f ≠ [] ∧ ∀ name ∈ f, 47 ∉ name) {text : String}
    (hpath : relativePath f = utf8 text) (hlossy : libs.toStringLossy file.relative = text) :
    file.components = f := by
  have hrelative : file.relative = utf8 (libs.toStringLossy file.relative) :=
    text_of_recorded hwalk hleaves hmeta htext hfile
  rw [hlossy, ← hpath] at hrelative
  exact relativePath_inj (hwalk.names _ (hwalk.regular_of_recorded hfile)) hf hrelative

/-- No two files are recorded under one path. -/
theorem nodup_recordedPaths :
    ((recordedFiles host s options).map fun file =>
      some (libs.toStringLossy file.relative)).Nodup := by
  refine List.Nodup.map_on ?_ ((nodup_recordedFiles hwalk.once).of_map _)
  intro a ha b hb heq
  have hcomponents := components_of_recorded hwalk hleaves hmeta htext ha
    (hwalk.names _ (hwalk.regular_of_recorded hb))
    (text_of_recorded hwalk hleaves hmeta htext hb) (Option.some.inj heq)
  exact List.inj_on_of_nodup_map (nodup_recordedFiles hwalk.once) ha hb hcomponents

end

include hwalk hleaves

theorem protects_of_enumerated (hf : (format libs p host s options).run = some (.ok out))
    (he : Enumerated h p store s options out.rootHash after) {f : List Bytes}
    (hcovered : f ∈ Covered store s options after) :
    Protects libs p host out.state options out.metadata f := by
  obtain ⟨entry, hentry, rfl⟩ := hwalk.complete he.noError f (he.mem_regular hleaves hcovered)
  have hfile : entry ∈ recordedFiles host s options :=
    mem_recordedFiles.mpr (mem_collectFiles_of_ok he.noError hentry (he.name _ hcovered)
      (he.typed entry hentry hcovered))
  obtain ⟨table, htable, hperm⟩ := paths_of_format hf
  obtain ⟨-, hrecorded⟩ := format_eq_ok hf
  obtain ⟨content, hash, hcontent, hmeasure, hnames⟩ := hrecorded entry hfile
  -- what the file has in the end measures the same
  obtain ⟨content', hcontent', hmeasure'⟩ : ∃ content',
      host.read out.state (join options.dataDir entry.relative) = .ok content' ∧
        Measures h p content' hash := by
    have hw : Wrote store s options out := wrote_of_format hf
    obtain ⟨l, hl, hstored⟩ := store.read_iff.mp hcontent
    by_cases hhash : store.hashPlace s options = some l
    · obtain ⟨content₀, hash₀, hread, hmeasure₀, hroot⟩ := he.output _ hcovered l hl hhash
      obtain rfl : content = content₀ := Except.ok.inj (hcontent.symm.trans hread)
      obtain rfl : hash = hash₀ := hmeasure.unique hmeasure₀
      exact ⟨_, store.read_iff.mpr ⟨l, by rw [hw.place_eq]; exact hl, hw.rootHash l hhash⟩, hroot⟩
    · have hother : store.place s options.metadataPath ≠ some l :=
        fun hm => hcovered.2 ⟨l, hl, hm⟩
      refine ⟨content, store.read_iff.mpr ⟨l, by rw [hw.place_eq]; exact hl, ?_⟩, hmeasure⟩
      rw [hw.others l hother hhash, hstored]
  refine ⟨table, libs.toStringLossy entry.relative, content', hash, htable,
    text_of_recorded hwalk hleaves he.metadataText he.text hfile, hcontent', hmeasure', ?_,
    hnames table htable⟩
  rw [hperm.count_eq]
  exact List.count_eq_one_of_mem (nodup_recordedPaths hwalk hleaves he.metadataText he.text)
    (List.mem_map_of_mem hfile)

/-- A protected file was recorded, and its entry is the one that was made for it. -/
theorem recorded_of_protects (hf : (format libs p host s options).run = some (.ok out))
    (hmeta : MetadataText store s options)
    (htext : ∀ f ∈ Covered store s options after, ∃ text, relativePath f = utf8 text)
    {f : List Bytes} (hname : f ≠ [] ∧ ∀ name ∈ f, 47 ∉ name)
    (hprotects : Protects libs p host out.state options out.metadata f) :
    ∃ file ∈ recordedFiles host s options, file.components = f ∧
      ∃ content content' hash, host.read s (join options.dataDir (relativePath f)) = .ok content ∧
        host.read out.state (join options.dataDir (relativePath f)) = .ok content' ∧
        Measures h p content hash ∧ Measures h p content' hash := by
  obtain ⟨table, text, content', hash, htable, hpath, hread', hmeasure', hcount, t, ht, hnames⟩ :=
    hprotects
  obtain ⟨table', htable', hperm⟩ := paths_of_format hf
  obtain rfl : table = table' := Except.ok.inj (htable.symm.trans htable')
  obtain ⟨file, hfile, heq⟩ := List.mem_map.mp
    (hperm.mem_iff.mp (List.mem_map.mpr ⟨t, ht, hnames.1⟩))
  have hlossy : libs.toStringLossy file.relative = text := Option.some.inj heq
  obtain rfl : file.components = f :=
    components_of_recorded hwalk hleaves hmeta htext hfile hname hpath hlossy
  obtain ⟨-, hrecorded⟩ := format_eq_ok hf
  obtain ⟨content, hash₀, hread, hmeasure, hentry⟩ := hrecorded file hfile
  obtain ⟨t₀, ht₀, hnames₀⟩ := hentry table htable
  obtain rfl : t = t₀ := eq_of_count_path hcount ht ht₀ hnames.1 (hlossy ▸ hnames₀.1)
  obtain rfl : hash = hash₀ := Option.some.inj (hnames.2.symm.trans hnames₀.2)
  exact ⟨file, hfile, rfl, content, content', hash, hread, hread', hmeasure, hmeasure'⟩

theorem enumerated_of_protects (hf : (format libs p host s options).run = some (.ok out))
    (herror : ∀ e, .error e ∉ host.walkDir s options.dataDir)
    (hall : ∀ f ∈ Covered store s options after,
      Protects libs p host out.state options out.metadata f)
    (hmeta : MetadataText store s options) :
    Enumerated h p store s options out.rootHash after := by
  have htext : ∀ f ∈ Covered store s options after, ∃ text, relativePath f = utf8 text := by
    intro f hcovered
    obtain ⟨-, text, -, -, -, hpath, -⟩ := hall f hcovered
    exact ⟨text, hpath⟩
  have hrecorded : ∀ f (hcovered : f ∈ Covered store s options after), _ := fun f hcovered =>
    recorded_of_protects hwalk hleaves hf hmeta htext (hleaves.names f hcovered.1) (hall f hcovered)
  refine ⟨herror, fun entry hentry hcovered => ?_, fun f hcovered => ?_, htext, hmeta,
    fun f hcovered l hl hhash => ?_⟩
  · obtain ⟨file, hfile, heq, -⟩ := hrecorded _ hcovered
    obtain ⟨hmem, -, hisFile⟩ := mem_collectFiles (mem_recordedFiles.mp hfile)
    rwa [← hwalk.eq_of_components hmem hentry heq]
  · obtain ⟨file, hfile, rfl, -⟩ := hrecorded f hcovered
    obtain ⟨-, hname, -⟩ := mem_collectFiles (mem_recordedFiles.mp hfile)
    exact hname
  · obtain ⟨file, -, -, content, content', hash, hread, hread', hmeasure, hmeasure'⟩ :=
      hrecorded f hcovered
    have hw : Wrote store s options out := wrote_of_format hf
    obtain ⟨l', hl', hstored⟩ := store.read_iff.mp hread'
    rw [hw.place_eq] at hl'
    obtain rfl : l = l' := Option.some.inj (hl.symm.trans hl')
    rw [hw.rootHash l hhash, Option.some.injEq] at hstored
    exact ⟨content, hash, hread, hmeasure, hstored ▸ hmeasure'⟩

end

/-- **When `format` leaves nothing out.** Let `format` return, after any walk. If the walk had no
error, and nothing else in `Enumerated` was amiss, then every regular file but the metadata that is
then below the directory has exactly one entry, with its path and the descriptor hash of its content.
Conversely, if this is so and the walk had no error, then nothing was amiss, unless old metadata was
recorded under a name that is not UTF-8. -/
theorem format_complete (store : FileStore host ℓ)
    (hwalk : Walks regular (host.walkDir s options.dataDir))
    (hleaves : Leaves store s options regular after)
    (hf : (format libs p host s options).run = some (.ok out)) :
    (Enumerated h p store s options out.rootHash after →
      (∀ e, .error e ∉ host.walkDir s options.dataDir) ∧
        ∀ f ∈ Covered store s options after,
          Protects libs p host out.state options out.metadata f) ∧
    ((∀ e, .error e ∉ host.walkDir s options.dataDir) →
      (∀ f ∈ Covered store s options after,
        Protects libs p host out.state options out.metadata f) →
      MetadataText store s options → Enumerated h p store s options out.rootHash after) := by
  constructor
  · intro he
    exact ⟨he.noError, fun f hcovered => protects_of_enumerated hwalk hleaves hf he hcovered⟩
  · intro herror hall hmeta
    exact enumerated_of_protects hwalk hleaves hf herror hall hmeta

/-! ## Examples -/

theorem walks_walkOne : Walks { [utf8 "f"] } walkOne where
  names := by
    rintro f rfl
    decide +kernel
  sound := by
    intro entry hentry _
    cases List.mem_singleton.mp hentry
    rfl
  once := List.nodup_singleton _
  complete := by
    rintro - f rfl
    exact ⟨_, List.mem_singleton_self _, rfl⟩

/-- `format` writes nothing below the directory. -/
theorem leaves_oneFormat (walk : List (Except String WalkEntry)) (s : PathBuf → Option Bytes)
    {regular : Set (List Bytes)} (hnames : ∀ f ∈ regular, f ≠ [] ∧ ∀ name ∈ f, 47 ∉ name) :
    Leaves (mapStore walk) s oneFormat regular regular :=
  ⟨hnames, Set.Subset.refl _, fun _ hf hnew => absurd hf hnew⟩

theorem format_complete_one_file :
    ∃ (info : FileVerityInfo FsVerityDigest.lengthHash) (out : FormatOutput (PathBuf → Option Bytes)),
      (format (singleLibs info) .release (mapHost walkOne) oneFile oneFormat).run =
        some (.ok out) ∧
      Protects (singleLibs info) .release (mapHost walkOne) out.state oneFormat out.metadata
        [utf8 "f"] := by
  obtain ⟨info, m, hpath, hrun, hm, hhash, -⟩ := exists_oneInfo FsVerityDigest.lengthHash
    (by decide : ([7] : Bytes).length < 2 ^ 52)
  have hguard : ((mapHost walkOne).metadataOk oneFile oneFormat.metadataPath && !oneFormat.force) =
      false := by
    decide +kernel
  have hread : (mapHost walkOne).read oneFile (join oneFormat.dataDir (utf8 "f")) = .ok [7] := by
    decide +kernel
  have hformat := format_single hpath hrun hm hhash hguard (recordedFiles_walkOne _ _) hread rfl rfl
    rfl
  have hother : ¬ IsMetadata (mapStore walkOne) oneFile oneFormat [utf8 "f"] := by
    rintro ⟨l, hl, hl'⟩
    cases hl'
    revert hl
    decide +kernel
  have hmeta : MetadataText (mapStore walkOne) oneFile oneFormat := by
    rw [MetadataText, recordedFiles_walkOne]
    exact List.forall_mem_singleton.mpr fun hm => absurd hm hother
  have hcomplete := format_complete (mapStore walkOne) walks_walkOne
    (leaves_oneFormat walkOne oneFile walks_walkOne.names) hformat
  obtain ⟨-, hprotects⟩ := hcomplete.1
    { noError := by
        intro e he
        cases List.mem_singleton.mp he
      typed := by
        intro entry hentry _
        cases List.mem_singleton.mp hentry
        rfl
      name := by
        rintro f ⟨rfl, -⟩
        decide +kernel
      text := by
        rintro f ⟨rfl, -⟩
        exact ⟨"f", rfl⟩
      metadataText := hmeta
      output := by
        intro f _ l _ hl
        cases hl }
  exact ⟨info, _, hformat, hprotects _ ⟨rfl, hother⟩⟩

/-- A walk that fails at a directory, between the files `f` and `g`. -/
def walkError : List (Except String WalkEntry) :=
  [.ok ⟨[utf8 "f"], true⟩, .error "Permission denied", .ok ⟨[utf8 "g"], true⟩]

theorem walks_walkError : Walks { [utf8 "f"], [utf8 "g"] } walkError where
  names := by
    rintro f (rfl | rfl) <;> decide +kernel
  sound := by
    intro entry hentry _
    simp [walkError] at hentry
    rcases hentry with rfl | rfl <;> simp
  once := by decide +kernel
  complete := by
    intro herror
    exact absurd (by simp [walkError]) (herror "Permission denied")

/-- The files `f` and `g`. -/
def twoFiles : PathBuf → Option Bytes := fun path =>
  if path = utf8 "d/f" then some [7] else if path = utf8 "d/g" then some [8] else none

/-- `format` returns, and has not recorded `g`. -/
theorem format_walk_error :
    ∃ (info : FileVerityInfo FsVerityDigest.lengthHash) (out : FormatOutput (PathBuf → Option Bytes)),
      Walks { [utf8 "f"], [utf8 "g"] } ((mapHost walkError).walkDir twoFiles oneFormat.dataDir) ∧
      (format (singleLibs info) .release (mapHost walkError) twoFiles oneFormat).run =
        some (.ok out) ∧
      Leaves (mapStore walkError) twoFiles oneFormat { [utf8 "f"], [utf8 "g"] }
        { [utf8 "f"], [utf8 "g"] } ∧
      [utf8 "g"] ∈ Covered (mapStore walkError) twoFiles oneFormat { [utf8 "f"], [utf8 "g"] } ∧
      ¬ Protects (singleLibs info) .release (mapHost walkError) out.state oneFormat out.metadata
        [utf8 "g"] := by
  obtain ⟨info, m, hpath, hrun, hm, hhash, -⟩ := exists_oneInfo FsVerityDigest.lengthHash
    (by decide : ([7] : Bytes).length < 2 ^ 52)
  have hguard : ((mapHost walkError).metadataOk twoFiles oneFormat.metadataPath &&
      !oneFormat.force) = false := by
    decide +kernel
  have hfiles : recordedFiles (mapHost walkError) twoFiles oneFormat = [⟨[utf8 "f"], true⟩] := by
    decide +kernel
  have hread : (mapHost walkError).read twoFiles (join oneFormat.dataDir (utf8 "f")) = .ok [7] := by
    decide +kernel
  have hformat := format_single hpath hrun hm hhash hguard hfiles hread rfl rfl rfl
  refine ⟨info, _, walks_walkError, hformat, leaves_oneFormat _ _ walks_walkError.names, ⟨by simp, ?_⟩, ?_⟩
  · rintro ⟨l, hl, hl'⟩
    cases hl'
    revert hl
    decide +kernel
  · rintro ⟨table, text, content, hash, htable, htext, -, -, hcount, -⟩
    obtain rfl : "g" = text := encodeUtf8_inj htext
    obtain rfl : singleTable info = table := by
      have hroot : (singleLibs info).root [1] = .ok (singleTable info) := rfl
      exact Except.ok.inj (hroot.symm.trans htable)
    have hzero : ((singleTable info).files.getD []).map FileInfoTable.path = [some "f"] := by
      show [some info.path] = _
      rw [hpath]
    rw [hzero] at hcount
    revert hcount
    decide

end CryptPilot.Verity
