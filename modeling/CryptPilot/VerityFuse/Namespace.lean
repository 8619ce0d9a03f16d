import CryptPilot.VerityFuse.Filesystem
import Mathlib.Data.List.Induction

/-!
# The paths of a verifier

`VerityVerifier::new` numbers the root, the files and every directory above a file. The directories
are registered on the way, from the inside out and each only once, so the result does not depend on
the order of the files: what is registered is given by `Holds` (`new_faithful`).

Paths are compared component by component. The files must not stand in each other's way: no path is
that of another file or of a directory above it.
-/

namespace CryptPilot.VerityFuse

open CryptPilot.Data CryptPilot.VerityCore

/-! ## Normal paths -/

/-- `Component::Normal`: a name, and not the directory itself or the one above it. -/
def NormalComponent (c : String) : Prop := c ≠ "" ∧ c ≠ "." ∧ c ≠ ".." ∧ '/' ∉ c.toList

instance (c : String) : Decidable (NormalComponent c) :=
  inferInstanceAs (Decidable (_ ∧ _ ∧ _ ∧ _))

/-- The path of something below the root. -/
def NormalPath (path : RelativePath) : Prop := path ≠ [] ∧ ∀ c ∈ path, NormalComponent c

instance (path : RelativePath) : Decidable (NormalPath path) := inferInstanceAs (Decidable (_ ∧ _))

theorem RelativePath.parent_concat (path : RelativePath) {c : String} (hc : c ≠ ".") :
    RelativePath.parent (path ++ [c]) = some path := by
  have hne : path ++ [c] ≠ [] := by simp
  rw [RelativePath.parent.eq_def]
  split
  · next heq => exact absurd heq hne
  · simp [hc]

/-- A directory above `path` other than the root. -/
def Above (dir path : RelativePath) : Prop := dir ≠ [] ∧ dir ≠ path ∧ dir <+: path

instance (dir path : RelativePath) : Decidable (Above dir path) :=
  inferInstanceAs (Decidable (_ ∧ _ ∧ _))

theorem above_concat {dir path : RelativePath} {c : String} :
    Above dir (path ++ [c]) ↔ dir ≠ [] ∧ dir <+: path := by
  rw [Above, List.prefix_concat_iff]
  constructor
  · rintro ⟨hne, hself, heq | hpre⟩
    · exact absurd heq hself
    · exact ⟨hne, hpre⟩
  · rintro ⟨hne, hpre⟩
    refine ⟨hne, ?_, Or.inr hpre⟩
    rintro rfl
    have hlen := hpre.length_le
    simp at hlen

/-- Whatever the components are. -/
theorem RelativePath.parent_prefix {path dir : RelativePath}
    (h : RelativePath.parent path = some dir) : dir <+: path := by
  cases path with
  | nil => cases h
  | cons c rest =>
    cases h
    rw [← List.reverse_suffix, List.reverse_reverse]
    exact (List.drop_suffix _ _).trans (List.dropWhile_suffix _)

namespace VerityVerifier

variable {h : Bytes → List.Vector UInt8 32}

theorem prefix_of_mem_parents {path dir : RelativePath} {steps : Nat}
    (hdir : dir ∈ parents steps path) : dir <+: path := by
  induction steps generalizing path with
  | zero => cases hdir
  | succ steps ih =>
    rw [parents] at hdir
    cases hparent : RelativePath.parent path with
    | none =>
      rw [hparent] at hdir
      cases hdir
    | some parent =>
      rw [hparent] at hdir
      dsimp only at hdir
      split at hdir
      · cases hdir
      · rcases List.mem_cons.mp hdir with rfl | hdir
        · exact RelativePath.parent_prefix hparent
        · exact (ih hdir).trans (RelativePath.parent_prefix hparent)

/-- The loop over `parent` comes by every directory above a path. -/
theorem mem_parents {path dir : RelativePath} (hpath : ∀ c ∈ path, NormalComponent c) {steps : Nat}
    (hsteps : path.length ≤ steps) : dir ∈ parents steps path ↔ Above dir path := by
  induction steps generalizing path with
  | zero =>
    have hnil : path = [] := List.length_eq_zero_iff.mp (Nat.le_zero.mp hsteps)
    subst hnil
    simp [parents, Above]
  | succ steps ih =>
    rcases List.eq_nil_or_concat' path with rfl | ⟨init, c, rfl⟩
    · simp [parents, RelativePath.parent, Above]
    · have hc : c ≠ "." := (hpath c (by simp)).2.1
      have hinit : ∀ c ∈ init, NormalComponent c := fun c hc => hpath c (by simp [hc])
      have hlen : init.length ≤ steps := by simpa using hsteps
      rw [parents, RelativePath.parent_concat init hc, above_concat]
      dsimp only
      split
      · next hnil =>
        subst hnil
        simp
      · next hne =>
        rw [List.mem_cons, ih hinit hlen, Above]
        constructor
        · rintro (rfl | ⟨hdir, -, hpre⟩)
          · exact ⟨hne, List.prefix_rfl⟩
          · exact ⟨hdir, hpre⟩
        · rintro ⟨hdir, hpre⟩
          by_cases heq : dir = init
          · exact Or.inl heq
          · exact Or.inr ⟨hdir, heq, hpre⟩

/-! ## Registering -/

/-- What a path is registered as. -/
def kindAt (self : VerityVerifier h) (path : RelativePath) : Option (EntryKind h) :=
  (self.lookupByPath path).map FsEntry.kind

/-- Entries are filed, and the path of every entry leads back to it. -/
structure Numbered (v : VerityVerifier h) : Prop extends Filed v where
  pathToIno_path : ∀ i e, v.inoToFile i = some e → v.pathToIno e.path = some i

theorem Filed.pathToIno_isSome {v : VerityVerifier h} (hv : v.Filed) (q : RelativePath) :
    (v.pathToIno q).isSome = (v.kindAt q).isSome := by
  cases hq : v.pathToIno q with
  | none => simp [kindAt, lookupByPath, hq]
  | some i =>
    obtain ⟨e, he, -⟩ := hv.path_eq q i hq
    simp [kindAt, lookupByPath, hq, he]

theorem Filed.kindAt_registerEntry {v : VerityVerifier h} (hv : v.Filed) (path : RelativePath)
    (kind : EntryKind h) (q : RelativePath) :
    (v.registerEntry path kind).kindAt q = if q = path then some kind else v.kindAt q := by
  by_cases hq : q = path
  · subst hq
    simp [kindAt, lookupByPath, VerityVerifier.registerEntry]
  · simp only [kindAt, lookupByPath, VerityVerifier.registerEntry, Function.update_of_ne hq, if_neg hq]
    cases hi : v.pathToIno q with
    | none => rfl
    | some i =>
      obtain ⟨e, he, -⟩ := hv.path_eq q i hi
      have hne : i ≠ v.nextIno := Nat.ne_of_lt (hv.lt_next i e he)
      simp [Function.update_of_ne hne]

/-- A path that is new gets a number that is new. -/
theorem Numbered.registerEntry {v : VerityVerifier h} (hv : v.Numbered) {path : RelativePath}
    {kind : EntryKind h} (hpath : (FsEntry.mk v.nextIno kind).path = path)
    (hnew : v.kindAt path = none) : (v.registerEntry path kind).Numbered := by
  refine ⟨hv.toFiled.registerEntry hpath, ?_⟩
  intro i e he
  by_cases hi : i = v.nextIno
  · subst hi
    simp only [VerityVerifier.registerEntry, Function.update_self, Option.some.injEq] at he
    subst he
    rw [hpath]
    exact Function.update_self ..
  · simp only [VerityVerifier.registerEntry, Function.update_of_ne hi] at he
    have hback := hv.pathToIno_path i e he
    have hne : e.path ≠ path := by
      rintro rfl
      have hsome := hv.pathToIno_isSome e.path
      rw [hback, hnew] at hsome
      cases hsome
    exact (Function.update_of_ne hne _ _).trans hback

theorem Numbered.registerDirectory {v : VerityVerifier h} (hv : v.Numbered) (dir : RelativePath) :
    (v.registerDirectory dir).Numbered := by
  unfold VerityVerifier.registerDirectory
  split
  · exact hv
  · next hnone =>
    rw [hv.pathToIno_isSome] at hnone
    exact hv.registerEntry rfl (by simpa using hnone)

theorem Filed.kindAt_registerDirectory {v : VerityVerifier h} (hv : v.Filed)
    (dir q : RelativePath) :
    (v.registerDirectory dir).kindAt q =
      if q = dir then some ((v.kindAt q).getD (.directory q)) else v.kindAt q := by
  unfold VerityVerifier.registerDirectory
  rw [hv.pathToIno_isSome]
  split
  · next hsome =>
    split
    · next heq =>
      subst heq
      rw [Option.isSome_iff_exists] at hsome
      obtain ⟨kind, hkind⟩ := hsome
      simp [hkind]
    · rfl
  · next hnone =>
    rw [hv.kindAt_registerEntry]
    split
    · next heq =>
      subst heq
      simp [Option.not_isSome_iff_eq_none.mp hnone]
    · rfl

/-- Directories are registered where nothing is. -/
theorem Numbered.registerDirectories {v : VerityVerifier h} (hv : v.Numbered)
    (dirs : List RelativePath) :
    (dirs.foldl VerityVerifier.registerDirectory v).Numbered ∧
      ∀ q, (dirs.foldl VerityVerifier.registerDirectory v).kindAt q =
        if q ∈ dirs then some ((v.kindAt q).getD (.directory q)) else v.kindAt q := by
  induction dirs generalizing v with
  | nil => exact ⟨hv, fun q => by simp⟩
  | cons dir dirs ih =>
    obtain ⟨hnum, hkind⟩ := ih (hv.registerDirectory dir)
    refine ⟨hnum, fun q => ?_⟩
    rw [List.foldl_cons, hkind, hv.kindAt_registerDirectory]
    by_cases hq : q = dir <;> by_cases hmem : q ∈ dirs <;> simp [hq, hmem]

/-! ## What is registered -/

/-- Below `infos` stand the root, the files, and the directories above the files. -/
def Holds (infos : List (FileVerityInfo h)) (path : RelativePath) (kind : EntryKind h) : Prop :=
  (path = rootPath ∧ kind = .directory rootPath) ∨
    (∃ info ∈ infos, path = RelativePath.ofString info.path ∧ kind = .verityEnabled info) ∨
    ∃ info ∈ infos, Above path (RelativePath.ofString info.path) ∧ kind = .directory path

/-- The files can stand in one tree. -/
structure Compatible (infos : List (FileVerityInfo h)) : Prop where
  normal : ∀ info ∈ infos, NormalPath (RelativePath.ofString info.path)
  nodup : (infos.map fun info => RelativePath.ofString info.path).Nodup
  not_above : ∀ info ∈ infos, ∀ info' ∈ infos,
    ¬Above (RelativePath.ofString info.path) (RelativePath.ofString info'.path)

/-- One more file, with the directories above it. -/
theorem holds_concat {infos : List (FileVerityInfo h)} {info : FileVerityInfo h} {q : RelativePath}
    {kind : EntryKind h} : Holds (infos ++ [info]) q kind ↔ Holds infos q kind ∨
      (q = RelativePath.ofString info.path ∧ kind = .verityEnabled info) ∨
      (Above q (RelativePath.ofString info.path) ∧ kind = .directory q) := by
  simp only [Holds, List.mem_append, List.mem_singleton, or_and_right, exists_or, exists_eq_left]
  rw [or_or_or_comm]
  exact or_assoc.symm

/-- In one tree a path is one thing. -/
theorem Compatible.holds_unique {infos : List (FileVerityInfo h)} (hc : Compatible infos)
    {q : RelativePath} {kind kind' : EntryKind h} (hq : Holds infos q kind)
    (hq' : Holds infos q kind') : kind = kind' := by
  rcases hq with ⟨rfl, rfl⟩ | ⟨info, hmem, rfl, rfl⟩ | ⟨info, hmem, habove, rfl⟩ <;>
    rcases hq' with ⟨hq', rfl⟩ | ⟨info', hmem', hq', rfl⟩ | ⟨info', hmem', habove', rfl⟩
  · rfl
  · exact absurd hq'.symm (hc.normal info' hmem').1
  · exact absurd rfl habove'.1
  · exact absurd hq' (hc.normal info hmem).1
  · rw [List.inj_on_of_nodup_map hc.nodup hmem hmem' hq']
  · exact absurd habove' (hc.not_above info hmem info' hmem')
  · exact absurd hq' habove.1
  · rw [hq'] at habove
    exact absurd habove (hc.not_above info' hmem' info hmem)
  · rfl

/-- In one tree the path of the last file is not yet that of anything. -/
theorem Compatible.not_holds_last {infos : List (FileVerityInfo h)} {info : FileVerityInfo h}
    (hc : Compatible (infos ++ [info])) (kind : EntryKind h) :
    ¬Holds infos (RelativePath.ofString info.path) kind := by
  have hinfo : info ∈ infos ++ [info] := by simp
  rintro (⟨hroot, -⟩ | ⟨info', hmem, hpath, -⟩ | ⟨info', hmem, habove, -⟩)
  · exact (hc.normal info hinfo).1 hroot
  · have hnodup := hc.nodup
    rw [List.map_append, List.nodup_append] at hnodup
    refine hnodup.2.2 _ (List.mem_map_of_mem hmem) _ ?_ hpath.symm
    exact List.mem_singleton_self (RelativePath.ofString info.path)
  · exact hc.not_above info hinfo info' (List.mem_append_left _ hmem) habove

/-- The entries are numbered, and are those of the given files. -/
structure Registers (infos : List (FileVerityInfo h)) (v : VerityVerifier h) : Prop
    extends Numbered v where
  kindAt_iff : ∀ q kind, v.kindAt q = some kind ↔ Holds infos q kind

/-- The loop body adds one file. -/
theorem Registers.registerFile {infos : List (FileVerityInfo h)} {info : FileVerityInfo h}
    {v : VerityVerifier h} (hv : Registers infos v) (hc : Compatible (infos ++ [info])) :
    Registers (infos ++ [info]) (v.registerFile info) := by
  set dirs := parents (RelativePath.ofString info.path).length (RelativePath.ofString info.path)
    with hdirs
  have hmem_dirs : ∀ q, q ∈ dirs ↔ Above q (RelativePath.ofString info.path) :=
    fun q => mem_parents (hc.normal info (by simp)).2 le_rfl
  obtain ⟨hnum, hkind⟩ := hv.toNumbered.registerDirectories dirs
  have hself : RelativePath.ofString info.path ∉ dirs :=
    fun hmem => ((hmem_dirs _).mp hmem).2.1 rfl
  have hnew : v.kindAt (RelativePath.ofString info.path) = none := by
    rw [Option.eq_none_iff_forall_not_mem]
    exact fun kind hkind => hc.not_holds_last kind ((hv.kindAt_iff _ _).mp hkind)
  have hresult : ∀ q, (v.registerFile info).kindAt q =
      if q = RelativePath.ofString info.path then some (.verityEnabled info)
      else if q ∈ dirs then some ((v.kindAt q).getD (.directory q))
      else v.kindAt q := by
    intro q
    rw [VerityVerifier.registerFile, ← hdirs, hnum.kindAt_registerEntry, hkind]
  refine ⟨hnum.registerEntry rfl (by rw [hkind, if_neg hself, hnew]), ?_⟩
  have hsound : ∀ q kind, (v.registerFile info).kindAt q = some kind →
      Holds (infos ++ [info]) q kind := by
    intro q kind hq
    rw [hresult] at hq
    rw [holds_concat]
    split at hq
    · next hpath => exact .inr (.inl ⟨hpath, (Option.some.inj hq).symm⟩)
    · split at hq
      · next habove =>
        rw [Option.some.injEq] at hq
        subst hq
        cases hold : v.kindAt q with
        | none => exact .inr (.inr ⟨(hmem_dirs q).mp habove, rfl⟩)
        | some kind => exact .inl ((hv.kindAt_iff q kind).mp hold)
      · exact .inl ((hv.kindAt_iff q kind).mp hq)
  have hcomplete : ∀ q kind, Holds (infos ++ [info]) q kind →
      ∃ kind', (v.registerFile info).kindAt q = some kind' := by
    intro q kind hq
    rw [hresult]
    split
    · exact ⟨_, rfl⟩
    · next hpath =>
      split
      · exact ⟨_, rfl⟩
      · next habove =>
        rcases holds_concat.mp hq with hold | ⟨hself, -⟩ | ⟨hdir, -⟩
        · exact ⟨kind, (hv.kindAt_iff q kind).mpr hold⟩
        · exact absurd hself hpath
        · exact absurd ((hmem_dirs q).mpr hdir) habove
  intro q kind
  refine ⟨hsound q kind, fun hq => ?_⟩
  obtain ⟨kind', hkind'⟩ := hcomplete q kind hq
  rw [hkind', hc.holds_unique hq (hsound q kind' hkind')]

theorem Compatible.of_append {infos infos' : List (FileVerityInfo h)}
    (hc : Compatible (infos ++ infos')) : Compatible infos where
  normal info hmem := hc.normal info (List.mem_append_left _ hmem)
  nodup := by
    have hnodup := hc.nodup
    rw [List.map_append] at hnodup
    exact hnodup.of_append_left
  not_above info hmem info' hmem' :=
    hc.not_above info (List.mem_append_left _ hmem) info' (List.mem_append_left _ hmem')

/-- Whatever the order of the files. -/
theorem registers_new {infos : List (FileVerityInfo h)} (hc : Compatible infos) :
    Registers infos (new infos) := by
  induction infos using List.reverseRecOn with
  | nil =>
    have hempty : Numbered (⟨fun _ => none, fun _ => none, rootIno⟩ : VerityVerifier h) := by
      refine ⟨⟨?_, ?_, ?_⟩, ?_⟩
      all_goals simp
    refine ⟨hempty.registerEntry rfl rfl, ?_⟩
    intro q kind
    show (VerityVerifier.registerEntry _ _ _).kindAt q = _ ↔ _
    rw [hempty.kindAt_registerEntry]
    split
    · next hroot => simp [Holds, hroot, eq_comm]
    · next hroot => simp [Holds, hroot, kindAt, lookupByPath]
  | append_singleton infos info ih =>
    rw [new, List.foldl_append]
    exact (ih hc.of_append).registerFile hc

/-- The root has the first number, and numbers are not used again. -/
def RootFirst (v : VerityVerifier h) : Prop :=
  v.inoToFile rootIno = some ⟨rootIno, .directory rootPath⟩ ∧ rootIno < v.nextIno

theorem RootFirst.registerEntry {v : VerityVerifier h} (hv : v.RootFirst) (path : RelativePath)
    (kind : EntryKind h) : (v.registerEntry path kind).RootFirst :=
  ⟨(Function.update_of_ne (Nat.ne_of_lt hv.2) _ _).trans hv.1, Nat.lt_succ_of_lt hv.2⟩

theorem RootFirst.registerDirectory {v : VerityVerifier h} (hv : v.RootFirst)
    (dir : RelativePath) : (v.registerDirectory dir).RootFirst := by
  unfold VerityVerifier.registerDirectory
  split
  · exact hv
  · exact hv.registerEntry dir _

theorem rootFirst_new (infos : List (FileVerityInfo h)) : (new infos).RootFirst := by
  refine List.foldlRecOn (motive := RootFirst) infos registerFile ?_ ?_
  · exact ⟨rfl, Nat.lt_succ_self _⟩
  · intro v hv info _
    apply RootFirst.registerEntry
    exact List.foldlRecOn (motive := RootFirst) _ _ hv fun v hv dir _ => hv.registerDirectory dir

/-! Paths that are not normal, or stand in each other's way, do not make other entries than these. -/

/-- The root, one of the files, or a directory on the way to one. -/
def EntryOf (infos : List (FileVerityInfo h)) : EntryKind h → Prop
  | .verityEnabled info => info ∈ infos
  | .directory path => path = rootPath ∨ ∃ info ∈ infos, path <+: RelativePath.ofString info.path

def Among (infos : List (FileVerityInfo h)) (v : VerityVerifier h) : Prop :=
  ∀ i e, v.inoToFile i = some e → EntryOf infos e.kind

theorem Among.registerEntry {infos : List (FileVerityInfo h)} {v : VerityVerifier h}
    (hv : Among infos v) (path : RelativePath) {kind : EntryKind h} (hkind : EntryOf infos kind) :
    Among infos (v.registerEntry path kind) := by
  intro i e he
  have he' : Function.update v.inoToFile v.nextIno (some ⟨v.nextIno, kind⟩) i = some e := he
  by_cases hi : i = v.nextIno
  · rw [hi, Function.update_self] at he'
    rw [← Option.some.inj he']
    exact hkind
  · rw [Function.update_of_ne hi] at he'
    exact hv i e he'

theorem Among.registerDirectory {infos : List (FileVerityInfo h)} {v : VerityVerifier h}
    (hv : Among infos v) {dir : RelativePath} (hdir : EntryOf infos (.directory dir)) :
    Among infos (v.registerDirectory dir) := by
  unfold VerityVerifier.registerDirectory
  split
  · exact hv
  · exact hv.registerEntry dir hdir

theorem among_new (infos : List (FileVerityInfo h)) : Among infos (new infos) := by
  refine List.foldlRecOn (motive := Among infos) infos registerFile ?_ ?_
  · refine Among.registerEntry ?_ _ (.inl rfl)
    intro i e he
    cases he
  · intro v hv info hinfo
    refine Among.registerEntry ?_ _ hinfo
    refine List.foldlRecOn (motive := Among infos) _ _ hv fun v hv dir hdir => ?_
    exact hv.registerDirectory (.inr ⟨info, hinfo, prefix_of_mem_parents hdir⟩)

/-! ## Looking up names -/

/-- The entry that `lookup` finds: the path of the parent, joined with the name. -/
def lookupChild (self : VerityVerifier h) (parent : Nat) (relative : RelativePath) :
    Option (FsEntry h) := do
  let parentFile ← self.lookupByIno parent
  self.lookupByPath (parentFile.path ++ relative)

/-- One name after the other, from inode to inode. -/
def walk (self : VerityVerifier h) : Nat → RelativePath → Option (FsEntry h)
  | ino, [] => self.lookupByIno ino
  | ino, c :: rest => do
    let child ← self.lookupChild ino [c]
    self.walk child.ino rest

section
variable {fromPath : Bytes → Option RelativePath} {source : Source} {p : Profile} {now : Nat}
  {v : VerityVerifier h} {parent : Nat} {name : Bytes} {relative : RelativePath}

theorem lookup_of_lookupChild_eq_some {child : FsEntry h} (hname : fromPath name = some relative)
    (hchild : v.lookupChild parent relative = some child) :
    lookup fromPath (v.toFileVerifier p) source now parent name = (do
      let metadata ← getMetadata source (child.toVerifiableFile p)
      metadataToAttr now metadata child.ino) := by
  obtain ⟨e, he, hchild⟩ := Option.bind_eq_some_iff.mp hchild
  have hino : (v.toFileVerifier p).lookupByIno parent = some (e.toVerifiableFile p) := by
    simp [toFileVerifier, he]
  have hpath : (v.toFileVerifier p).lookupByPath ((e.toVerifiableFile p).path ++ relative) =
      some (child.toVerifiableFile p) := by
    simp only [toFileVerifier, FsEntry.toVerifiableFile, hchild, Option.map_some]
  simp only [lookup, hino, hname, hpath]
  rfl

theorem lookup_of_lookupChild_eq_none (hname : fromPath name = some relative)
    (hchild : v.lookupChild parent relative = none) :
    lookup fromPath (v.toFileVerifier p) source now parent name = .error ENOENT := by
  cases he : v.lookupByIno parent with
  | none =>
    have hino : (v.toFileVerifier p).lookupByIno parent = none := by simp [toFileVerifier, he]
    simp only [lookup, hino]
    rfl
  | some e =>
    have hino : (v.toFileVerifier p).lookupByIno parent = some (e.toVerifiableFile p) := by
      simp [toFileVerifier, he]
    have hnone : v.lookupByPath (e.path ++ relative) = none := by
      simpa [lookupChild, he] using hchild
    have hpath : (v.toFileVerifier p).lookupByPath ((e.toVerifiableFile p).path ++ relative) =
        none := by
      simp only [toFileVerifier, FsEntry.toVerifiableFile, hnone, Option.map_none]
    simp only [lookup, hino, hname, hpath]
    rfl

end

theorem holds_of_prefix {infos : List (FileVerityInfo h)} {info : FileVerityInfo h}
    (hmem : info ∈ infos) {q : RelativePath} (hq : q <+: RelativePath.ofString info.path) :
    ∃ kind, Holds infos q kind := by
  by_cases hroot : q = rootPath
  · exact ⟨_, Or.inl ⟨hroot, rfl⟩⟩
  · by_cases hfile : q = RelativePath.ofString info.path
    · exact ⟨_, Or.inr (Or.inl ⟨info, hmem, hfile, rfl⟩)⟩
    · exact ⟨_, Or.inr (Or.inr ⟨info, hmem, ⟨hroot, hfile, hq⟩, rfl⟩)⟩

theorem Registers.lookupByPath_of_holds {infos : List (FileVerityInfo h)} {v : VerityVerifier h}
    (hv : Registers infos v) {q : RelativePath} {kind : EntryKind h} (hq : Holds infos q kind) :
    ∃ e, v.lookupByPath q = some e ∧ e.kind = kind :=
  Option.map_eq_some_iff.mp ((hv.kindAt_iff q kind).mpr hq)

/-- From a directory above a file the remaining names lead to the file. -/
theorem Registers.walk_eq_some {infos : List (FileVerityInfo h)} {v : VerityVerifier h}
    (hv : Registers infos v) {info : FileVerityInfo h} (hmem : info ∈ infos)
    {rest dir : RelativePath} {e : FsEntry h} (he : v.lookupByPath dir = some e)
    (hpath : dir ++ rest = RelativePath.ofString info.path) :
    v.walk e.ino rest = v.lookupByPath (RelativePath.ofString info.path) := by
  induction rest generalizing dir e with
  | nil =>
    rw [List.append_nil] at hpath
    rw [walk, ← hpath, he]
    exact (hv.lookupByPath_eq_some he).2
  | cons c rest ih =>
    obtain ⟨hdir, hino⟩ := hv.lookupByPath_eq_some he
    have hpath' : (dir ++ [c]) ++ rest = RelativePath.ofString info.path := by
      rw [List.append_assoc]
      exact hpath
    obtain ⟨kind, hkind⟩ := holds_of_prefix hmem (hpath' ▸ List.prefix_append (dir ++ [c]) rest)
    obtain ⟨child, hchild, -⟩ := hv.lookupByPath_of_holds hkind
    have hlookup : v.lookupChild e.ino [c] = some child := by
      simp [lookupChild, hino, hdir, hchild]
    rw [walk, hlookup, ← ih hchild hpath']
    rfl

/-- From the root the names of a file lead to the file. -/
theorem exists_walk_new {infos : List (FileVerityInfo h)} (hc : Compatible infos)
    {info : FileVerityInfo h} (hmem : info ∈ infos) :
    ∃ e, (new infos).walk rootIno (RelativePath.ofString info.path) = some e ∧
      e.kind = .verityEnabled info ∧ (new infos).lookupByIno e.ino = some e := by
  have hv := registers_new hc
  have hroot := (rootFirst_new infos).1
  have hlookup : (new infos).lookupByPath rootPath = some ⟨rootIno, .directory rootPath⟩ := by
    have hback := hv.pathToIno_path _ _ hroot
    rw [lookupByPath]
    exact Option.bind_eq_some_iff.mpr ⟨rootIno, hback, hroot⟩
  obtain ⟨e, he, hkind⟩ := hv.lookupByPath_of_holds
    (Or.inr (Or.inl ⟨info, hmem, rfl, rfl⟩) : Holds infos _ (.verityEnabled info))
  exact ⟨e, (hv.walk_eq_some hmem hlookup rfl).trans he, hkind, (hv.lookupByPath_eq_some he).2⟩

/-! ## The namespace -/

/-- The verifier is a faithful namespace for the files: entries and paths are in bijection, the
entries are the root, the files and the directories above them, and names that are looked up one
after the other lead to exactly these. -/
structure Faithful (infos : List (FileVerityInfo h)) (v : VerityVerifier h) : Prop where
  ino_eq : ∀ i e, v.inoToFile i = some e → e.ino = i ∧ v.pathToIno e.path = some i
  path_eq : ∀ q i, v.pathToIno q = some i → ∃ e, v.inoToFile i = some e ∧ e.path = q
  root : v.inoToFile rootIno = some ⟨rootIno, .directory rootPath⟩
  registered : ∀ q kind, (∃ e, v.lookupByPath q = some e ∧ e.kind = kind) ↔ Holds infos q kind
  found : ∀ info ∈ infos, ∃ e, v.walk rootIno (RelativePath.ofString info.path) = some e ∧
    e.kind = .verityEnabled info
  absent : ∀ dir e path, v.lookupByIno dir = some e → e.kind = .directory path →
    ∀ c, NormalComponent c →
      (∀ info ∈ infos, path ++ [c] ≠ RelativePath.ofString info.path ∧
        ¬Above (path ++ [c]) (RelativePath.ofString info.path)) →
      v.lookupChild dir [c] = none
  lookup_some : ∀ fromPath p source now dir name c child, fromPath name = some [c] →
    v.lookupChild dir [c] = some child →
    lookup fromPath (v.toFileVerifier p) source now dir name = (do
      let metadata ← getMetadata source (child.toVerifiableFile p)
      metadataToAttr now metadata child.ino)
  lookup_none : ∀ fromPath p source now dir name c, fromPath name = some [c] →
    v.lookupChild dir [c] = none →
    lookup fromPath (v.toFileVerifier p) source now dir name = .error ENOENT

/-- **`new` builds a faithful namespace**, for all files that can stand in one tree, in any order. -/
theorem new_faithful {infos : List (FileVerityInfo h)} (hc : Compatible infos) :
    Faithful infos (new infos) := by
  have hv := registers_new hc
  have hroot := (rootFirst_new infos).1
  refine ⟨?_, hv.path_eq, hroot, ?_, ?_, ?_, ?_, ?_⟩
  · intro i e he
    exact ⟨hv.ino_eq i e he, hv.pathToIno_path i e he⟩
  · intro q kind
    rw [← hv.kindAt_iff, kindAt, Option.map_eq_some_iff]
  · intro info hmem
    obtain ⟨e, hwalk, hkind, -⟩ := exists_walk_new hc hmem
    exact ⟨e, hwalk, hkind⟩
  · intro dir e path he hkind c _ hnone
    have hpath : e.path = path := by simp [FsEntry.path, hkind]
    have hlookup : (new infos).lookupByPath (path ++ [c]) = none := by
      rw [Option.eq_none_iff_forall_not_mem]
      intro e' he'
      rcases (hv.kindAt_iff _ _).mp (Option.map_eq_some_iff.mpr ⟨e', he', rfl⟩) with
        ⟨hnil, -⟩ | ⟨info, hmem, hfile, -⟩ | ⟨info, hmem, habove, -⟩
      · simp [rootPath] at hnil
      · exact (hnone info hmem).1 hfile
      · exact (hnone info hmem).2 habove
    simp [lookupChild, he, hpath, hlookup]
  · intro fromPath p source now dir name c child hname hchild
    exact lookup_of_lookupChild_eq_some hname hchild
  · intro fromPath p source now dir name c hname hchild
    exact lookup_of_lookupChild_eq_none hname hchild

/-- Three files, two of them in one directory. -/
def treeInfos : List (FileVerityInfo FsVerityDigest.lengthHash) :=
  ["d/e/f", "g", "d/h"].map fun path => { FileVerityInfo.twoInfo with path := path }

theorem new_faithful_three_files : Faithful treeInfos (new treeInfos) := by
  have hpaths : treeInfos.map (fun info => RelativePath.ofString info.path) =
      [["d", "e", "f"], ["g"], ["d", "h"]] := by decide +kernel
  have hforall : ∀ P : RelativePath → Prop, (∀ path ∈ [["d", "e", "f"], ["g"], ["d", "h"]], P path) →
      ∀ info ∈ treeInfos, P (RelativePath.ofString info.path) := by
    intro P hP info hmem
    have hpath : RelativePath.ofString info.path ∈
        treeInfos.map (fun info => RelativePath.ofString info.path) := List.mem_map_of_mem hmem
    rw [hpaths] at hpath
    exact hP _ hpath
  refine new_faithful ⟨?_, ?_, ?_⟩
  · exact hforall NormalPath (by decide +kernel)
  · rw [hpaths]
    decide
  · refine hforall (fun path => ∀ info' ∈ treeInfos,
      ¬Above path (RelativePath.ofString info'.path)) fun path hpath => ?_
    refine hforall (fun path' => ¬Above path path') ?_
    revert path
    decide +kernel

end VerityVerifier

end CryptPilot.VerityFuse
