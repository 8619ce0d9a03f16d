import CryptPilot.Data.FileTree
import CryptPilot.Fde.AfterSysroot

/-!
# The copies on the delta volume

With an overlay that is kept on disk, the stage after the root file system is mounted makes a copy of
some directories on the delta volume, and mounts the copies. It makes a copy if there is no directory
for it. The directory comes first and the copy after it, so a boot that stops between the two leaves
a directory that later boots take for a copy.

A boot can stop anywhere, also in the middle of an operation. One that finds the directory of a copy
does not change the copy (`same_of_hasOrigin`), and one that finds none mounts a copy of everything
if it gets so far (`whole_of_not_hasOrigin`), and leaves it so (`whole_of_mounts`).
-/

namespace CryptPilot.Volume.MountBinds

open CryptPilot.Data CryptPilot.Data.Prog CryptPilot.Data.Text CryptPilot.Core CryptPilot.Fde

variable {τ : Type}

/-! ## Places -/

/-- The names in a path. -/
def placeOf (path : Path) : Place :=
  ((words (· = '/') path.toList).filter (· ≠ ['.'])).map String.ofList

/-- The place of a path on the delta volume. -/
def onDelta (path : Path) : Option Place := (placeOf path).dropPrefix? (placeOf deltaVolumeDir)

/-- The place of a path in the read-only root file system. -/
def onLower (path : Path) : Option Place := (placeOf path).dropPrefix? (placeOf sysrootBak)

/-- Where the copy of a special directory is. -/
def originPlace (dir : Path) : Place := ["overlay", "mount-binds"] ++ placeOf dir

/-- The layers of the overlay. -/
def InLayers (place : Place) : Prop :=
  ["overlay", "upper"] <+: place ∨ ["overlay", "work"] <+: place

/-- None of two places is below the other. -/
def Apart (a b : Place) : Prop := ¬a <+: b ∧ ¬b <+: a

theorem Apart.elim_append {a b rest below : Place} (h : Apart a b) (heq : a ++ rest = b ++ below) :
    False := by
  rcases List.prefix_or_prefix_of_prefix ⟨rest, heq⟩ (List.prefix_append b below) with hab | hba
  · exact h.1 hab
  · exact h.2 hba

/-! ## What the operations do -/

/-- What a path of the read-only root file system leads to. -/
inductive Lower (τ : Type) where
  | absent
  | other
  | dir (tree : FileTree τ)

/-- The delta volume. `bound` are the places that are mounted elsewhere, and `touched` those where the
systems have changed something through these mounts. -/
structure Delta (τ : Type) where
  files : Place → Option (Node τ)
  bound : List Place
  touched : Set Place

namespace Delta

/-- What an operation can leave at a place, besides what is there. One that stops in the middle has
done a part of it, and the last file that was being copied can be anything. -/
def Leaves (lower : Place → Lower τ) (s : Delta τ) (place : Place) (new : Option (Node τ)) :
    MountOp → Prop
  | .createDirAll path =>
    -- a directory of the overlay is made in its upper layer
    InLayers place ∨
      ∃ dir, onDelta path = some dir ∧ place <+: dir ∧ s.files place = none ∧ new = some .dir
  -- an overlay that is mounted has files of its own in `work`
  | .mount _ => InLayers place
  | .copyAll source path =>
    ∃ dir from' tree rest node, onDelta path = some dir ∧ onLower source = some from' ∧
      lower from' = .dir tree ∧ place = dir ++ rest ∧ rest ≠ [] ∧ tree.node rest = some node ∧
      (new = some node ∨ ∃ content part, node = .file content ∧ new = some (.file part))
  | .removeDirAll path => ∃ dir, onDelta path = some dir ∧ dir <+: place ∧ new = none
  | _ => False

/-- What is known of an answer. -/
def Answers (lower : Place → Lower τ) (s s' : Delta τ) : (op : MountOp) → op.Res → Prop
  | .createDirAll path, r => r = Except.ok () → ∀ dir, onDelta path = some dir →
      ∀ place, place <+: dir → s'.files place = some .dir
  | .copyAll source path, r => r = Except.ok () → ∀ dir from', onDelta path = some dir →
      onLower source = some from' → ∃ tree, lower from' = .dir tree ∧
        ∀ rest node, rest ≠ [] → tree.node rest = some node → s'.files (dir ++ rest) = some node
  | .removeDirAll path, r => r = Except.ok () → ∀ dir, onDelta path = some dir →
      ∀ rest, s'.files (dir ++ rest) = none
  | .pathExists path, r =>
    (∀ place, onDelta path = some place → (r = true ↔ s.files place ≠ none)) ∧
      ∀ place, onLower path = some place → (r = true ↔ lower place ≠ .absent)
  | .isDir path, r => ∀ place, onDelta path = some place → (r = true ↔ s.files place = some .dir)
  | _, _ => True

/-- The places that are mounted after an operation. -/
def boundAfter (s : Delta τ) : (op : MountOp) → op.Res → List Place
  | .mount (.bind source _ _), (.ok _ : Except String Unit) => (onDelta source).toList ++ s.bound
  | _, _ => s.bound

/-- **One operation.** If the power is lost in the middle of it, the boot stops here and the answer
does not matter. -/
structure Step (lower : Place → Lower τ) (s : Delta τ) (op : MountOp) (r : op.Res) (s' : Delta τ) :
    Prop where
  files : ∀ place, s'.files place = s.files place ∨ s.Leaves lower place (s'.files place) op
  answers : Answers lower s s' op r
  bound : s'.bound = s.boundAfter op r
  touched : s'.touched = s.touched

end Delta

/-- A configuration with an overlay that is kept. -/
structure Overlaid where
  config : FdeConfig
  backend : config.backend = .overlayfs
  location : config.location = .diskPersist

/-- The stage, for such a configuration. -/
def overlayStage (debug : String → String) (overlaid : Overlaid) : MountCmd Unit :=
  setupMountsRequiredByFde debug (.ok (some overlaid.config))

/-- The mount of a special directory. -/
def bindOp (dir : Path) : MountOp := .mount (.bind (bindOrigin diskOverlay dir) (bindTarget dir) false)

def bindDone (dir : Path) : MountCall := ⟨bindOp dir, (.ok () : Except String Unit)⟩

def HasOrigin (dir : Path) (s : Delta τ) : Prop := s.files (originPlace dir) ≠ none

/-- All files of a special directory are in its copy, but for those that were touched. -/
def Whole (lower : Place → Lower τ) (dir : Path) (files : Place → Option (Node τ))
    (touched : Set Place) : Prop :=
  ∀ tree, lower (placeOf dir) = .dir tree → ∀ rest node, rest ≠ [] → tree.node rest = some node →
    files (originPlace dir ++ rest) = some node ∨ originPlace dir ++ rest ∈ touched

/-- Nothing has changed in the copy. -/
def Same (dir : Path) (s s' : Delta τ) : Prop :=
  ∀ rest, s'.files (originPlace dir ++ rest) = s.files (originPlace dir ++ rest)

theorem Same.hasOrigin {dir : Path} {s s' : Delta τ} (h : Same dir s s') :
    HasOrigin dir s' ↔ HasOrigin dir s := by
  have hroot := h []
  rw [List.append_nil] at hroot
  rw [HasOrigin, HasOrigin, hroot]

/-! ## The paths of the special directories -/

section
variable {base path dir dir' : Path} {place : Place}

theorem placeOf_append_slash (base path : Path) :
    placeOf (base ++ "/" ++ path) = placeOf base ++ placeOf path := by
  have hwords : words (· = '/') (base ++ "/" ++ path).toList =
      words (· = '/') base.toList ++ words (· = '/') path.toList := by
    rw [String.toList_append, String.toList_append, List.append_assoc]
    exact wordsFrom_append_blank rfl _ _ _
  rw [placeOf, hwords, List.filter_append, List.map_append]
  rfl

theorem placeOf_joinPath (hpath : path.toList.head? ≠ some '/') :
    placeOf (joinPath base path) = placeOf base ++ placeOf path := by
  rw [joinPath, if_neg hpath]
  split
  · rename_i hbase
    rcases hbase with hbase | hbase
    · rw [String.toList_eq_nil_iff.mp hbase, String.empty_append]
      rfl
    · -- the slash is there already
      obtain ⟨before, hbefore⟩ := List.getLast?_eq_some_iff.mp hbase
      have hslash : base = String.ofList before ++ "/" ++ "" := by
        apply String.toList_injective
        simp [hbefore]
      have hempty : placeOf "" = [] := rfl
      have hjoined : base ++ path = String.ofList before ++ "/" ++ path := by
        rw [hslash, String.append_empty]
      rw [hjoined, hslash, placeOf_append_slash, placeOf_append_slash, hempty, List.append_nil]
  · exact placeOf_append_slash base path

/-- The special directories are joined to others so. -/
theorem placeOf_joinPath_dot : placeOf (joinPath base ("./" ++ dir)) = placeOf base ++ placeOf dir := by
  have hhead : ("./" ++ dir).toList.head? ≠ some '/' := by
    simp [String.toList_append]
  rw [placeOf_joinPath hhead]
  exact congrArg _ (placeOf_append_slash "." dir)

theorem placeOf_bindOrigin :
    placeOf (bindOrigin diskOverlay dir) = "delta_volume" :: originPlace dir := by
  have hbase : placeOf (joinPath diskOverlay "mount-binds") =
      ["delta_volume", "overlay", "mount-binds"] := by
    decide +kernel
  rw [bindOrigin, placeOf_joinPath_dot, hbase]
  rfl

theorem placeOf_bindTarget : placeOf (bindTarget dir) = "sysroot" :: placeOf dir := by
  have hbase : placeOf "/sysroot/" = ["sysroot"] := by decide +kernel
  rw [bindTarget, placeOf_joinPath_dot, hbase]
  rfl

theorem placeOf_sysrootBak : placeOf sysrootBak = ["sysroot_bak"] := by decide +kernel

theorem placeOf_copySource : placeOf (copySource dir) = "sysroot_bak" :: placeOf dir := by
  rw [copySource, placeOf_joinPath_dot, placeOf_sysrootBak]
  rfl

theorem onDelta_eq : onDelta path = (placeOf path).dropPrefix? ["delta_volume"] := by
  have hdelta : placeOf deltaVolumeDir = ["delta_volume"] := by decide +kernel
  rw [onDelta, hdelta]

theorem onLower_eq : onLower path = (placeOf path).dropPrefix? ["sysroot_bak"] := by
  rw [onLower, placeOf_sysrootBak]

theorem onDelta_bindOrigin : onDelta (bindOrigin diskOverlay dir) = some (originPlace dir) := by
  rw [onDelta_eq, placeOf_bindOrigin]
  show (["delta_volume"] ++ originPlace dir).dropPrefix? _ = _
  exact List.dropPrefix?_append_of_beq _ (beq_self_eq_true _)

theorem onDelta_bindTarget : onDelta (bindTarget dir) = none := by
  rw [onDelta_eq, placeOf_bindTarget]
  rfl

theorem onLower_bindOrigin : onLower (bindOrigin diskOverlay dir) = none := by
  rw [onLower_eq, placeOf_bindOrigin]
  rfl

theorem onLower_bindTarget : onLower (bindTarget dir) = none := by
  rw [onLower_eq, placeOf_bindTarget]
  rfl

theorem onLower_copySource :
    onLower (copySource dir) = some (placeOf dir) ∧
      onLower (joinPath (copySource dir) ".") = some (placeOf dir) := by
  have hdot : placeOf "." = [] := by decide +kernel
  have hsource : onLower (copySource dir) = some (placeOf dir) := by
    rw [onLower_eq, placeOf_copySource]
    show (["sysroot_bak"] ++ placeOf dir).dropPrefix? _ = _
    exact List.dropPrefix?_append_of_beq _ (beq_self_eq_true _)
  refine ⟨hsource, ?_⟩
  rwa [onLower, placeOf_joinPath (by decide), hdot, List.append_nil]

instance (a b : Place) : Decidable (Apart a b) := inferInstanceAs (Decidable (_ ∧ _))

theorem apart_originPlace (hdir : dir ∈ specialDirs) (hdir' : dir' ∈ specialDirs)
    (hne : dir' ≠ dir) : Apart (originPlace dir) (originPlace dir') := by
  have h : ∀ dir ∈ specialDirs, ∀ dir' ∈ specialDirs, dir' ≠ dir →
      Apart (originPlace dir) (originPlace dir') := by
    decide +kernel
  exact h dir hdir dir' hdir' hne

theorem bindOp_ne (hdir : dir ∈ specialDirs) (hdir' : dir' ∈ specialDirs) (hne : dir' ≠ dir) :
    bindOp dir' ≠ bindOp dir := by
  intro heq
  have horigin : bindOrigin diskOverlay dir' = bindOrigin diskOverlay dir := by
    injection heq with heq
    injection heq
  have hplace : originPlace dir' = originPlace dir := by
    rw [← Option.some_inj, ← onDelta_bindOrigin, ← onDelta_bindOrigin, horigin]
  exact (apart_originPlace hdir hdir' hne).1 (hplace ▸ List.prefix_rfl)

theorem not_inLayers {rest : Place} : ¬InLayers (originPlace dir ++ rest) := by
  rintro (⟨t, ht⟩ | ⟨t, ht⟩) <;> simp [originPlace] at ht

end

/-! ## What leaves a copy as it is -/

section
variable {lower : Place → Lower τ} {dir dir' : Path} {op : MountOp} {path : Path}

def Spares (lower : Place → Lower τ) (dir : Path) (op : MountOp) : Prop :=
  ∀ s r s', Delta.Step lower s op r s' → Same dir s s'

theorem spares_of_leaves
    (h : ∀ (s : Delta τ) rest new, ¬s.Leaves lower (originPlace dir ++ rest) new op) :
    Spares lower dir op :=
  fun s _ _ hstep rest => (hstep.files _).resolve_right (h s rest _)

theorem spares_readMtab : Spares lower dir .readMtab :=
  spares_of_leaves fun _ _ _ => id

theorem spares_pathExists : Spares lower dir (.pathExists path) :=
  spares_of_leaves fun _ _ _ => id

theorem spares_isDir : Spares lower dir (.isDir path) :=
  spares_of_leaves fun _ _ _ => id

theorem spares_mount {mount : Mount} : Spares lower dir (.mount mount) :=
  spares_of_leaves fun _ _ _ => not_inLayers

theorem spares_createDirAll (h : ∀ place, onDelta path = some place → ¬originPlace dir <+: place) :
    Spares lower dir (.createDirAll path) := by
  refine spares_of_leaves fun s rest new hleaves => ?_
  rcases hleaves with hlayers | ⟨place, hplace, hbelow, -⟩
  · exact not_inLayers hlayers
  · exact h place hplace ((List.prefix_append _ _).trans hbelow)

theorem spares_copyAll {source : Path}
    (h : ∀ place, onDelta path = some place → Apart (originPlace dir) place) :
    Spares lower dir (.copyAll source path) := by
  refine spares_of_leaves fun s rest new hleaves => ?_
  obtain ⟨place, _, _, below, _, hplace, _, _, heq, _⟩ := hleaves
  exact (h place hplace).elim_append heq

theorem spares_removeDirAll (h : ∀ place, onDelta path = some place → Apart (originPlace dir) place) :
    Spares lower dir (.removeDirAll path) := by
  refine spares_of_leaves fun s rest new hleaves => ?_
  obtain ⟨place, hplace, ⟨below, heq⟩, -⟩ := hleaves
  exact (h place hplace).elim_append heq.symm

/-- The calls that have nothing to do with a special directory. -/
def Elsewhere (lower : Place → Lower τ) (dir : Path) (op : MountOp) : Prop :=
  Spares lower dir op ∧ op ≠ bindOp dir

theorem elsewhere_pathExists : Elsewhere lower dir (.pathExists path) :=
  ⟨spares_pathExists, by simp [bindOp]⟩

theorem elsewhere_isDir : Elsewhere lower dir (.isDir path) :=
  ⟨spares_isDir, by simp [bindOp]⟩

theorem elsewhere_createDirAll
    (h : ∀ place, onDelta path = some place → ¬originPlace dir <+: place) :
    Elsewhere lower dir (.createDirAll path) :=
  ⟨spares_createDirAll h, by simp [bindOp]⟩

theorem elsewhere_target :
    Elsewhere lower dir (.createDirAll (bindTarget dir')) := by
  refine elsewhere_createDirAll fun place hplace => ?_
  rw [onDelta_bindTarget] at hplace
  cases hplace

theorem bindOps_elsewhere (hdir : dir ∈ specialDirs) (hdir' : dir' ∈ specialDirs)
    (hne : dir' ≠ dir) : BindOps (Elsewhere lower dir) diskOverlay dir' := by
  have hapart : ∀ place, onDelta (bindOrigin diskOverlay dir') = some place →
      Apart (originPlace dir) place := by
    intro place hplace
    rw [onDelta_bindOrigin] at hplace
    cases hplace
    exact apart_originPlace hdir hdir' hne
  exact {
    pathExists := fun _ => elsewhere_pathExists
    isDir := fun _ => elsewhere_isDir
    target := elsewhere_target
    origin := elsewhere_createDirAll fun place hplace => (hapart place hplace).1
    copy := ⟨spares_copyAll hapart, by simp [bindOp]⟩
    remove := ⟨spares_removeDirAll hapart, by simp [bindOp]⟩
    bind := ⟨spares_mount, bindOp_ne hdir hdir' hne⟩ }

end

/-! ## One boot -/

section
variable {lower : Place → Lower τ} {debug : String → String} {dir : Path} {s s' t : Delta τ}
  {overlaid : Overlaid} {rest : MountCmd Unit} {es before after : List MountCall}
  {I : Delta τ → Prop}

/-- Before the loop over the special directories. -/
theorem elsewhere_stage (hdir : dir ∈ specialDirs) {path : Path}
    (hpath : path ∈ [deltaVolumeDir, sysrootBak, "/delta_volume/overlay/upper",
      "/delta_volume/overlay/work"]) : Elsewhere lower dir (.createDirAll path) := by
  refine elsewhere_createDirAll fun place hplace => ?_
  have h : ∀ dir ∈ specialDirs, ∀ path ∈ [deltaVolumeDir, sysrootBak, "/delta_volume/overlay/upper",
      "/delta_volume/overlay/work"], ∀ place ∈ onDelta path, ¬originPlace dir <+: place := by
    decide +kernel
  exact h dir hdir path hpath place hplace

/-- The frame of a copy. -/
theorem keep_of_elsewhere (hI : ∀ s s', Same dir s s' → I s → I s') (s : Delta τ) (op : MountOp)
    (r : op.Res) (s' : Delta τ) (hop : Elsewhere lower dir op) (hs : I s)
    (hstep : Delta.Step lower s op r s') : I s' :=
  hI s s' (hop.1 s r s' hstep) hs

theorem Same.keep_hasOrigin (s s' : Delta τ) (h : Same dir s s') (hs : HasOrigin dir s) :
    HasOrigin dir s' :=
  h.hasOrigin.mpr hs

theorem Same.keep_not_hasOrigin (s s' : Delta τ) (h : Same dir s s') (hs : ¬HasOrigin dir s) :
    ¬HasOrigin dir s' :=
  h.hasOrigin.not.mpr hs

section
variable {σ : Type} {sem : σ → (op : MountOp) → op.Res → σ → Prop} {G : σ → MountOp → Prop}
  {I : σ → Prop} {s : σ}

/-- By induction on the directories. Up to the given one the copy stays as it was before the stage,
and after it the calls are about others. -/
theorem ensures_setupMountBinds (hdir : dir ∈ specialDirs) {dirs : List Path}
    (hdirs : ∀ d ∈ dirs, d ∈ specialDirs) (hnodup : dirs.Nodup)
    (hkeep : ∀ s op r s', Elsewhere lower dir op → I s → sem s op r s' → I s')
    (hG : ∀ s op, Elsewhere lower dir op → G s op)
    (htask : ∀ s, I s → (setupMountBind debug diskOverlay dir).Ensures sem G (fun _ _ => True) s)
    (hs : I s) : (setupMountBinds debug diskOverlay dirs).Ensures sem G (fun _ _ => True) s := by
  induction dirs generalizing s with
  | nil => exact ensures_pure.mpr trivial
  | cons d dirs ih =>
    obtain ⟨hnot, hnodup⟩ := List.nodup_cons.mp hnodup
    obtain ⟨hd, hdirs⟩ := List.forall_mem_cons.mp hdirs
    by_cases heq : d = dir
    · -- its turn; what holds of the copy after it is not needed for the others
      subst heq
      have hrest : (setupMountBinds debug diskOverlay dirs).Calls (Elsewhere lower d) :=
        calls_setupMountBinds fun d' hd' =>
          bindOps_elsewhere hdir (hdirs d' hd') fun heq => hnot (heq ▸ hd')
      refine .bind (htask s hs).context.attempt fun _ _ _ => ?_
      exact hrest.ensures_true hG
    · have hother : (setupMountBind debug diskOverlay d).Calls (Elsewhere lower dir) :=
        calls_setupMountBind (bindOps_elsewhere hdir hd heq)
      refine .bind (Q := fun _ s => I s) ?_ fun _ s' hs' => ih hdirs hnodup hs'
      exact hother.context.attempt.ensures hkeep (fun s op hop _ => hG s op hop) hs

/-- What a boot does depends on what it does for one directory. -/
theorem ensures_overlayStage (hdir : dir ∈ specialDirs)
    (hkeep : ∀ s op r s', Elsewhere lower dir op → I s → sem s op r s' → I s')
    (hG : ∀ s op, Elsewhere lower dir op → G s op)
    (htask : ∀ s, I s → (setupMountBind debug diskOverlay dir).Ensures sem G (fun _ _ => True) s)
    (hs : I s) : (overlayStage debug overlaid).Ensures sem G (fun _ _ => True) s := by
  have hcall : ∀ s op, Elsewhere lower dir op → I s → G s op := fun s op hop _ => hG s op hop
  rw [overlayStage, setupMountsRequiredByFde_overlayfs debug overlaid.backend]
  have hcheck : checkSysroot.Calls (Elsewhere lower dir) :=
    calls_checkSysroot ⟨spares_readMtab, by simp [bindOp]⟩
  have hdelta : mountDeltaVolume.Calls (Elsewhere lower dir) :=
    calls_mountDeltaVolume (elsewhere_stage hdir (by simp)) ⟨spares_mount, by simp [bindOp]⟩
  have hbackup : (backupSysroot debug).Calls (Elsewhere lower dir) :=
    calls_backupSysroot (elsewhere_stage hdir (by simp)) ⟨spares_mount, by simp [bindOp]⟩
  refine .bind (hcheck.ensures hkeep hcall hs) fun _ s hs => ?_
  refine .bind (hdelta.ensures hkeep hcall hs) fun _ s hs => ?_
  refine .bind (hbackup.ensures hkeep hcall hs) fun _ s hs => ?_
  rw [overlaid.location]
  refine .bind (Q := fun overlayDir s => overlayDir = diskOverlay ∧ I s) ?_ ?_
  · have hoverlay : (mountOverlay "/delta_volume/overlay/upper" "/delta_volume/overlay/work").Calls
        (Elsewhere lower dir) :=
      calls_mountOverlay (elsewhere_stage hdir (by simp)) (elsewhere_stage hdir (by simp))
        ⟨spares_mount, by simp [bindOp]⟩
    refine .bind (hoverlay.context.ensures hkeep hcall hs) fun _ s hs => ?_
    exact ensures_pure.mpr ⟨rfl, hs⟩
  · rintro _ s ⟨rfl, hs⟩
    exact ensures_setupMountBinds hdir (fun _ => id) (by decide) hkeep hG htask hs

end

theorem calls_target :
    (prepareTarget debug (bindTarget dir)).Calls (Elsewhere lower dir) :=
  calls_prepareTarget (fun _ => elsewhere_pathExists) (fun _ => elsewhere_isDir)
    elsewhere_target

/-- A boot that finds the directory of a copy leaves the copy alone. -/
theorem ensures_setupMountBind_found (hs : HasOrigin dir s) :
    (setupMountBind debug diskOverlay dir).Ensures (Delta.Step lower)
      (fun _ op => Spares lower dir op) (fun _ _ => True) s := by
  refine .bind (calls_target.ensures (keep_of_elsewhere Same.keep_hasOrigin)
    (fun _ _ hop _ => hop.1) hs) fun _ s hs => ?_
  refine .bind (Q := fun _ _ => True) ?_ fun _ s _ => ?_
  · refine .bind (Q := fun present _ => present = true) ?_ ?_
    · refine ⟨spares_pathExists, fun present s' hstep => ensures_pure.mpr ?_⟩
      exact (hstep.answers.1 _ onDelta_bindOrigin).mpr hs
    · rintro _ s rfl
      refine .bind (Q := fun _ _ => True) ⟨spares_isDir, fun _ _ _ => ensures_pure.mpr trivial⟩ ?_
      exact fun _ _ _ => .bailIf fun _ => trivial
  · exact .context ⟨spares_mount, fun _ _ _ _ _ => trivial⟩

/-- What was copied, after the copy has succeeded. -/
theorem ensures_copyToOrigin :
    (copyToOrigin debug (copySource dir) (bindOrigin diskOverlay dir)).Ensures (Delta.Step lower)
      (fun t op => op = bindOp dir → Whole lower dir t.files ∅)
      (fun _ t => Whole lower dir t.files ∅) s := by
  obtain ⟨hsource, hinside⟩ := onLower_copySource
  refine .bind (Q := fun present _ => present = true ↔ lower (placeOf dir) ≠ .absent) ?_
    fun present s hpresent => ?_
  · refine ⟨by simp [bindOp], fun present s' hstep => ensures_pure.mpr ?_⟩
    exact hstep.answers.2 _ hsource
  cases present with
  | false =>
    -- there is nothing to be copied
    refine ensures_pure.mpr fun tree htree => ?_
    have habsent : lower (placeOf dir) = .absent := by simpa using hpresent
    rw [habsent] at htree
    cases htree
  | true =>
    refine .bind (Q := fun (r : Except String Unit) (t : Delta τ) =>
      ∀ a, r = .ok a → Whole lower dir t.files ∅) ?_ fun outcome t ht => ?_
    · refine (Ensures.context ?_).attempt
      refine ⟨by simp [bindOp], fun copied s' hstep => ?_⟩
      rintro ⟨⟩ rfl tree htree rest node hrest hnode
      obtain ⟨tree', htree', hall⟩ :=
        hstep.answers rfl _ _ onDelta_bindOrigin hinside
      obtain rfl : tree = tree' := Lower.dir.inj (htree.symm.trans htree')
      exact .inl (hall rest node hrest hnode)
    · cases outcome with
      | ok _ => exact ensures_pure.mpr (ht () rfl)
      | error e =>
        -- whether the copy is removed or not, this boot does not mount it
        refine .bind (Q := fun _ _ => True) ?_ fun _ _ _ => ensures_fail
        exact ⟨by simp [bindOp], fun _ _ _ _ _ => trivial⟩

/-- A boot that finds no directory mounts a copy of everything. -/
theorem ensures_setupMountBind_new (hs : ¬HasOrigin dir s) :
    (setupMountBind debug diskOverlay dir).Ensures (Delta.Step lower)
      (fun t op => op = bindOp dir → Whole lower dir t.files ∅) (fun _ _ => True) s := by
  refine .bind (calls_target.ensures (keep_of_elsewhere Same.keep_not_hasOrigin)
    (fun _ _ hop _ heq => absurd heq hop.2) hs) fun _ s hs => ?_
  refine .bind (Q := fun _ (t : Delta τ) => Whole lower dir t.files ∅) ?_ fun _ t ht => ?_
  · refine .bind (Q := fun present _ => present = false) ?_ ?_
    · refine ⟨by simp [bindOp], fun present s' hstep => ensures_pure.mpr ?_⟩
      exact Bool.eq_false_iff.mpr fun htrue =>
        hs ((hstep.answers.1 _ onDelta_bindOrigin).mp htrue)
    · rintro _ s rfl
      refine .bind (Q := fun _ _ => True) (.context ?_) fun _ _ _ => ensures_copyToOrigin
      exact ⟨by simp [bindOp], fun _ _ _ _ _ => trivial⟩
  · exact .context ⟨fun _ => ht, fun _ _ _ _ _ => trivial⟩

/-- **One boot** that finds the directory of a copy, wherever it stops. -/
theorem same_of_hasOrigin (hdir : dir ∈ specialDirs)
    (hpath : Prog.Path (overlayStage debug overlaid) es rest)
    (hsteps : Steps (Delta.Step lower) s es s') (hs : HasOrigin dir s) : Same dir s s' := by
  have hsafe : (overlayStage debug overlaid).Ensures (Delta.Step lower)
      (fun _ op => Spares lower dir op) (fun _ _ => True) s :=
    ensures_overlayStage hdir (keep_of_elsewhere Same.keep_hasOrigin) (fun _ _ hop => hop.1)
      (fun s hs => ensures_setupMountBind_found hs) hs
  refine Safe.invariant (I := Same dir s) hsafe ?_ hpath hsteps fun _ => rfl
  intro t op r t' hspares ht hstep rest
  exact (hspares t r t' hstep rest).trans (ht rest)

/-- **One boot** that finds no directory, when it mounts the copy. -/
theorem whole_of_not_hasOrigin {e : MountCall} (hdir : dir ∈ specialDirs)
    (hpath : Prog.Path (overlayStage debug overlaid) (before ++ e :: after) rest)
    (hsteps : Steps (Delta.Step lower) s before t) (hs : ¬HasOrigin dir s) (he : e.op = bindOp dir) :
    Whole lower dir t.files ∅ := by
  have hsafe : (overlayStage debug overlaid).Ensures (Delta.Step lower)
      (fun t op => op = bindOp dir → Whole lower dir t.files ∅) (fun _ _ => True) s :=
    ensures_overlayStage hdir (keep_of_elsewhere Same.keep_not_hasOrigin)
      (fun _ _ hop heq => absurd heq hop.2) (fun s hs => ensures_setupMountBind_new hs) hs
  exact hsafe.at_call hpath hsteps he

/-! ## A boot that comes to the mount -/

/-- The mount is called, whether it succeeds or not. -/
def Mounts (dir : Path) (es : List MountCall) : Prop := ∃ e ∈ es, e.op = bindOp dir

theorem not_mounts_of_record {past past' : List MountCall} {op : MountOp} {r : op.Res}
    (hop : op ≠ bindOp dir) (hpast : ¬Mounts dir past) (hstep : record past op r past') :
    ¬Mounts dir past' := by
  rintro ⟨e, he, heq⟩
  rw [hstep] at he
  rcases List.mem_append.mp he with he | he
  · exact hpast ⟨e, he, heq⟩
  · rw [List.mem_singleton.mp he] at heq
    exact hop heq

/-- The mount is the last call for a directory. -/
theorem ensures_setupMountBind_once {past : List MountCall} (hpast : ¬Mounts dir past) :
    (setupMountBind debug diskOverlay dir).Ensures record
      (fun past op => Mounts dir past → Spares lower dir op) (fun _ _ => True) past := by
  have htarget : (prepareTarget debug (bindTarget dir)).Calls (· ≠ bindOp dir) :=
    calls_prepareTarget (by simp [bindOp]) (by simp [bindOp]) (by simp [bindOp])
  have horigin : (prepareOrigin debug (copySource dir) (bindOrigin diskOverlay dir)).Calls
      (· ≠ bindOp dir) := by
    apply calls_prepareOrigin
    constructor <;> simp [bindOp]
  refine .bind (htarget.ensures (fun _ _ _ _ => not_mounts_of_record)
    (fun _ _ _ hnot hmounts => absurd hmounts hnot) hpast) fun _ past hpast => ?_
  refine .bind (horigin.ensures (fun _ _ _ _ => not_mounts_of_record)
    (fun _ _ _ hnot hmounts => absurd hmounts hnot) hpast) fun _ past hpast => ?_
  exact .context ⟨fun _ => spares_mount, fun _ _ _ _ _ => trivial⟩

theorem spares_after_mount {e : MountCall} (hdir : dir ∈ specialDirs)
    (hpath : Prog.Path (overlayStage debug overlaid) (before ++ e :: after) rest)
    (he : e.op = bindOp dir) : ∀ e' ∈ after, Spares lower dir e'.op := by
  have hsafe : (overlayStage debug overlaid).Ensures record
      (fun past op => Mounts dir past → Spares lower dir op) (fun _ _ => True) [] :=
    ensures_overlayStage hdir (fun _ _ _ _ hop => not_mounts_of_record hop.2)
      (fun _ _ hop _ => hop.1) (fun past hpast => ensures_setupMountBind_once hpast)
      (by simp [Mounts])
  intro e' he'
  obtain ⟨pre, post, rfl⟩ := List.append_of_mem he'
  exact (hsafe.trace hpath).2 (before ++ e :: pre) e' post (by simp) ⟨e, by simp, he⟩

theorem Same.whole_iff {touched : Set Place} (h : Same dir s s') :
    Whole lower dir s'.files touched ↔ Whole lower dir s.files touched := by
  refine forall₅_congr fun tree htree rest node hrest => forall_congr' fun hnode => ?_
  rw [h rest]

/-- **One boot** that finds no directory and comes to the mount, wherever it stops. -/
theorem whole_of_mounts (hdir : dir ∈ specialDirs)
    (hpath : Prog.Path (overlayStage debug overlaid) es rest)
    (hsteps : Steps (Delta.Step lower) s es s') (hs : ¬HasOrigin dir s) (hmounts : Mounts dir es) :
    Whole lower dir s'.files ∅ := by
  obtain ⟨e, he, heq⟩ := hmounts
  obtain ⟨before, after, rfl⟩ := List.append_of_mem he
  obtain ⟨t, hbefore, hafter⟩ := steps_append.mp hsteps
  have hwhole : Whole lower dir t.files ∅ := whole_of_not_hasOrigin hdir hpath hbefore hs heq
  have hspares : ∀ e' ∈ e :: after, Spares lower dir e'.op := by
    rw [List.forall_mem_cons, heq]
    exact ⟨spares_mount, spares_after_mount hdir hpath heq⟩
  have hsame : Same dir t s' := by
    refine hafter.invariant (I := Same dir t) (fun _ => rfl) fun e' he' u u' hu hstep place => ?_
    exact (hspares e' he' u e'.res u' hstep place).trans (hu place)
  exact hsame.whole_iff.mpr hwhole

end

end CryptPilot.Volume.MountBinds
