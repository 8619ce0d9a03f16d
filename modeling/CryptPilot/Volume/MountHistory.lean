import CryptPilot.Data.History
import CryptPilot.Volume.MountBinds

/-!
# The copies on the delta volume, over many boots

Boots one after the other, each of which can stop anywhere. Between two of them the systems have
changed some files through the mounts, or the volume was made anew.

A boot finds a copy as the boot left it that made the directory, but for what the systems changed in
between (`whole_iff_maker`). So what is mounted is complete exactly if that boot had copied everything
when it stopped (`mounted_iff`). It had if it came to the mount itself (`whole_of_maker_mounts`). But
it need not have: in the last section one stops after it has made the directory, and the next one
mounts an empty copy (`mounted_torn`).
-/

namespace CryptPilot.Volume.MountBinds

open CryptPilot.Data CryptPilot.Data.Prog CryptPilot.Core CryptPilot.Fde

variable {τ : Type}

/-! ## Between two boots -/

namespace Delta

/-- A place that can be changed through one of the mounts. -/
def Reaches (s : Delta τ) (place : Place) : Prop :=
  ∃ dir ∈ specialDirs, originPlace dir ∈ s.bound ∧ ∃ rest, rest ≠ [] ∧ place = originPlace dir ++ rest

/-- There is nothing of an overlay on the volume yet. -/
def Fresh (s : Delta τ) : Prop := ∀ place, ["overlay"] <+: place → s.files place = none

/-- The system runs, and the next boot comes to this stage. In between the system has written to the
layers of the overlay and through the mounts, or the volume was made anew. -/
structure Reboot (s s' : Delta τ) : Prop where
  bound : s'.bound = []
  touched : s.touched ⊆ s'.touched
  through : ∀ place ∈ s'.touched, place ∈ s.touched ∨ s.Reaches place
  files : s'.Fresh ∨ ∀ place, s'.files place = s.files place ∨ InLayers place ∨
    s.Reaches place ∧ place ∈ s'.touched

/-- Before the first boot. -/
structure Initial (s : Delta τ) : Prop where
  fresh : s.Fresh
  bound : s.bound = []
  touched : s.touched = ∅

end Delta

abbrev OverlayBoot (τ : Type) := Episode MountOp MountOp.Res Unit Overlaid (Delta τ)

/-! ## All boots -/

section
variable {lower : Place → Lower τ} {debug : String → String} {dir : Path}
  {earlier between : List (OverlayBoot τ)} {maker boot : OverlayBoot τ} {s s' t : Delta τ}
  {before after es : List MountCall}

theorem steps_touched (h : Steps (Delta.Step lower) s es s') : s'.touched = s.touched :=
  h.invariant (I := fun t => t.touched = s.touched) rfl fun _ _ _ _ ht hstep => hstep.touched.trans ht

/-- A copy has not changed, but for what was touched. -/
structure Kept (dir : Path) (s s' : Delta τ) : Prop where
  touched : s.touched ⊆ s'.touched
  files : ∀ rest, s'.files (originPlace dir ++ rest) = s.files (originPlace dir ++ rest) ∨
    originPlace dir ++ rest ∈ s'.touched

theorem Kept.trans {s'' : Delta τ} (h : Kept dir s s') (h' : Kept dir s' s'') : Kept dir s s'' where
  touched := h.touched.trans h'.touched
  files := by
    intro rest
    rcases h'.files rest with heq' | htouched
    · rcases h.files rest with heq | htouched
      · exact .inl (heq'.trans heq)
      · exact .inr (h'.touched htouched)
    · exact .inr htouched

theorem Kept.whole_iff (h : Kept dir s s') :
    Whole lower dir s'.files s'.touched ↔ Whole lower dir s.files s'.touched := by
  refine forall₅_congr fun tree htree rest node hrest => forall_congr' fun hnode => ?_
  rcases h.files rest with heq | htouched
  · rw [heq]
  · simp [htouched]

theorem kept_of_steps (hsame : Same dir s s') (hsteps : Steps (Delta.Step lower) s es s') :
    Kept dir s s' where
  touched := (steps_touched hsteps).ge
  files rest := .inl (hsame rest)

theorem Delta.Fresh.not_hasOrigin (h : s.Fresh) : ¬HasOrigin dir s :=
  fun hs => hs (h _ ⟨"mount-binds" :: placeOf dir, rfl⟩)

/-- Between two boots, if the volume is not made anew. -/
theorem Delta.Reboot.kept (h : s.Reboot s') (hs' : HasOrigin dir s') : Kept dir s s' where
  touched := h.touched
  files := by
    intro rest
    rcases h.files with hfresh | hfiles
    · exact absurd hs' hfresh.not_hasOrigin
    · rcases hfiles (originPlace dir ++ rest) with heq | hlayers | ⟨-, htouched⟩
      · exact .inl heq
      · exact absurd hlayers not_inLayers
      · exact .inr htouched

/-- The boots after the one that made the directory have not changed the copy, and the last one
mounts what it finds. -/
theorem whole_iff_maker (hdir : dir ∈ specialDirs)
    (h : IsHistory (overlayStage debug) (Delta.Step lower) Delta.Reboot Delta.Initial
      (earlier ++ maker :: (between ++ [boot])))
    (hstart : ∀ b ∈ between ++ [boot], HasOrigin dir b.start)
    (hevents : boot.events = before ++ after) (ht : Steps (Delta.Step lower) boot.start before t) :
    Whole lower dir t.files t.touched ↔ Whole lower dir maker.stop.files t.touched := by
  have hcarried : Kept dir maker.stop boot.start := by
    refine IsHistory.carried (p := HasOrigin dir) (fun s s' s'' => Kept.trans)
      (fun s s' => Delta.Reboot.kept) (fun e he hs => ?_) hstart ?_
    · have hmem : e ∈ earlier ++ maker :: (between ++ [boot]) := by simp [he]
      exact kept_of_steps (same_of_hasOrigin hdir (h.path e hmem) (h.steps e hmem) hs)
        (h.steps e hmem)
    · exact h.chain.right_of_append
  -- the last boot has only come to the mount
  have hmem : boot ∈ earlier ++ maker :: (between ++ [boot]) := by simp
  have hpath := h.path boot hmem
  rw [hevents] at hpath
  obtain ⟨_, hbefore, -⟩ := hpath.split
  have hsame := same_of_hasOrigin hdir hbefore ht (hstart boot (by simp))
  exact (hcarried.trans (kept_of_steps hsame ht)).whole_iff

theorem Whole.mono {files : Place → Option (Node τ)} {touched touched' : Set Place}
    (h : Whole lower dir files touched) (hsub : touched ⊆ touched') : Whole lower dir files touched' :=
  fun tree htree rest node hrest hnode => (h tree htree rest node hrest hnode).imp_right (@hsub _)

/-- A boot mounts a whole copy if the boot that made the directory left one. -/
theorem whole_of_maker (hdir : dir ∈ specialDirs)
    (h : IsHistory (overlayStage debug) (Delta.Step lower) Delta.Reboot Delta.Initial
      (earlier ++ [boot]))
    (hevents : boot.events = before ++ bindDone dir :: after)
    (ht : Steps (Delta.Step lower) boot.start before t)
    (hmaker : ∀ pre maker between, earlier = pre ++ maker :: between → ¬HasOrigin dir maker.start →
      (∀ b ∈ between ++ [boot], HasOrigin dir b.start) →
      Whole lower dir maker.stop.files t.touched) :
    Whole lower dir t.files t.touched := by
  by_cases hs : HasOrigin dir boot.start
  · -- the directory is from an earlier boot
    obtain ⟨pre, maker, between, rfl, hnew, hstart⟩ :=
      h.exists_last_without (fun s hs => hs.fresh.not_hasOrigin) hs
    have hstart : ∀ b ∈ between ++ [boot], HasOrigin dir b.start :=
      List.forall_mem_append.mpr ⟨hstart, by simpa using hs⟩
    rw [List.append_assoc, List.cons_append] at h
    exact (whole_iff_maker hdir h hstart hevents ht).mpr (hmaker pre maker between rfl hnew hstart)
  · -- this boot makes it, so it has copied everything before it comes to the mount
    have hpath := h.path boot (by simp)
    rw [hevents] at hpath
    exact (whole_of_not_hasOrigin hdir hpath ht hs rfl).mono (Set.empty_subset _)

/-- **What is mounted** has all files of the directory, but for those that were touched, exactly if
the boot that made the directory had copied them when it stopped. -/
theorem mounted_iff (hdir : dir ∈ specialDirs)
    (h : IsHistory (overlayStage debug) (Delta.Step lower) Delta.Reboot Delta.Initial
      (earlier ++ [boot]))
    (hevents : boot.events = before ++ bindDone dir :: after)
    (ht : Steps (Delta.Step lower) boot.start before t) :
    Whole lower dir t.files t.touched ↔
      ∀ pre maker between, earlier = pre ++ maker :: between → ¬HasOrigin dir maker.start →
        (∀ b ∈ between ++ [boot], HasOrigin dir b.start) →
        Whole lower dir maker.stop.files t.touched := by
  constructor
  · rintro hwhole pre maker between rfl - hstart
    rw [List.append_assoc, List.cons_append] at h
    exact (whole_iff_maker hdir h hstart hevents ht).mp hwhole
  · exact whole_of_maker hdir h hevents ht

/-- The directory itself is not changed through a mount. -/
theorem not_reaches_originPlace (hdir : dir ∈ specialDirs) : ¬s.Reaches (originPlace dir) := by
  rintro ⟨dir', hdir', -, rest, hrest, heq⟩
  by_cases hne : dir' = dir
  · subst hne
    exact hrest (List.self_eq_append_right.mp heq)
  · exact (apart_originPlace hdir hdir' hne).2 ⟨rest, heq.symm⟩

theorem Delta.Reboot.hasOrigin (hdir : dir ∈ specialDirs) (h : s.Reboot s') (hs' : HasOrigin dir s') :
    HasOrigin dir s := by
  rcases h.files with hfresh | hfiles
  · exact absurd hs' hfresh.not_hasOrigin
  · rcases hfiles (originPlace dir) with heq | hlayers | ⟨hreaches, -⟩
    · rwa [HasOrigin, ← heq]
    · rw [← List.append_nil (originPlace dir)] at hlayers
      exact absurd hlayers not_inLayers
    · exact absurd hreaches (not_reaches_originPlace hdir)

/-- It had, if it came to the mount itself. -/
theorem whole_of_maker_mounts (hdir : dir ∈ specialDirs)
    (h : IsHistory (overlayStage debug) (Delta.Step lower) Delta.Reboot Delta.Initial
      (earlier ++ [boot]))
    (hevents : boot.events = before ++ bindDone dir :: after)
    (ht : Steps (Delta.Step lower) boot.start before t)
    (hmounts : ∀ b ∈ earlier, ¬HasOrigin dir b.start → HasOrigin dir b.stop → Mounts dir b.events) :
    Whole lower dir t.files t.touched := by
  refine whole_of_maker hdir h hevents ht ?_
  rintro pre maker between rfl hnew hstart
  rw [List.append_assoc, List.cons_append] at h
  have hmem : maker ∈ pre ++ maker :: (between ++ [boot]) := by simp
  have hstop : HasOrigin dir maker.stop := by
    have hchain := h.chain.right_of_append
    cases hnext : between ++ [boot] with
    | nil => simp at hnext
    | cons next later =>
      rw [hnext] at hchain hstart
      exact (List.isChain_cons_cons.mp hchain).1.hasOrigin hdir (hstart next List.mem_cons_self)
  have hmaker := whole_of_mounts hdir (h.path maker hmem) (h.steps maker hmem) hnew
    (hmounts maker (by simp) hnew hstop)
  exact hmaker.mono (Set.empty_subset _)

end

/-! ## A boot that stops before the copy -/

/-- A volume with nothing but directories. -/
structure Layout where
  dirs : List Place
  bound : List Place
  deriving DecidableEq

namespace Layout

variable {lower : Place → Lower τ} {l l' : Layout} {op : MountOp}

def Has (l : Layout) (place : Place) : Prop := ∃ dir ∈ l.dirs, place <+: dir

instance (l : Layout) (place : Place) : Decidable (l.Has place) :=
  inferInstanceAs (Decidable (∃ dir ∈ l.dirs, place <+: dir))

def delta (l : Layout) : Delta τ where
  files place := if l.Has place then some .dir else none
  bound := l.bound
  touched := ∅

/-- What an operation makes of it, if it answers like this and there is nothing to be copied. -/
def next (l : Layout) : (op : MountOp) → op.Res → Option Layout
  | .readMtab, _ => some l
  | .createDirAll path, (.ok _ : Except String Unit) =>
    some { l with dirs := (onDelta path).toList ∪ l.dirs }
  | .mount (.bind source _ _), (.ok _ : Except String Unit) =>
    some { l with bound := (onDelta source).toList ++ l.bound }
  | .mount _, _ => some l
  | .pathExists path, (r : Bool) =>
    if onLower path = none ∧ ∀ place ∈ onDelta path, r = decide (l.Has place) then some l else none
  | .isDir path, (r : Bool) =>
    if ∀ place ∈ onDelta path, r = decide (l.Has place) then some l else none
  | _, _ => none

theorem files_ne_none_iff {place : Place} :
    (l.delta : Delta τ).files place ≠ none ↔ l.Has place := by
  simp [delta]

theorem files_eq_dir_iff {place : Place} :
    (l.delta : Delta τ).files place = some .dir ↔ l.Has place := by
  simp [delta]

/-- An operation that changes nothing. -/
theorem step_self {r : op.Res} (hanswers : Delta.Answers lower l.delta l.delta op r)
    (hbound : (l.delta : Delta τ).boundAfter op r = l.bound) :
    Delta.Step lower l.delta op r l.delta where
  files _ := .inl rfl
  answers := hanswers
  bound := hbound.symm
  touched := rfl

theorem has_union_iff {dirs : List Place} {place : Place} :
    Has { l with dirs := dirs ∪ l.dirs } place ↔ (∃ dir ∈ dirs, place <+: dir) ∨ l.Has place := by
  simp only [Has, List.mem_union_iff, or_and_right, exists_or]

theorem step_createDirAll {path : Path} {dirs : List Place} (hdirs : (onDelta path).toList = dirs) :
    Delta.Step lower l.delta (.createDirAll path) (.ok () : Except String Unit)
      (delta { l with dirs := dirs ∪ l.dirs }) where
  files := by
    intro place
    subst hdirs
    by_cases hhas : l.Has place
    · simp [delta, has_union_iff, hhas]
    · by_cases hnew : ∃ dir ∈ (onDelta path).toList, place <+: dir
      · obtain ⟨dir, hdir, hplace⟩ := hnew
        refine .inr (.inr ⟨dir, by simpa using hdir, hplace, by simp [delta, hhas], ?_⟩)
        exact files_eq_dir_iff.mpr (has_union_iff.mpr (.inl ⟨dir, hdir, hplace⟩))
      · have hnone : ¬Has { l with dirs := (onDelta path).toList ∪ l.dirs } place :=
          has_union_iff.not.mpr (not_or.mpr ⟨hnew, hhas⟩)
        exact .inl ((if_neg hnone).trans (if_neg hhas).symm)
  answers := by
    rintro - dir hdir place hplace
    have hmem : dir ∈ dirs := by simp [← hdirs, hdir]
    exact files_eq_dir_iff.mpr (has_union_iff.mpr (.inl ⟨dir, hmem, hplace⟩))
  bound := rfl
  touched := rfl

theorem step_bind {source dir : Path} {makePrivate : Bool} {bound : List Place}
    (hbound : (onDelta source).toList = bound) :
    Delta.Step lower l.delta (.mount (.bind source dir makePrivate)) (.ok () : Except String Unit)
      (delta { l with bound := bound ++ l.bound }) where
  files _ := .inl rfl
  answers := trivial
  bound := by
    rw [← hbound]
    rfl
  touched := rfl

theorem step_of_next {r : op.Res} (h : l.next op r = some l') :
    Delta.Step lower l.delta op r l'.delta := by
  cases op with
  | readMtab =>
    cases h
    exact step_self trivial rfl
  | createDirAll path =>
    rcases r with e | ⟨⟩
    · cases h
    · cases h
      exact step_createDirAll rfl
  | mount mount =>
    cases mount with
    | bind source dir makePrivate =>
      rcases r with e | ⟨⟩
      · cases h
        exact step_self trivial rfl
      · cases h
        exact step_bind rfl
    | device => cases h; exact step_self trivial rfl
    | tmpfs => cases h; exact step_self trivial rfl
    | overlay => cases h; exact step_self trivial rfl
  | pathExists path =>
    obtain ⟨⟨hlower, hdelta⟩, hl⟩ := Option.ite_none_right_eq_some.mp h
    cases hl
    refine step_self ⟨fun place hplace => ?_, fun place hplace => ?_⟩ rfl
    · rw [files_ne_none_iff, hdelta place hplace]
      exact decide_eq_true_iff
    · rw [hlower] at hplace
      cases hplace
  | isDir path =>
    obtain ⟨hdelta, hl⟩ := Option.ite_none_right_eq_some.mp h
    cases hl
    refine step_self (fun place hplace => ?_) rfl
    rw [files_eq_dir_iff, hdelta place hplace]
    exact decide_eq_true_iff
  | copyAll source path => cases h
  | removeDirAll path => cases h

theorem next_pathExists {path : Path} {present : Bool} (hlower : onLower path = none)
    (hdelta : ∀ place ∈ onDelta path, present = decide (l.Has place)) :
    l.next (.pathExists path) present = some l :=
  if_pos ⟨hlower, hdelta⟩

theorem next_isDir {path : Path} {found : Bool}
    (hdelta : ∀ place ∈ onDelta path, found = decide (l.Has place)) :
    l.next (.isDir path) found = some l :=
  if_pos hdelta

theorem steps_of_next {calls : List MountCall}
    (h : calls.foldlM (fun l call => l.next call.op call.res) l = some l') :
    Steps (Delta.Step lower) l.delta calls l'.delta := by
  induction calls generalizing l with
  | nil =>
    cases h
    exact .nil _
  | cons call calls ih =>
    rw [List.foldlM_cons] at h
    obtain ⟨l₁, hnext, hrest⟩ := Option.bind_eq_some_iff.mp h
    exact .cons (step_of_next hnext) (ih hrest)

end Layout

def snapshots : Path := "/var/lib/containerd/io.containerd.snapshotter.v1.overlayfs/snapshots/"

/-- The directory has one file. -/
def snapshotsTree : FileTree Unit := .ofEntries [(["metadata"], .file [1])] (by decide)

def snapshotsLower (place : Place) : Lower Unit :=
  if place = placeOf snapshots then .dir snapshotsTree else .absent

def persistent : Overlaid where
  config := ⟨⟨some .diskPersist, some .overlayfs, none⟩, ⟨false, ⟨.otp⟩⟩⟩
  backend := rfl
  location := rfl

/-- The stage up to the special directories. -/
def mountCalls : List MountCall :=
  [⟨.readMtab, Except.ok (rootfsDevice ++ " /sysroot ext4 ro 0 0")⟩,
    ⟨.createDirAll deltaVolumeDir, Except.ok ()⟩,
    ⟨.mount (.device deltaDevice deltaVolumeDir), Except.ok ()⟩,
    ⟨.createDirAll sysrootBak, Except.ok ()⟩,
    ⟨.mount (.bind "/sysroot" sysrootBak true), Except.ok ()⟩,
    ⟨.createDirAll "/delta_volume/overlay/upper", Except.ok ()⟩,
    ⟨.createDirAll "/delta_volume/overlay/work", Except.ok ()⟩,
    ⟨.mount (.overlay rootfsDevice "/sysroot" "/delta_volume/overlay/upper"
      "/delta_volume/overlay/work" "/sysroot"), Except.ok ()⟩]

/-- The directory for the copy is made. -/
def makeCalls (dir : Path) : List MountCall :=
  [⟨.pathExists (bindTarget dir), true⟩, ⟨.isDir (bindTarget dir), true⟩,
    ⟨.pathExists (bindOrigin diskOverlay dir), false⟩,
    ⟨.createDirAll (bindOrigin diskOverlay dir), Except.ok ()⟩]

/-- The directory is there, and is taken for a copy. -/
def findCalls (dir : Path) : List MountCall :=
  [⟨.pathExists (bindTarget dir), true⟩, ⟨.isDir (bindTarget dir), true⟩,
    ⟨.pathExists (bindOrigin diskOverlay dir), true⟩,
    ⟨.isDir (bindOrigin diskOverlay dir), true⟩]

section
variable {lower : Place → Lower τ} {dir : Path} {l : Layout}

theorem has_of_target {answer : Bool} :
    ∀ place ∈ onDelta (bindTarget dir), answer = decide (l.Has place) := by
  rw [onDelta_bindTarget]
  simp

theorem steps_makeCalls (h : ¬l.Has (originPlace dir)) :
    Steps (Delta.Step lower) l.delta (makeCalls dir)
      (Layout.delta { l with dirs := [originPlace dir] ∪ l.dirs }) := by
  refine .cons (Layout.step_of_next (Layout.next_pathExists onLower_bindTarget has_of_target)) ?_
  refine .cons (Layout.step_of_next (Layout.next_isDir has_of_target)) ?_
  refine .cons (Layout.step_of_next (Layout.next_pathExists onLower_bindOrigin ?_)) ?_
  · simp [onDelta_bindOrigin, h]
  · exact .cons (Layout.step_createDirAll (by rw [onDelta_bindOrigin]; rfl)) (.nil _)

theorem steps_findCalls (h : l.Has (originPlace dir)) :
    Steps (Delta.Step lower) l.delta (findCalls dir) l.delta := by
  refine .cons (Layout.step_of_next (Layout.next_pathExists onLower_bindTarget has_of_target)) ?_
  refine .cons (Layout.step_of_next (Layout.next_isDir has_of_target)) ?_
  refine .cons (Layout.step_of_next (Layout.next_pathExists onLower_bindOrigin ?_)) ?_
  · simp [onDelta_bindOrigin, h]
  · refine .cons (Layout.step_of_next (Layout.next_isDir ?_)) (.nil _)
    simp [onDelta_bindOrigin, h]

end

def emptyLayout : Layout := ⟨[[]], []⟩

/-- What a boot leaves that stops after it has made the directory. -/
def tornLayout : Layout :=
  ⟨[originPlace snapshots, ["overlay", "work"], ["overlay", "upper"], []], []⟩

def makerBoot (rest : MountCmd Unit) : OverlayBoot Unit :=
  ⟨⟨persistent, mountCalls ++ makeCalls snapshots, rest⟩, emptyLayout.delta, tornLayout.delta⟩

def foundBoot (rest : MountCmd Unit) : OverlayBoot Unit :=
  ⟨⟨persistent, mountCalls ++ findCalls snapshots ++ [bindDone snapshots], rest⟩, tornLayout.delta,
    Layout.delta { tornLayout with bound := [originPlace snapshots] }⟩

theorem steps_makerBoot : Steps (Delta.Step snapshotsLower) emptyLayout.delta
    (mountCalls ++ makeCalls snapshots) tornLayout.delta := by
  have hmount : mountCalls.foldlM (fun l call => l.next call.op call.res) emptyLayout =
      some { tornLayout with dirs := tornLayout.dirs.tail } := by
    decide +kernel
  exact steps_append.mpr ⟨_, Layout.steps_of_next hmount, steps_makeCalls (by decide +kernel)⟩

theorem steps_foundBoot : Steps (Delta.Step snapshotsLower) tornLayout.delta
    (mountCalls ++ findCalls snapshots) tornLayout.delta := by
  have hmount : mountCalls.foldlM (fun l call => l.next call.op call.res) tornLayout =
      some tornLayout := by
    decide +kernel
  have hhas : tornLayout.Has (originPlace snapshots) := ⟨_, List.mem_cons_self, List.prefix_rfl⟩
  exact steps_append.mpr ⟨_, Layout.steps_of_next hmount, steps_findCalls hhas⟩

theorem initial_emptyLayout : (emptyLayout.delta : Delta Unit).Initial where
  fresh := by
    rintro _ ⟨rest, rfl⟩
    simp [Layout.delta, Layout.Has, emptyLayout]
  bound := rfl
  touched := rfl

theorem isHistory_torn : ∃ rest rest', IsHistory (overlayStage id) (Delta.Step snapshotsLower)
    Delta.Reboot Delta.Initial ([makerBoot rest] ++ [foundBoot rest']) := by
  have hmaker : ((overlayStage id persistent).after (mountCalls ++ makeCalls snapshots)).isSome := by
    decide +kernel
  have hfound : ((overlayStage id persistent).after
      (mountCalls ++ findCalls snapshots ++ [bindDone snapshots])).isSome := by
    decide +kernel
  obtain ⟨rest, hrest⟩ := Option.isSome_iff_exists.mp hmaker
  obtain ⟨rest', hrest'⟩ := Option.isSome_iff_exists.mp hfound
  refine ⟨rest, rest', ?_, ?_, ?_, ?_⟩
  · simp only [List.singleton_append, List.forall_mem_cons]
    exact ⟨path_of_after hrest, path_of_after hrest', fun _ h => by cases h⟩
  · simp only [List.singleton_append, List.forall_mem_cons]
    have hbound : (onDelta (bindOrigin diskOverlay snapshots)).toList = [originPlace snapshots] := by
      rw [onDelta_bindOrigin]
      rfl
    refine ⟨steps_makerBoot, steps_concat.mpr ⟨_, steps_foundBoot, ?_⟩, fun _ h => by cases h⟩
    exact Layout.step_bind hbound
  · rintro e ⟨⟩
    exact initial_emptyLayout
  · refine .cons_cons ⟨rfl, subset_rfl, fun _ => .inl, .inr fun _ => .inl rfl⟩ (.singleton _)

theorem mounted_iff_torn : ∃ rest rest', IsHistory (overlayStage id) (Delta.Step snapshotsLower)
      Delta.Reboot Delta.Initial ([makerBoot rest] ++ [foundBoot rest']) ∧
    (Whole snapshotsLower snapshots (tornLayout.delta : Delta Unit).files ∅ ↔
      ∀ pre maker between, [makerBoot rest] = pre ++ maker :: between →
        ¬HasOrigin snapshots maker.start →
        (∀ b ∈ between ++ [foundBoot rest'], HasOrigin snapshots b.start) →
        Whole snapshotsLower snapshots maker.stop.files ∅) := by
  obtain ⟨rest, rest', h⟩ := isHistory_torn
  exact ⟨rest, rest', h, mounted_iff (by decide) h rfl steps_foundBoot⟩

/-- The second boot mounts an empty directory, and no system has changed anything. -/
theorem mounted_torn : ∃ rest rest', IsHistory (overlayStage id) (Delta.Step snapshotsLower)
      Delta.Reboot Delta.Initial ([makerBoot rest] ++ [foundBoot rest']) ∧
    (foundBoot rest').events = mountCalls ++ findCalls snapshots ++ [bindDone snapshots] ∧
    Steps (Delta.Step snapshotsLower) (foundBoot rest').start (mountCalls ++ findCalls snapshots)
      tornLayout.delta ∧
    snapshotsLower (placeOf snapshots) = .dir snapshotsTree ∧
    snapshotsTree.node ["metadata"] = some (.file [1]) ∧
    (tornLayout.delta : Delta Unit).files (originPlace snapshots ++ ["metadata"]) = none ∧
    (tornLayout.delta : Delta Unit).touched = ∅ := by
  obtain ⟨rest, rest', h⟩ := isHistory_torn
  exact ⟨rest, rest', h, rfl, steps_foundBoot, if_pos rfl, rfl, by decide +kernel, rfl⟩

end CryptPilot.Volume.MountBinds
