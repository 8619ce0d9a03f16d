import CryptPilot.Crypt.InitRun

/-!
# The mapping of a volume

`open` sets up a mapping and may fail after that. Some of its error paths close the volume again and
others leave it open. What is left open matters to the next `open`, which finds a mapping and does
not look any further.

* `open_failed_iff`: when a failed `open` leaves no mapping.
* `checked_open_iff`: when an `open` with `--check-fs` that succeeds has found the file system, in
  any history of commands.
-/

namespace CryptPilot.Volume

open CryptPilot.Data CryptPilot.Data.Prog CryptPilot.Core CryptPilot.Crypt

/-- The mapping with the name of a volume: the device it is on, if it is active, and the answer of
the last `blkid` for it. -/
structure Mapping where
  device : Option Path
  probe : Option (Except String BlkidProbeResult)

namespace Mapping

/-- What an action does to the mapping. Activation happens or fails. -/
def act (volume : String) (s : Mapping) (action : Action) (r : Except String Unit) : Mapping :=
  match action with
  | .activateByPassphrase (some name) dev _ _ =>
    if name = volume ∧ r.isOk then ⟨some dev, none⟩ else s
  | .deactivate name => if name = volume ∧ r.isOk then ⟨none, none⟩ else s
  | _ => s

def next (volume : String) (s : Mapping) : (op : Op) → op.Res → Mapping
  | .act action, r => s.act volume action r
  | .blkid path, r =>
    if path = Disk.node volume ∧ s.device ≠ none then { s with probe := some r } else s
  | _, _ => s

/-- What is known of an answer: a mapping has a node, and its name has no slash. -/
def Answers (volume : String) (s : Mapping) : (op : Op) → op.Res → Prop
  | .pathExists path, r => path = Disk.node volume → (r = true ↔ s.device ≠ none)
  | .act (.activateByPassphrase (some name) _ _ _), r => r = Except.ok () → '/' ∉ name.toList
  | _, _ => True

def Step (volume : String) (s : Mapping) (op : Op) (r : op.Res) (s' : Mapping) : Prop :=
  s.Answers volume op r ∧ s' = s.next volume op r

theorem device_next_blkid (volume : String) (s : Mapping) (path : Path)
    (r : Except String BlkidProbeResult) : (s.next volume (.blkid path) r).device = s.device := by
  show (if _ then { s with probe := some r } else s).device = s.device
  split_ifs <;> rfl

end Mapping

/-- Operations that do not concern a mapping. -/
def Calm : Op → Prop
  | .act (.activateByPassphrase (some _) _ _ _) | .act (.deactivate _) | .blkid _ => False
  | _ => True

theorem Calm.next {op : Op} (h : Calm op) (volume : String) (s : Mapping) (r : op.Res) :
    s.next volume op r = s := by
  cases op with
  | act action =>
    show s.act volume action r = s
    unfold Mapping.act
    split
    · exact h.elim
    · exact h.elim
    · rfl
  | blkid path => exact h.elim
  | _ => rfl

section
variable {debug : String → String} {config : VolumeConfig} {dev : Path}
  {passphrase : Passphrase} {integrity : IntegrityType}

theorem calm_checkNotInUse : (checkNotInUse debug dev).Calls Calm :=
  .bind (calls_isDevInUse trivial) fun _ => calls_bailIf

theorem calm_format : (format debug dev passphrase integrity).Calls Calm :=
  .context (.bind (calls_act trivial) fun _ => .bind (calls_act trivial) fun _ =>
    calls_act trivial)

theorem calm_checkPassphrase : (checkPassphrase debug dev passphrase).Calls Calm :=
  .context (.bind (calls_act trivial) fun _ => .bind (calls_act trivial) fun _ =>
    calls_act trivial)

theorem calm_forceMkfs {path : Path} {fs : MakeFsType} :
    (forceMkfs debug path fs integrity).Calls Calm :=
  .context (calls_act trivial)

theorem calm_markVolumeAsInitialized : (markVolumeAsInitialized debug dev).Calls Calm :=
  .context (.bind (calls_act trivial) fun _ => .bind (calls_act trivial) fun _ =>
    calls_act trivial)

end

/-- The answers of `blkid` that are an error for `has_valuable_data`. -/
def unexpected (fsName : Option String) : Except String BlkidProbeResult → Bool
  | .error _ => true
  | .ok .noSignatures => false
  | .ok (.knownSignature fsType _ _) => fsType ≠ fsName

theorem safe_hasValuableData {σ : Type} {sem : σ → (op : Op) → op.Res → σ → Prop}
    {G : σ → Op → Prop} {Q : Except String Bool → σ → Prop} {s : σ} {debug : String → String}
    {device : Path} {fs : MakeFsType} (hG : G s (.blkid device))
    (hnone : ∀ s', sem s (.blkid device) (Except.ok BlkidProbeResult.noSignatures) s' →
      Q (.ok false) s')
    (hfound : ∀ ptType subsystem s', sem s (.blkid device)
      (Except.ok (BlkidProbeResult.knownSignature (some fs.name) ptType subsystem)) s' →
      Q (.ok true) s')
    (hother : ∀ r s', unexpected (some fs.name) r → sem s (.blkid device) r s' →
      ∀ e, Q (.error e) s') :
    (hasValuableData debug device (some fs)).Safe sem G Q s := by
  refine safe_andThen.mpr (safe_andThen.mpr ⟨hG, fun r s' hs' => ?_⟩)
  rcases r with e | _ | ⟨fsType, ptType, subsystem⟩
  · exact hother _ s' rfl hs' _
  · exact hnone s' hs'
  · show Safe sem G Q (if fsType = some fs.name then pure true else fail _) s'
    split_ifs with h
    · subst h
      exact hfound _ _ s' hs'
    · exact hother (Except.ok (.knownSignature fsType ptType subsystem)) s' (decide_eq_true h) hs' _

/-! ## Failures -/

/-- How far a run got: before the activation of the volume, after it, or past a step after it that
makes the command fail and leave. -/
inductive Phase where
  | closed
  | opened
  | stuck
  deriving DecidableEq

/-- The volume is activated. -/
def activates (volume : String) : (op : Op) → op.Res → Bool
  | .act (.activateByPassphrase (some name) _ _ _), r => name = volume && Except.isOk r
  | _, _ => false

/-- A step of marking the volume fails; or `blkid` fails, or finds something else than nothing or the
file system of the volume. -/
def breaks (config : VolumeConfig) : (op : Op) → op.Res → Bool
  | .act (.cryptInit _), r | .act (.cryptLoad _), r | .act (.setLabel ..), r => !Except.isOk r
  | .blkid _, r => unexpected (config.extraConfig.makefs.map MakeFsType.name) r
  | _, _ => false

def Phase.next (config : VolumeConfig) (phase : Phase) (op : Op) (r : op.Res) : Phase :=
  match phase with
  | .closed => if activates config.volume op r then .opened else .closed
  | .opened => if breaks config op r then .stuck else .opened
  | .stuck => .stuck

/-- The phase that a run gets to. -/
def phaseOf (config : VolumeConfig) (es : List Call) : Phase :=
  es.foldl (fun phase e => phase.next config e.op e.res) .closed

/-- `luks2::close` succeeds when it is called. -/
def CloseSucceeds : (op : Op) → op.Res → Prop
  | .act (.initByName _), r | .act (.deactivate _), r => r = Except.ok ()
  | _, _ => True

/-- One operation, with the phase. -/
def Watched (config : VolumeConfig) (st : Mapping × Phase) (op : Op) (r : op.Res)
    (st' : Mapping × Phase) : Prop :=
  st.1.Step config.volume op r st'.1 ∧ CloseSucceeds op r ∧ st'.2 = st.2.next config op r

theorem steps_watched {config : VolumeConfig} {s s' : Mapping} {es : List Call}
    (h : Steps (Mapping.Step config.volume) s es s')
    (hclose : ∀ e ∈ es, CloseSucceeds e.op e.res) (phase : Phase) :
    Steps (Watched config) (s, phase) es
      (s', es.foldl (fun phase e => phase.next config e.op e.res) phase) := by
  induction h generalizing phase with
  | nil s => exact .nil _
  | cons hstep _ ih =>
    exact .cons ⟨hstep, hclose _ List.mem_cons_self, rfl⟩
      (ih (fun e he => hclose e (List.mem_cons_of_mem _ he)) _)

section
variable {α : Type} {debug : String → String} {config : VolumeConfig} {s : Mapping}
  {passphrase : Passphrase} {integrity : IntegrityType} {p : Cmd α}

/-- Up to the activation nothing happens to the mapping. -/
theorem safe_closed (h : p.Calls Calm) :
    p.Safe (Watched config) (fun _ _ => True) (fun _ st => st = (s, .closed)) (s, .closed) := by
  refine h.safe (fun st op r st' hcalm hst hstep => ?_) (fun _ _ _ _ => trivial) rfl
  obtain ⟨⟨_, hnext⟩, _, hphase⟩ := hstep
  subst hst
  rw [hcalm.next] at hnext
  have hidle : activates config.volume op r = false := by
    unfold activates
    split
    · exact hcalm.elim
    · rfl
  refine Prod.ext hnext (hphase.trans ?_)
  simp [Phase.next, hidle]

theorem safe_closed_bind {β : Type} {f : α → Cmd β} {R : Except String β → Mapping × Phase → Prop}
    (h : p.Calls Calm) (herror : ∀ e, R (.error e) (s, .closed))
    (hf : ∀ a, (f a).Safe (Watched config) (fun _ _ => True) R (s, .closed)) :
    (p >>= f).Safe (Watched config) (fun _ _ => True) R (s, .closed) := by
  refine .bind (safe_closed h) ?_ ?_
  · rintro a st rfl
    exact hf a
  · rintro e st rfl
    exact herror e

/-- An action after the activation that does not concern the mapping. -/
theorem safe_act_opened (action : Action) (hcalm : Calm (.act action))
    (phase : Except String Unit → Phase)
    (hphase : ∀ r, Phase.opened.next config (.act action) r = phase r) :
    (act action).Safe (Watched config) (fun _ _ => True) (fun r st => st = (s, phase r))
      (s, .opened) := by
  refine ⟨trivial, fun r st' hstep => ?_⟩
  obtain ⟨⟨_, hnext⟩, _, hphase'⟩ := hstep
  rw [hcalm.next] at hnext
  exact Prod.ext hnext (hphase'.trans (hphase r))

/-- Marking: a step that fails here leaves the mapping. -/
theorem safe_markVolumeAsInitialized :
    (markVolumeAsInitialized debug config.dev).Safe (Watched config) (fun _ _ => True)
      (fun r st => st = (s, if r.isOk then Phase.opened else .stuck)) (s, .opened) := by
  let Q {α : Type} (r : Except String α) (st : Mapping × Phase) : Prop :=
    st = (s, if r.isOk then Phase.opened else .stuck)
  have hstep : ∀ action, Calm (.act action) →
      (∀ r, Phase.opened.next config (.act action) r = if Except.isOk r then .opened else .stuck) →
      (act action).Safe (Watched config) (fun _ _ => True) Q (s, .opened) :=
    fun action hcalm hphase => safe_act_opened action hcalm _ hphase
  refine .context (Q := Q) ?_ fun r st hst => by cases r <;> exact hst
  refine .bind (hstep _ trivial fun r => by cases r <;> rfl) ?_ fun _ _ h => h
  rintro ⟨⟩ st rfl
  refine .bind (hstep _ trivial fun r => by cases r <;> rfl) ?_ fun _ _ h => h
  rintro ⟨⟩ st rfl
  exact hstep _ trivial fun r => by cases r <;> rfl

/-- Opening: the mapping is there exactly if it succeeds. -/
theorem safe_openWithCheckPassphrase :
    (openWithCheckPassphrase debug config.volume config.dev passphrase integrity).Safe
      (Watched config) (fun _ _ => True)
      (fun r st => st = if r.isOk then (⟨some config.dev, none⟩, Phase.opened) else (s, .closed))
      (s, .closed) := by
  refine safe_closed_bind (.context calm_checkPassphrase) (fun _ => rfl) fun _ => ?_
  refine .context (Q := fun r st => st =
    if r.isOk then (⟨some config.dev, none⟩, Phase.opened) else (s, .closed)) ?_
    fun r st hst => by cases r <;> exact hst
  refine safe_closed_bind (calls_act trivial) (fun _ => rfl) fun _ => ?_
  refine safe_closed_bind (calls_act trivial) (fun _ => rfl) fun _ => ?_
  refine ⟨trivial, fun r st' hstep => ?_⟩
  obtain ⟨⟨_, hnext⟩, _, hphase⟩ := hstep
  cases r with
  | error e =>
    have hphase' : Phase.closed.next config (.act (.activateByPassphrase (some config.volume)
        config.dev passphrase (integrity = .noJournal))) (Except.error e) = .closed := by
      simp [Phase.next, activates, Except.isOk, Except.toBool]
    exact Prod.ext (hnext.trans (if_neg fun h => Bool.false_ne_true h.2)) (hphase.trans hphase')
  | ok u =>
    have hphase' : Phase.closed.next config (.act (.activateByPassphrase (some config.volume)
        config.dev passphrase (integrity = .noJournal))) (Except.ok u) = .opened := by
      simp [Phase.next, activates, Except.isOk, Except.toBool]
    exact Prod.ext (hnext.trans (if_pos ⟨rfl, rfl⟩)) (hphase.trans hphase')

/-- Closing, after the activation. -/
theorem safe_close :
    (close config.volume).Safe (Watched config) (fun _ _ => True)
      (fun r st => r = .ok () ∧ st = (⟨none, none⟩, .opened)) (s, .opened) := by
  refine .context (Q := fun r st => r = .ok () ∧ st = (⟨none, none⟩, Phase.opened)) ?_ ?_
  · refine .bind (Q := fun r st => r = .ok () ∧ st = (s, Phase.opened)) ?_ ?_ ?_
    · refine ⟨trivial, fun r st' hstep => ?_⟩
      obtain ⟨⟨_, hnext⟩, hclose, hphase⟩ := hstep
      exact ⟨hclose, Prod.ext hnext hphase⟩
    · rintro ⟨⟩ st ⟨-, rfl⟩
      refine ⟨trivial, fun r st' hstep => ?_⟩
      obtain ⟨⟨_, hnext⟩, hclose, hphase⟩ := hstep
      cases hclose
      exact ⟨rfl, Prod.ext (hnext.trans (if_pos ⟨rfl, rfl⟩)) hphase⟩
    · rintro e st ⟨h, -⟩
      cases h
  · rintro r st ⟨rfl, hst⟩
    exact ⟨rfl, hst⟩

/-- Making the file system: if it fails, the volume is closed. -/
theorem safe_openFs :
    (openFs debug config integrity).Safe (Watched config) (fun _ _ => True)
      (fun r st => st = (if r.isOk then s else ⟨none, none⟩, Phase.opened)) (s, .opened) := by
  unfold openFs
  cases config.extraConfig.makefs with
  | none => exact rfl
  | some makefs =>
    refine safe_andThen.mpr (safe_andThen.mpr ?_)
    have hmkfs := @safe_act_opened config s (.mkfs config.volumePath makefs integrity) trivial
      (fun _ => .opened) fun _ => rfl
    refine .context hmkfs fun r st hst => ?_
    subst hst
    cases r with
    | ok u => exact rfl
    | error e =>
      refine .bind safe_close ?_ ?_
      · rintro ⟨⟩ st ⟨-, rfl⟩
        exact rfl
      · rintro e' st ⟨h, -⟩
        cases h

/-- The mapping is gone unless the run got stuck. -/
def Tidy (r : Except String Unit) (st : Mapping × Phase) : Prop :=
  r.isOk = false → (st.1.device = none ↔ st.2 ≠ .stuck)

theorem safe_checkFsReady {checkFs : Bool} (hs : s.device ≠ none) :
    (checkFsReady debug config checkFs).Safe (Watched config) (fun _ _ => True) Tidy
      (s, .opened) := by
  unfold checkFsReady
  split_ifs with hcheck
  · obtain ⟨fs, hfs⟩ : ∃ fs, config.extraConfig.makefs = some fs := by
      simp only [Bool.and_eq_true] at hcheck
      exact Option.isSome_iff_exists.mp hcheck.2
    rw [hfs]
    refine safe_andThen.mpr (safe_hasValuableData trivial ?_ ?_ ?_)
    · rintro ⟨s', phase⟩ ⟨_, _, hphase⟩
      obtain rfl : phase = .opened := hphase
      refine safe_andThen.mpr (safe_andThen.mpr (safe_close.post ?_))
      rintro r st ⟨-, rfl⟩ -
      exact iff_of_true rfl Phase.noConfusion
    · intro ptType subsystem st' _ h
      cases h
    · rintro r st' hr ⟨⟨_, hnext⟩, _, hphase⟩ e -
      have hdevice : st'.1.device ≠ none := by
        rw [hnext]
        rwa [Mapping.device_next_blkid]
      have hstuck : st'.2 = .stuck := by
        rw [hphase]
        show (if unexpected (config.extraConfig.makefs.map MakeFsType.name) r then _ else _) = _
        rw [hfs]
        exact if_pos hr
      exact iff_of_false hdevice (not_not_intro hstuck)
  · exact Bool.noConfusion

/-- Opening a volume of either type, before its file system is looked at. -/
def Opened (config : VolumeConfig) (r : Except String Unit) (st : Mapping × Phase) : Prop :=
  (r.isOk → st = (⟨some config.dev, none⟩, .opened)) ∧ Tidy r st

theorem opened_error {e : String} {st : Mapping × Phase} (h : Tidy (.error e) st) :
    Opened config (.error e) st :=
  ⟨Bool.noConfusion, h⟩

theorem opened_ok {st : Mapping × Phase} (h : st = (⟨some config.dev, none⟩, .opened)) :
    Opened config (.ok ()) st :=
  ⟨fun _ => h, Bool.noConfusion⟩

theorem tidy_closed {e : String} {st : Mapping × Phase} (hs : s.device = none)
    (h : st = (s, .closed)) : Tidy (.error e) st := by
  subst h
  exact fun _ => iff_of_true hs Phase.noConfusion

theorem safe_temporaryDiskOpen (hs : s.device = none) :
    (temporaryDiskOpen debug config).Safe (Watched config) (fun _ _ => True) (Opened config)
      (s, .closed) := by
  have herror (e : String) : Opened config (.error e) (s, .closed) :=
    opened_error (tidy_closed hs rfl)
  refine safe_closed_bind (.context (calls_getKey trivial)) herror fun passphrase => ?_
  refine safe_closed_bind calm_format herror fun _ => ?_
  refine .bind safe_openWithCheckPassphrase ?_ fun _ _ h => opened_error (tidy_closed hs h)
  rintro ⟨⟩ st rfl
  refine .bind safe_openFs ?_ ?_
  · rintro ⟨⟩ st rfl
    refine safe_markVolumeAsInitialized.post fun r st hst => ?_
    subst hst
    cases r with
    | ok u => exact opened_ok rfl
    | error e => exact opened_error fun _ => iff_of_false nofun (not_not_intro rfl)
  · rintro e st rfl
    exact opened_error fun _ => iff_of_true rfl Phase.noConfusion

theorem safe_persistentDiskOpen (hs : s.device = none) :
    (persistentDiskOpen debug config).Safe (Watched config) (fun _ _ => True) (Opened config)
      (s, .closed) := by
  have herror (e : String) : Opened config (.error e) (s, .closed) :=
    opened_error (tidy_closed hs rfl)
  refine safe_closed_bind (calls_isInitialized trivial) herror fun initialized => ?_
  refine safe_closed_bind calls_bailIf herror fun _ => ?_
  refine safe_closed_bind (.context (calls_getKey trivial)) herror fun passphrase => ?_
  refine safe_openWithCheckPassphrase.post fun r st hst => ?_
  cases r with
  | ok u => exact opened_ok hst
  | error e => exact opened_error (tidy_closed hs hst)

theorem safe_openForSpecificVolume {checkFs : Bool} (hs : s.device = none) :
    (openForSpecificVolume debug config checkFs).Safe (Watched config) (fun _ _ => True) Tidy
      (s, .closed) := by
  have herror (e : String) : Tidy (.error e) (s, .closed) := tidy_closed hs rfl
  refine safe_closed_bind (calls_pathExists trivial) herror fun active => ?_
  cases active with
  | true => exact Bool.noConfusion
  | false =>
    refine safe_closed_bind calm_checkNotInUse herror fun _ => ?_
    have hcheck : ∀ u st, Opened config (.ok u) st →
        (checkFsReady debug config checkFs).Safe (Watched config) (fun _ _ => True) Tidy st := by
      rintro ⟨⟩ st ⟨hst, -⟩
      rw [hst rfl]
      exact safe_checkFsReady nofun
    cases config.volumeType with
    | temporary => exact .bind (safe_temporaryDiskOpen hs) hcheck fun _ _ h => h.2
    | persistent => exact .bind (safe_persistentDiskOpen hs) hcheck fun _ _ h => h.2

end

/-- **A failed open.** No mapping is left, exactly if no step that `open` does not clean up after has
failed: the marking of a temporary volume, and a probe that fails or finds another file system. -/
theorem open_failed_iff (debug : String → String) (config : VolumeConfig) (checkFs : Bool)
    {s s' : Mapping} {es : List Call} {e : String} (hs : s.device = none)
    (hpath : Path (openForSpecificVolume debug config checkFs) es (.done (.error e)))
    (hsteps : Steps (Mapping.Step config.volume) s es s')
    (hclose : ∀ call ∈ es, CloseSucceeds call.op call.res) :
    s'.device = none ↔ phaseOf config es ≠ .stuck :=
  ((safe_openForSpecificVolume hs).path hpath (steps_watched hsteps hclose .closed)).1 rfl

/-! ### A volume with a file system -/

def homeConfig : VolumeConfig := { VolumeConfig.data with extraConfig := ⟨some .ext4, none⟩ }

/-- The volume is opened, up to the probe of its file system. -/
def openHomeCalls (probe : Except String BlkidProbeResult) : List Call :=
  [⟨.pathExists "/dev/mapper/data", false⟩, ⟨.openExclusive "/dev/sdb", ExclusiveOpen.opened⟩,
    ⟨.readHeader "/dev/sdb", Except.ok Header.readyMark⟩,
    ⟨.getKey homeConfig.encrypt.keyProvider, Except.ok [107]⟩,
    did (.cryptInit "/dev/sdb"), did (.cryptLoad "/dev/sdb"),
    did (.activateByPassphrase none "/dev/sdb" [107] false),
    did (.cryptInit "/dev/sdb"), did (.cryptLoad "/dev/sdb"),
    did (.activateByPassphrase (some "data") "/dev/sdb" [107] false),
    ⟨.blkid "/dev/mapper/data", probe⟩]

theorem steps_openHomeCalls (probe : Except String BlkidProbeResult) :
    Steps (Mapping.Step "data") ⟨none, none⟩ (openHomeCalls probe)
      ⟨some "/dev/sdb", some probe⟩ := by
  have hinactive : Mapping.Answers "data" ⟨none, none⟩ (.pathExists "/dev/mapper/data") false :=
    fun _ => iff_of_false Bool.noConfusion (not_not_intro rfl)
  have hname : '/' ∉ "data".toList := by decide
  exact .cons ⟨hinactive, rfl⟩ (.cons ⟨trivial, rfl⟩ (.cons ⟨trivial, rfl⟩ (.cons ⟨trivial, rfl⟩
    (.cons ⟨trivial, rfl⟩ (.cons ⟨trivial, rfl⟩ (.cons ⟨trivial, rfl⟩ (.cons ⟨trivial, rfl⟩
    (.cons ⟨trivial, rfl⟩ (.cons ⟨fun _ => hname, rfl⟩ (.cons ⟨trivial, rfl⟩ (.nil _)))))))))))

theorem closeSucceeds_openHomeCalls (probe : Except String BlkidProbeResult) :
    ∀ call ∈ openHomeCalls probe, CloseSucceeds call.op call.res := by
  simp [openHomeCalls, did, CloseSucceeds]

/-- Nothing is found, and the volume is closed again. -/
def closedHomeCalls : List Call :=
  openHomeCalls (.ok .noSignatures) ++ [did (.initByName "data"), did (.deactivate "data")]

theorem open_failed_iff_no_signatures :
    phaseOf homeConfig closedHomeCalls ≠ .stuck ∧
      ∃ s', Steps (Mapping.Step "data") ⟨none, none⟩ closedHomeCalls s' ∧ s'.device = none := by
  have hpath : Path (openForSpecificVolume id homeConfig true) closedHomeCalls (.done (.error
      ("The filesystem on /dev/mapper/data is not initialized but makefs is set, the volume maybe " ++
        "not fully initialized. Try running `cryptpilot-crypt init` again with `--force-reinit`"))) :=
    path_of_replay (by decide +kernel)
  have hsteps : Steps (Mapping.Step "data") ⟨none, none⟩ closedHomeCalls ⟨none, none⟩ :=
    steps_append.mpr ⟨_, steps_openHomeCalls _,
      .cons ⟨trivial, rfl⟩ (.cons ⟨trivial, rfl⟩ (.nil _))⟩
  have hclose : ∀ call ∈ closedHomeCalls, CloseSucceeds call.op call.res :=
    List.forall_mem_append.mpr ⟨closeSucceeds_openHomeCalls _,
      List.forall_mem_cons.mpr ⟨rfl, List.forall_mem_singleton.mpr rfl⟩⟩
  have hiff := open_failed_iff id homeConfig true rfl hpath hsteps hclose
  exact ⟨by decide, _, hsteps, hiff.mpr (by decide)⟩

/-- Another file system is found, and the volume is left open. -/
theorem open_failed_other_signature :
    let es := openHomeCalls (.ok (.knownSignature (some "xfs") none none))
    Path (openForSpecificVolume id homeConfig true) es (.done (.error
      "Something else on /dev/mapper/data is detected (found Some(xfs)), but expected 'ext4'")) ∧
    Steps (Mapping.Step "data") ⟨none, none⟩ es
      ⟨some "/dev/sdb", some (.ok (.knownSignature (some "xfs") none none))⟩ ∧
    ∀ call ∈ es, CloseSucceeds call.op call.res := by
  exact ⟨path_of_replay (by decide +kernel), steps_openHomeCalls _, closeSucceeds_openHomeCalls _⟩

/-! ## Histories -/

/-- A command for one volume. -/
inductive Request where
  | openVolume (checkFs : Bool)
  | closeVolume

def Request.prog (debug : String → String) (config : VolumeConfig) : Request → Cmd Unit
  | .openVolume checkFs => openForSpecificVolume debug config checkFs
  | .closeVolume => Crypt.closeVolume config.volume

/-- Any mapping that an operation sets up is one of the device. -/
def Targets (dev : Path) : Op → Prop
  | .act (.activateByPassphrase (some _) d _ _) => d = dev
  | _ => True

theorem Calm.targets {dev : Path} {op : Op} (h : Calm op) : Targets dev op := by
  unfold Targets
  split
  · exact h.elim
  · trivial

theorem Mapping.Step.device {volume : String} {dev : Path} {s s' : Mapping} {op : Op} {r : op.Res}
    (h : s.Step volume op r s') (hop : Targets dev op) (hs : s.device = none ∨ s.device = some dev) :
    s'.device = none ∨ s'.device = some dev := by
  obtain ⟨_, rfl⟩ := h
  cases op with
  | act action =>
    show (s.act volume action r).device = none ∨ (s.act volume action r).device = some dev
    unfold Mapping.act
    split
    · obtain rfl := hop
      split_ifs
      · exact .inr rfl
      · exact hs
    · split_ifs
      · exact .inl rfl
      · exact hs
    · exact hs
  | blkid path =>
    have hdevice := Mapping.device_next_blkid volume s path r
    exact hdevice.symm ▸ hs
  | _ => exact hs

section
variable {debug : String → String} {config : VolumeConfig} {passphrase : Passphrase}
  {integrity : IntegrityType} {volume : String}

theorem targets_openWithCheckPassphrase :
    (openWithCheckPassphrase debug volume config.dev passphrase integrity).Calls
      (Targets config.dev) :=
  .bind ((Calls.context calm_checkPassphrase).mono fun _ => Calm.targets) fun _ =>
    .context (.bind (calls_act trivial) fun _ => .bind (calls_act trivial) fun _ => calls_act rfl)

theorem targets_close : (close volume).Calls (Targets config.dev) :=
  .context (.bind (calls_act trivial) fun _ => calls_act trivial)

theorem targets_openFs : (openFs debug config integrity).Calls (Targets config.dev) := by
  unfold openFs
  cases config.extraConfig.makefs with
  | none => exact calls_done
  | some makefs =>
    refine .bind (.attempt (calm_forceMkfs.mono fun _ => Calm.targets)) fun r => ?_
    cases r with
    | ok u => exact calls_done
    | error e => exact .bind targets_close fun _ => calls_done

theorem targets_checkFsReady {checkFs : Bool} :
    (checkFsReady debug config checkFs).Calls (Targets config.dev) := by
  unfold checkFsReady
  split_ifs
  · refine .bind (calls_hasValuableData trivial) fun valuable => ?_
    cases valuable with
    | true => exact calls_done
    | false => exact .bind (.attempt targets_close) fun _ => calls_done
  · exact calls_done

theorem targets_temporaryDiskOpen :
    (temporaryDiskOpen debug config).Calls (Targets config.dev) :=
  .bind (.context (calls_getKey trivial)) fun _ => .bind (calm_format.mono fun _ => Calm.targets)
    fun _ => .bind targets_openWithCheckPassphrase fun _ => .bind targets_openFs fun _ =>
    calm_markVolumeAsInitialized.mono fun _ => Calm.targets

theorem targets_persistentDiskOpen :
    (persistentDiskOpen debug config).Calls (Targets config.dev) :=
  .bind (calls_isInitialized trivial) fun _ => .bind calls_bailIf fun _ =>
    .bind (.context (calls_getKey trivial)) fun _ => targets_openWithCheckPassphrase

theorem targets_prog (request : Request) :
    (request.prog debug config).Calls (Targets config.dev) := by
  cases request with
  | openVolume checkFs =>
    refine .bind (calls_pathExists trivial) fun active => ?_
    cases active with
    | true => exact calls_done
    | false =>
      refine .bind (calm_checkNotInUse.mono fun _ => Calm.targets) fun _ => ?_
      cases config.volumeType with
      | temporary => exact .bind targets_temporaryDiskOpen fun _ => targets_checkFsReady
      | persistent => exact .bind targets_persistentDiskOpen fun _ => targets_checkFsReady
  | closeVolume =>
    refine .bind (calls_pathExists trivial) fun active => ?_
    cases active with
    | true => exact targets_close
    | false => exact calls_done

end

/-- In a history of commands, the mapping is one of the device of the volume. -/
theorem device_of_runs {debug : String → String} {config : VolumeConfig} {s₀ s : Mapping}
    {history : List (Run Op Op.Res Unit Request)}
    (h : Runs (Request.prog debug config) (Mapping.Step config.volume) Eq s₀ history s)
    (hs₀ : s₀.device = none ∨ s₀.device = some config.dev) :
    s.device = none ∨ s.device = some config.dev := by
  induction h with
  | nil => exact hs₀
  | cons hidle hpath hsteps _ ih =>
    subst hidle
    have hkept := hsteps.invariant (I := fun s => s.device = none ∨ s.device = some config.dev) hs₀
      fun e he s s' hs hstep => hstep.device ((targets_prog _).path hpath e he) hs
    exact ih hkept

/-- The last probe of the mapping found the file system. -/
def Mapping.Reports (s : Mapping) (fs : MakeFsType) : Prop :=
  ∃ ptType subsystem, s.probe = some (.ok (.knownSignature (some fs.name) ptType subsystem))

section
variable {α : Type} {debug : String → String} {config : VolumeConfig} {s : Mapping}
  {passphrase : Passphrase} {integrity : IntegrityType} {p : Cmd α} {G : Mapping → Op → Prop}

theorem ensures_calm (h : p.Calls Calm) :
    p.Ensures (Mapping.Step config.volume) (fun _ _ => True) (fun _ t => t = s) s := by
  refine h.ensures (fun t op r t' hcalm ht hstep => ?_) (fun _ _ _ _ => trivial) rfl
  rw [hstep.2, hcalm.next, ht]

/-- A mapping that was set up is at the path of the volume. -/
def Mapping.Fresh (config : VolumeConfig) (s : Mapping) : Prop :=
  s = ⟨some config.dev, none⟩ ∧ config.volumePath = Disk.node config.volume

theorem ensures_openWithCheckPassphrase :
    (openWithCheckPassphrase debug config.volume config.dev passphrase integrity).Ensures
      (Mapping.Step config.volume) (fun _ _ => True) (fun _ t => t.Fresh config) s := by
  refine .bind (ensures_calm (.context calm_checkPassphrase)) fun _ t ht => .context ?_
  refine ensures_act_bind trivial fun t _ => ensures_act_bind trivial fun t _ => ?_
  refine ensures_act.mpr ⟨trivial, fun t' hstep => ⟨hstep.2.trans (if_pos ⟨rfl, rfl⟩), ?_⟩⟩
  have hname : '/' ∉ config.volume.toList := hstep.1 rfl
  exact if_neg fun hhead => hname (List.mem_of_head? hhead)

theorem ensures_openFs :
    (openFs debug config integrity).Ensures (Mapping.Step config.volume) (fun _ _ => True)
      (fun _ t => t = s) s := by
  unfold openFs
  cases config.extraConfig.makefs with
  | none => exact ensures_pure.mpr rfl
  | some makefs =>
    refine .bind (ensures_calm (.attempt calm_forceMkfs)) fun r t ht => ?_
    cases r with
    | ok u => exact ensures_pure.mpr ht
    | error e => exact .bind (calls_true.ensures_true fun _ _ _ => trivial) fun _ _ _ => ensures_fail

theorem ensures_temporaryDiskOpen :
    (temporaryDiskOpen debug config).Ensures (Mapping.Step config.volume) (fun _ _ => True)
      (fun _ t => t.Fresh config) s := by
  refine .bind (.context (ensures_calm (calls_getKey trivial))) fun _ t _ => ?_
  refine .bind (ensures_calm calm_format) fun _ t _ => ?_
  refine .bind ensures_openWithCheckPassphrase fun _ t ht => ?_
  refine .bind ensures_openFs ?_
  rintro ⟨⟩ t rfl
  refine (ensures_calm calm_markVolumeAsInitialized).mono ?_
  rintro ⟨⟩ t rfl
  exact ht

theorem ensures_persistentDiskOpen :
    (persistentDiskOpen debug config).Ensures (Mapping.Step config.volume) (fun _ _ => True)
      (fun _ t => t.Fresh config) s := by
  refine .bind (ensures_calm (calls_isInitialized trivial)) fun _ t _ => ?_
  refine .bind (ensures_calm calls_bailIf) fun _ t _ => ?_
  refine .bind (.context (ensures_calm (calls_getKey trivial))) fun _ t _ => ?_
  exact ensures_openWithCheckPassphrase

theorem ensures_checkFsReady {fs : MakeFsType} (hfs : config.extraConfig.makefs = some fs)
    (hs : s.Fresh config) :
    (checkFsReady debug config true).Ensures (Mapping.Step config.volume) (fun _ _ => True)
      (fun _ t => t.device = some config.dev ∧ t.Reports fs) s := by
  unfold checkFsReady
  rw [hfs, if_pos (show (true && (some fs).isSome) = true from rfl)]
  refine .bind (Q := fun valuable t => valuable = true → t.device = some config.dev ∧ t.Reports fs)
    (safe_hasValuableData trivial ?_ ?_ ?_) fun valuable t ht => ?_
  · rintro t _ _ ⟨⟩ ⟨⟩
  · rintro ptType subsystem t ⟨_, hnext⟩ _ ⟨⟩ -
    obtain ⟨rfl, hpath⟩ := hs
    obtain rfl := hnext.trans (if_pos ⟨hpath, nofun⟩)
    exact ⟨rfl, ptType, subsystem, rfl⟩
  · rintro r t _ _ e _ ⟨⟩
  · cases valuable with
    | true => exact ensures_pure.mpr (ht rfl)
    | false => exact .bind (calls_true.ensures_true fun _ _ _ => trivial) fun _ _ _ => ensures_fail

/-- If there is a mapping, it is kept as it is; otherwise one is set up, and probed. -/
theorem ensures_openForSpecificVolume {fs : MakeFsType} (hfs : config.extraConfig.makefs = some fs) :
    (openForSpecificVolume debug config true).Ensures (Mapping.Step config.volume) (fun _ _ => True)
      (fun _ t => (s.device = none → t.device = some config.dev ∧ t.Reports fs) ∧
        (s.device ≠ none → t = s)) s := by
  refine .bind (Q := fun active t => t = s ∧ (active = true ↔ s.device ≠ none))
    ⟨trivial, fun r t hstep => ?_⟩ ?_
  · rintro active ⟨⟩
    exact ⟨hstep.2, hstep.1 rfl⟩
  rintro active t ⟨rfl, hactive⟩
  cases active with
  | true => exact ensures_pure.mpr ⟨fun h => absurd h (hactive.mp rfl), fun _ => rfl⟩
  | false =>
    have hnone (h : t.device ≠ none) : False := Bool.noConfusion (hactive.mpr h)
    refine Ensures.mono (Q := fun _ t => t.device = some config.dev ∧ t.Reports fs) ?_
      fun _ _ ht => ⟨fun _ => ht, fun h => (hnone h).elim⟩
    refine .bind (ensures_calm calm_checkNotInUse) fun _ t _ => ?_
    cases config.volumeType with
    | temporary => exact .bind ensures_temporaryDiskOpen fun _ _ ht => ensures_checkFsReady hfs ht
    | persistent => exact .bind ensures_persistentDiskOpen fun _ _ ht => ensures_checkFsReady hfs ht

end

/-- **A checked open that succeeds has found the file system**, exactly if there was no mapping
before it, or the last probe of the mapping found it. -/
theorem checked_open_iff (debug : String → String) (config : VolumeConfig) {fs : MakeFsType}
    (hfs : config.extraConfig.makefs = some fs) {s₀ s s' : Mapping} (hs₀ : s₀.device = none)
    {history : List (Run Op Op.Res Unit Request)}
    (hhistory : Runs (Request.prog debug config) (Mapping.Step config.volume) Eq s₀ history s)
    {es : List Call}
    (hpath : Path ((Request.openVolume true).prog debug config) es (.done (.ok ())))
    (hsteps : Steps (Mapping.Step config.volume) s es s') :
    (s'.device = some config.dev ∧ s'.Reports fs) ↔ (s.device = none ∨ s.Reports fs) := by
  have hopen := ((ensures_openForSpecificVolume hfs).path hpath hsteps).1 () rfl
  by_cases hs : s.device = none
  · exact iff_of_true (hopen.1 hs) (.inl hs)
  · obtain rfl := hopen.2 hs
    have hdevice := (device_of_runs hhistory (.inl hs₀)).resolve_left hs
    rw [or_iff_right hs, and_iff_right hdevice]

/-- A volume is opened and checked, and then once more. -/
theorem checked_open_iff_second :
    let opened : Mapping := ⟨some "/dev/sdb", some (.ok (.knownSignature (some "ext4") none none))⟩
    let first : Run Op Op.Res Unit Request :=
      ⟨.openVolume true, openHomeCalls (.ok (.knownSignature (some "ext4") none none)), .done (.ok ())⟩
    let second : List Call := [⟨.pathExists "/dev/mapper/data", true⟩]
    Runs (Request.prog id homeConfig) (Mapping.Step "data") Eq ⟨none, none⟩ [first] opened ∧
      Path (openForSpecificVolume id homeConfig true) second (.done (.ok ())) ∧
      Steps (Mapping.Step "data") opened second opened ∧
      opened.device = some "/dev/sdb" ∧ opened.Reports .ext4 := by
  intro opened first second
  have hhistory : Runs (Request.prog id homeConfig) (Mapping.Step "data") Eq ⟨none, none⟩ [first]
      opened :=
    runs_singleton.mpr ⟨_, rfl, path_of_replay (by decide +kernel), steps_openHomeCalls _⟩
  have hpath : Path (openForSpecificVolume id homeConfig true) second (.done (.ok ())) :=
    path_of_replay (by decide +kernel)
  have hactive : opened.Answers "data" (.pathExists "/dev/mapper/data") true :=
    fun _ => iff_of_true rfl nofun
  have hsteps : Steps (Mapping.Step "data") opened second opened := .cons ⟨hactive, rfl⟩ (.nil _)
  have hiff := checked_open_iff id homeConfig
    (show homeConfig.extraConfig.makefs = some .ext4 from rfl) rfl hhistory hpath hsteps
  exact ⟨hhistory, hpath, hsteps, hiff.mpr (.inr ⟨none, none, rfl⟩)⟩

/-- A checked open that finds another file system fails. The next one succeeds, on the mapping that
was left. -/
theorem checked_open_again :
    let other : Mapping := ⟨some "/dev/sdb", some (.ok (.knownSignature (some "xfs") none none))⟩
    let first : Run Op Op.Res Unit Request :=
      ⟨.openVolume true, openHomeCalls (.ok (.knownSignature (some "xfs") none none)), .done (.error
        "Something else on /dev/mapper/data is detected (found Some(xfs)), but expected 'ext4'")⟩
    let again : Run Op Op.Res Unit Request :=
      ⟨.openVolume true, [⟨.pathExists "/dev/mapper/data", true⟩], .done (.ok ())⟩
    Runs (Request.prog id homeConfig) (Mapping.Step "data") Eq ⟨none, none⟩ [first, again] other ∧
      ¬other.Reports .ext4 := by
  intro other first again
  have hactive : other.Answers "data" (.pathExists "/dev/mapper/data") true :=
    fun _ => iff_of_true rfl nofun
  have hagain : Runs (Request.prog id homeConfig) (Mapping.Step "data") Eq other [again] other :=
    runs_singleton.mpr ⟨other, rfl, path_of_replay (by decide +kernel), .cons ⟨hactive, rfl⟩ (.nil _)⟩
  refine ⟨.cons rfl (path_of_replay (by decide +kernel)) (steps_openHomeCalls _) hagain, ?_⟩
  rintro ⟨ptType, subsystem, hprobe⟩
  simp [other, MakeFsType.name] at hprobe

end CryptPilot.Volume
