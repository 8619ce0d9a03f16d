import CryptPilot.Crypt.InitRun
import CryptPilot.Crypt.Subcommands
import CryptPilot.Data.Outcomes

/-!
# What `config check` tells

The check goes on after an error if it is told to, and stops otherwise. Both find the same: they
succeed in the same runs, and one that goes on fails if the other one would have
(`check_same_verdict`).

A check that succeeds has tried everything that opening a persistent volume at boot depends on, but
for two things: that the device is not in use, and that the kernel makes the mapping. So with the
same answers as in the check and these two, the volume is opened (`open_after_check`).
-/

namespace CryptPilot.Crypt

open CryptPilot.Data CryptPilot.Data.Prog CryptPilot.Core

/-! ## Going on and stopping -/

section
variable {debug : String → String} {skip : Bool} {volume : VolumeFile} {volumes : List VolumeFile}

/-- The device is in order, or not. -/
def FoundInDevice (r : Except String (Bool × Bool)) : Prop := ∃ initialized, r = .ok (true, initialized)

def Found (r : Except String Bool) : Prop := r = .ok true

theorem lenient_checkDevice : Lenient FoundInDevice (checkDevice debug ⟨true, skip⟩ volume)
    (checkDevice debug ⟨false, skip⟩ volume) := by
  refine .step fun present => ?_
  cases (present : Bool) with
  | false => exact .stop _ ⟨false, rfl⟩
  | true =>
    refine lenient_attempt fun initialized => ?_
    cases initialized with
    | error e => exact .stop _ ⟨false, rfl⟩
    | ok initialized =>
      dsimp only
      split_ifs
      · exact .stop _ ⟨initialized, rfl⟩
      · exact .same (by rintro ⟨_, ⟨⟩⟩)

theorem lenient_checkKey {devIsInitialized : Bool} :
    Lenient Found (checkKey debug ⟨true, skip⟩ volume devIsInitialized)
      (checkKey debug ⟨false, skip⟩ volume devIsInitialized) := by
  cases skip with
  | true => exact .same (by rintro ⟨⟩)
  | false =>
    refine lenient_attempt fun key => ?_
    cases key with
    | error e => exact .stop _ rfl
    | ok passphrase =>
      cases devIsInitialized with
      | false => exact .same (by rintro ⟨⟩)
      | true =>
        refine lenient_attempt fun checked => ?_
        cases checked with
        | error e => exact .stop _ rfl
        | ok u => exact .same (by rintro ⟨⟩)

theorem total_checkKey {devIsInitialized : Bool} :
    (checkKey debug ⟨true, skip⟩ volume devIsInitialized).Total := by
  cases skip with
  | true => exact total_pure
  | false =>
    refine total_attempt.bind fun key => ?_
    cases key with
    | error e => exact total_pure
    | ok passphrase =>
      cases devIsInitialized with
      | false => exact total_pure
      | true =>
        refine total_attempt.bind fun checked => ?_
        cases checked <;> exact total_pure

theorem lenient_checkVolume : Lenient Found (checkVolume debug ⟨true, skip⟩ volume)
    (checkVolume debug ⟨false, skip⟩ volume) := by
  refine lenient_checkDevice.andThen (fun r hr => ?_) ?_ fun e => ⟨e, rfl⟩
  · rcases r with e | ⟨_ | _, initialized⟩
    · exact .same (by rintro ⟨⟩)
    · refine lenient_checkKey.andThen (fun r hr => ?_) ?_ fun e => ⟨e, rfl⟩
      · rcases r with e | _ | _
        · exact .same (by rintro ⟨⟩)
        · exact .same (by rintro ⟨⟩)
        · exact (hr rfl).elim
      · rintro _ rfl
        rfl
    · exact (hr ⟨initialized, rfl⟩).elim
  · -- an error in the device is not taken back
    rintro _ ⟨initialized, rfl⟩
    refine Ends.andThen total_checkKey ?_
    rintro _ ⟨isError, rfl⟩
    rfl

theorem total_checkVolume : (checkVolume debug ⟨true, skip⟩ volume).Total := by
  refine Total.bind (total_call.bind fun present => ?_) fun _ => total_checkKey.bind fun _ => total_pure
  cases present with
  | false => exact total_pure
  | true =>
    refine total_attempt.bind fun initialized => ?_
    cases initialized with
    | error e => exact total_pure
    | ok initialized =>
      dsimp only
      split_ifs <;> exact total_pure

/-- An error is not taken back by the volumes that follow. -/
theorem found_checkVolumes : (checkVolumes debug ⟨true, skip⟩ true volumes).Ends Found := by
  induction volumes with
  | nil => rfl
  | cons volume volumes ih =>
    refine Ends.andThen total_checkVolume ?_
    rintro _ ⟨isError, rfl⟩
    exact ih

theorem lenient_checkVolumes : Lenient Found (checkVolumes debug ⟨true, skip⟩ false volumes)
    (checkVolumes debug ⟨false, skip⟩ false volumes) := by
  induction volumes with
  | nil => exact .same (by rintro ⟨⟩)
  | cons volume volumes ih =>
    refine lenient_checkVolume.andThen (fun r hr => ?_) ?_ fun e => ⟨e, rfl⟩
    · rcases r with e | _ | _
      · exact .same (by rintro ⟨⟩)
      · exact ih
      · exact (hr rfl).elim
    · rintro _ rfl
      exact found_checkVolumes

/-- The command fails. -/
def Failed (r : Except String Unit) : Prop := ∃ e, r = .error e

theorem lenient_run {volumeConfigs : Except String (List VolumeFile)} :
    Lenient Failed (ConfigCheckCommand.run debug volumeConfigs ⟨true, skip⟩)
      (ConfigCheckCommand.run debug volumeConfigs ⟨false, skip⟩) := by
  cases volumeConfigs with
  | error e => exact .stop _ ⟨_, rfl⟩
  | ok volumes =>
    refine lenient_checkVolumes.andThen (fun r hr => ?_) ?_ fun e => ⟨e, rfl⟩
    · rcases r with e | _ | _
      · exact .stop e ⟨e, rfl⟩
      · exact .same (by rintro ⟨_, ⟨⟩⟩)
      · exact (hr rfl).elim
    · rintro _ rfl
      exact ⟨checkFailed, rfl⟩

/-- **Keeping on checking does not change the verdict.** The check succeeds with the same calls and
answers. Once the check that stops has failed, the one that keeps on fails whatever follows; and
where that one fails, the check that stops has failed on the way. -/
theorem check_same_verdict (debug : String → String)
    (volumeConfigs : Except String (List VolumeFile)) (skip : Bool) :
    let keeping := ConfigCheckCommand.run debug volumeConfigs ⟨true, skip⟩
    let stopping := ConfigCheckCommand.run debug volumeConfigs ⟨false, skip⟩
    (∀ es, Path keeping es (.done (.ok ())) ↔ Path stopping es (.done (.ok ()))) ∧
      (∀ es e, Path stopping es (.done (.error e)) →
        ∀ es' r, Path keeping (es ++ es') (.done r) → ∃ e', r = .error e') ∧
      ∀ es e, Path keeping es (.done (.error e)) →
        ∃ pre e', pre <+: es ∧ Path stopping pre (.done (.error e')) := by
  intro keeping stopping
  have hrun : Lenient Failed keeping stopping := lenient_run
  refine ⟨fun es => ⟨fun h => ?_, fun h => (hrun.ok h).1⟩, fun es e h es' r h' => ?_, fun es e h => ?_⟩
  · exact hrun.good h (by rintro ⟨_, ⟨⟩⟩)
  · exact hrun.failed (fun e => ⟨e, rfl⟩) h h'
  · exact hrun.stopped h ⟨e, rfl⟩

end

/-! ## What a check that succeeds has seen -/

section
variable {debug : String → String} {options : ConfigCheckOptions} {volume : VolumeFile}
  {volumes : List VolumeFile} {es : List Call}

/-- What the check has seen of a volume. -/
structure Seen (volume : VolumeFile) (header : Except String Header) (key : Passphrase)
    (es : List Call) : Prop where
  read : ⟨.readHeader volume.config.dev, header⟩ ∈ es
  got : ⟨.getKey volume.config.encrypt.keyProvider, Except.ok key⟩ ∈ es
  ready : volume.autoOpen = some true → initStateOf header = .ready
  passed : initStateOf header = .ready → did (.cryptInit volume.config.dev) ∈ es ∧
    did (.cryptLoad volume.config.dev) ∈ es ∧
    did (.activateByPassphrase none volume.config.dev key false) ∈ es

theorem Seen.mono {header : Except String Header} {key : Passphrase} {es' : List Call}
    (h : Seen volume header key es) (hes : ∀ e ∈ es, e ∈ es') : Seen volume header key es' where
  read := hes _ h.read
  got := hes _ h.got
  ready := h.ready
  passed hready :=
    have ⟨hinit, hload, hactivate⟩ := h.passed hready
    ⟨hes _ hinit, hes _ hload, hes _ hactivate⟩

theorem did_of_path {action : Action} {u : Unit} (h : Path (act action) es (.done (.ok u))) :
    did action ∈ es := by
  rcases h with _ | ⟨r, h⟩
  obtain ⟨rfl, hdone⟩ := h.of_done
  cases hdone
  exact List.mem_cons_self

theorem did_of_checkPassphrase {dev : Path} {key : Passphrase} {u : Unit}
    (h : Path (checkPassphrase debug dev key) es (.done (.ok u))) :
    did (.cryptInit dev) ∈ es ∧ did (.cryptLoad dev) ∈ es ∧
      did (.activateByPassphrase none dev key false) ∈ es := by
  obtain ⟨es₁, _, es', rfl, hinit, h⟩ := h.of_context.of_bind_ok
  obtain ⟨es₂, _, es₃, rfl, hload, hactivate⟩ := h.of_bind_ok
  simp [did_of_path hinit, did_of_path hload, did_of_path hactivate]

theorem read_of_isInitialized {dev : Path} {initialized : Bool}
    (h : Path (isInitialized dev) es (.done (.ok initialized))) :
    ∃ header, ⟨.readHeader dev, header⟩ ∈ es ∧
      initialized = decide (initStateOf header = .ready) := by
  rw [isInitialized, getInitState_eq] at h
  rcases h with _ | ⟨header, h⟩
  obtain ⟨rfl, hdone⟩ := h.of_done
  cases hdone
  exact ⟨header, List.mem_cons_self, rfl⟩

/-- An error that is passed over is counted. -/
theorem isError_of_continueOrThrow {error : String} {isError : Bool}
    (h : Path (continueOrThrow options error) es (.done (.ok isError))) : isError = true := by
  unfold continueOrThrow at h
  split_ifs at h
  · obtain ⟨-, hdone⟩ := h.of_done
    cases hdone
    rfl
  · obtain ⟨-, hdone⟩ := h.of_done
    cases hdone

theorem not_ok_continueOrThrow {error : String} {initialized initialized' : Bool} :
    ¬Path (do let isError ← continueOrThrow options error; return (isError, initialized')) es
      (.done (.ok (false, initialized))) := by
  intro h
  obtain ⟨es₁, isError, es₂, -, hthrow, h⟩ := h.of_bind_ok
  obtain ⟨-, hdone⟩ := h.of_done
  cases hdone
  cases isError_of_continueOrThrow hthrow

theorem read_of_checkDevice {initialized : Bool}
    (h : Path (checkDevice debug options volume) es (.done (.ok (false, initialized)))) :
    ∃ header, ⟨.readHeader volume.config.dev, header⟩ ∈ es ∧
      initialized = decide (initStateOf header = .ready) ∧
      (volume.autoOpen = some true → initialized = true) := by
  obtain ⟨es₁, present, es', rfl, -, h⟩ := h.of_bind_ok
  cases present with
  | false => exact (not_ok_continueOrThrow h).elim
  | true =>
    obtain ⟨es₂, outcome, es₃, rfl, hattempt, h⟩ := h.of_bind_ok
    obtain ⟨_, ⟨⟩, hinit⟩ := hattempt.of_attempt
    cases outcome with
    | error e => exact (not_ok_continueOrThrow h).elim
    | ok found =>
      obtain ⟨header, hread, hfound⟩ := read_of_isInitialized hinit.of_context
      dsimp only at h
      split_ifs at h with hauto
      · exact (not_ok_continueOrThrow h).elim
      · obtain ⟨-, hdone⟩ := h.of_done
        cases hdone
        refine ⟨header, by simp [hread], hfound, fun hopen => ?_⟩
        simpa [hopen] using hauto

theorem got_of_checkKey (hskip : options.skipCheckPassphrase = false) {initialized : Bool}
    (h : Path (checkKey debug options volume initialized) es (.done (.ok false))) :
    ∃ key, ⟨.getKey volume.config.encrypt.keyProvider, Except.ok key⟩ ∈ es ∧
      (initialized = true → did (.cryptInit volume.config.dev) ∈ es ∧
        did (.cryptLoad volume.config.dev) ∈ es ∧
        did (.activateByPassphrase none volume.config.dev key false) ∈ es) := by
  rw [checkKey, hskip] at h
  obtain ⟨es₁, outcome, es', rfl, hattempt, hfetched⟩ := h.of_bind_ok
  obtain ⟨_, ⟨⟩, hkey⟩ := hattempt.of_attempt
  cases outcome with
  | error e => cases isError_of_continueOrThrow hfetched
  | ok key =>
    rcases hkey.of_context with _ | ⟨_, hkey⟩
    obtain ⟨rfl, hdone⟩ := hkey.of_done
    cases hdone
    cases initialized with
    | false => exact ⟨key, List.mem_cons_self, fun hinit => by cases hinit⟩
    | true =>
      obtain ⟨es₂, outcome, es₃, rfl, hattempt, hchecked⟩ := hfetched.of_bind_ok
      obtain ⟨_, ⟨⟩, hpassphrase⟩ := hattempt.of_attempt
      cases outcome with
      | error e => cases isError_of_continueOrThrow hchecked
      | ok u =>
        obtain ⟨hinit, hload, hactivate⟩ := did_of_checkPassphrase hpassphrase.of_context
        exact ⟨key, List.mem_cons_self, fun _ => by simp [hinit, hload, hactivate]⟩

theorem seen_of_checkVolume (hskip : options.skipCheckPassphrase = false)
    (h : Path (checkVolume debug options volume) es (.done (.ok false))) :
    ∃ header key, Seen volume header key es := by
  obtain ⟨es₁, ⟨isError, initialized⟩, es', rfl, hdevice, h⟩ := h.of_bind_ok
  obtain ⟨es₂, isError', es₃, rfl, hkey, h⟩ := h.of_bind_ok
  obtain ⟨rfl, hdone⟩ := h.of_done
  obtain ⟨rfl, rfl⟩ : isError = false ∧ isError' = false := by
    simpa using (Except.ok.inj (Prog.done.inj hdone)).symm
  obtain ⟨header, hread, rfl, hauto⟩ := read_of_checkDevice hdevice
  obtain ⟨key, hgot, hpassed⟩ := got_of_checkKey hskip hkey
  refine ⟨header, key, by simp [hread], by simp [hgot], fun hopen => ?_, fun hready => ?_⟩
  · exact of_decide_eq_true (hauto hopen)
  · obtain ⟨hinit, hload, hactivate⟩ := hpassed (decide_eq_true hready)
    simp [hinit, hload, hactivate]

theorem seen_of_checkVolumes (hskip : options.skipCheckPassphrase = false) {isError : Bool}
    (h : Path (checkVolumes debug options isError volumes) es (.done (.ok false))) :
    isError = false ∧ ∀ volume ∈ volumes, ∃ header key, Seen volume header key es := by
  induction volumes generalizing isError es with
  | nil =>
    obtain ⟨-, hdone⟩ := h.of_done
    cases hdone
    exact ⟨rfl, fun v hv => by cases hv⟩
  | cons volume volumes ih =>
    obtain ⟨es₁, isError', es₂, rfl, hvolume, hrest⟩ := h.of_bind_ok
    obtain ⟨herror, hseen⟩ := ih hrest
    obtain ⟨rfl, rfl⟩ : isError = false ∧ isError' = false := by simpa using herror
    refine ⟨rfl, List.forall_mem_cons.mpr ⟨?_, fun v hv => ?_⟩⟩
    · obtain ⟨header, key, hseen⟩ := seen_of_checkVolume hskip hvolume
      exact ⟨header, key, hseen.mono fun _ => List.mem_append_left _⟩
    · obtain ⟨header, key, hseen⟩ := hseen v hv
      exact ⟨header, key, hseen.mono fun _ => List.mem_append_right _⟩

/-- A check that succeeds has seen every volume. -/
theorem seen_of_check (hskip : options.skipCheckPassphrase = false)
    (h : Path (ConfigCheckCommand.run debug (.ok volumes) options) es (.done (.ok ()))) :
    ∀ volume ∈ volumes, ∃ header key, Seen volume header key es := by
  obtain ⟨es₁, _, es₂, rfl, hload, h⟩ := h.of_bind_ok
  obtain ⟨rfl, hdone⟩ := hload.of_done
  cases hdone
  obtain ⟨es₃, isError, es₄, rfl, hcheck, h⟩ := h.of_bind_ok
  cases isError with
  | true =>
    obtain ⟨-, hdone⟩ := h.of_done
    cases hdone
  | false =>
    intro volume hvolume
    obtain ⟨header, key, hseen⟩ := (seen_of_checkVolumes hskip hcheck).2 volume hvolume
    exact ⟨header, key, hseen.mono fun e he => by simp [he]⟩

end

/-! ## Opening a volume with the same answers -/

/-- Whatever is asked twice is answered the same. -/
def SameAnswers (es es' : List Call) : Prop :=
  ∀ op r r', ⟨op, r⟩ ∈ es → ⟨op, r'⟩ ∈ es' → r' = r

section
variable {α β : Type} {known : (op : Op) → op.Res → Prop} {a : α} {b : β} {p : Cmd α}

/-- With answers of which something is known, the program succeeds with a result. -/
def Gives (known : (op : Op) → op.Res → Prop) (a : α) (p : Cmd α) : Prop :=
  p.Safe (fun (_ : Unit) op r _ => known op r) (fun _ _ => True) (fun r _ => r = .ok a) ()

theorem Gives.bind {f : α → Cmd β} (hp : Gives known a p) (hf : Gives known b (f a)) :
    Gives known b (p >>= f) := by
  refine Safe.bind hp ?_ ?_
  · rintro _ _ ⟨⟩
    exact hf
  · rintro _ _ ⟨⟩

theorem Gives.context {message : String} (hp : Gives known a p) :
    Gives known a (context message p) := by
  refine Safe.context hp ?_
  rintro _ _ rfl
  rfl

theorem gives_act {action : Action} (h : ∀ r, known (.act action) r → r = Except.ok ()) :
    Gives known () (act action) :=
  ⟨trivial, fun r _ hr => h r hr⟩

theorem Gives.path {es : List Call} {r : Except String α} (h : Gives known a p)
    (hpath : Path p es (.done r)) (hes : ∀ e ∈ es, known e.op e.res) : r = .ok a :=
  (Safe.path h hpath (steps_answers hes)).1

end

section
variable {debug : String → String} {volume : VolumeFile} {header : Except String Header}
  {key : Passphrase}

/-- The answers of a check, that the device is not in use, and that the mapping is made. -/
def AsSeen (volume : VolumeConfig) (header : Except String Header) (key : Passphrase) :
    (op : Op) → op.Res → Prop
  | .readHeader d, r => d = volume.dev → r = header
  | .getKey provider, r => provider = volume.encrypt.keyProvider → r = Except.ok key
  | .openExclusive d, r => d = volume.dev → r = ExclusiveOpen.opened
  | .act (.cryptInit d), r | .act (.cryptLoad d), r => d = volume.dev → r = Except.ok ()
  | .act (.activateByPassphrase none d passphrase noJournal), r =>
    d = volume.dev → passphrase = key → noJournal = false → r = Except.ok ()
  | .act (.activateByPassphrase (some name) d _ _), r =>
    name = volume.volume → d = volume.dev → r = Except.ok ()
  | _, _ => True

theorem gives_open {config : VolumeConfig} (hpersistent : config.volumeType = .persistent)
    (hready : initStateOf header = .ready) :
    Gives (AsSeen config header key) () (openForSpecificVolume debug config false) := by
  have hinit : Gives (AsSeen config header key) () (act (.cryptInit config.dev)) :=
    gives_act fun r hr => hr rfl
  have hload : Gives (AsSeen config header key) () (act (.cryptLoad config.dev)) :=
    gives_act fun r hr => hr rfl
  have hopen (noJournal : Bool) : Gives (AsSeen config header key) ()
      (act (.activateByPassphrase (some config.volume) config.dev key noJournal)) :=
    gives_act fun r hr => hr rfl rfl
  have hcheck : Gives (AsSeen config header key) () (checkPassphrase debug config.dev key) :=
    .context (hinit.bind (hload.bind (gives_act fun r hr => hr rfl rfl rfl)))
  have hfree : Gives (AsSeen config header key) false (isDevInUse config.dev) := by
    refine ⟨trivial, fun outcome _ hr => ?_⟩
    obtain rfl : outcome = ExclusiveOpen.opened := hr rfl
    rfl
  have hinitialized : Gives (AsSeen config header key) true (isInitialized config.dev) := by
    rw [isInitialized, getInitState_eq]
    refine ⟨trivial, fun r _ hr => ?_⟩
    obtain rfl : r = header := hr rfl
    exact congrArg Except.ok (decide_eq_true hready)
  have hkey : Gives (AsSeen config header key) key (getKey config.encrypt.keyProvider) :=
    ⟨trivial, fun r _ hr => hr rfl⟩
  have hnotInUse : Gives (AsSeen config header key) () (checkNotInUse debug config.dev) :=
    hfree.bind rfl
  have hpersistentOpen : Gives (AsSeen config header key) () (persistentDiskOpen debug config) := by
    refine hinitialized.bind (Gives.bind (a := ()) rfl (hkey.context.bind ?_))
    exact hcheck.context.bind (hinit.bind (hload.bind (hopen _))).context
  unfold openForSpecificVolume
  rw [hpersistent]
  refine ⟨trivial, fun active _ _ => ?_⟩
  cases (active : Bool) with
  | true => rfl
  | false => exact hnotInUse.bind (hpersistentOpen.bind rfl)

/-- **A check that succeeds foretells the boot.** A persistent volume that is to be opened at boot is
opened, if everything that the check has asked is answered the same, the device is not in use and the
kernel makes the mapping. -/
theorem open_after_check {volumes : List VolumeFile} {options : ConfigCheckOptions}
    {es es' : List Call} {r : Except String Unit} (hskip : options.skipCheckPassphrase = false)
    (hcheck : Path (ConfigCheckCommand.run debug (.ok volumes) options) es (.done (.ok ())))
    (hvolume : volume ∈ volumes) (hpersistent : volume.config.volumeType = .persistent)
    (hauto : volume.autoOpen = some true)
    (hopen : Path (openForSpecificVolume debug volume.config false) es' (.done r))
    (hsame : SameAnswers es es')
    (hfree : ∀ outcome, ⟨.openExclusive volume.config.dev, outcome⟩ ∈ es' → outcome = .opened)
    (hmapped : ∀ passphrase noJournal outcome, ⟨.act (.activateByPassphrase (some volume.volume)
      volume.config.dev passphrase noJournal), outcome⟩ ∈ es' → outcome = .ok ()) : r = .ok () := by
  obtain ⟨header, key, hseen⟩ := seen_of_check hskip hcheck volume hvolume
  have hready := hseen.ready hauto
  obtain ⟨hinit, hload, hpassed⟩ := hseen.passed hready
  have hgives : Gives (AsSeen volume.config header key) ()
    (openForSpecificVolume debug volume.config false) := gives_open hpersistent hready
  refine hgives.path hopen ?_
  rintro ⟨op, answer⟩ he
  cases op with
  | readHeader d =>
    rintro rfl
    exact hsame _ _ _ hseen.read he
  | getKey provider =>
    rintro rfl
    exact hsame _ _ _ hseen.got he
  | openExclusive d =>
    rintro rfl
    exact hfree _ he
  | act action =>
    cases action with
    | cryptInit d =>
      rintro rfl
      exact hsame _ _ _ hinit he
    | cryptLoad d =>
      rintro rfl
      exact hsame _ _ _ hload he
    | activateByPassphrase name d passphrase noJournal =>
      cases name with
      | none =>
        rintro rfl rfl rfl
        exact hsame _ _ _ hpassed he
      | some name =>
        rintro rfl rfl
        exact hmapped _ _ _ he
    | _ => trivial
  | _ => trivial

end

/-! A volume that is ready, with the right key. -/

section
variable (volume : VolumeFile) (header : Except String Header) (key : Passphrase)

def passphraseCalls : List Call :=
  [did (.cryptInit volume.config.dev), did (.cryptLoad volume.config.dev),
    did (.activateByPassphrase none volume.config.dev key false)]

def checkCalls : List Call :=
  [⟨.pathExists volume.config.dev, true⟩, ⟨.readHeader volume.config.dev, header⟩] ++
    ⟨.getKey volume.config.encrypt.keyProvider, Except.ok key⟩ :: passphraseCalls volume key

def mapCalls : List Call :=
  let integrity : IntegrityType :=
    if volume.config.extraConfig.integrity = some true then .noJournal else .none
  [did (.cryptInit volume.config.dev), did (.cryptLoad volume.config.dev),
    did (.activateByPassphrase (some volume.volume) volume.config.dev key (integrity = .noJournal))]

def openCalls : List Call :=
  ⟨.pathExists ("/dev/mapper/" ++ volume.volume), false⟩ ::
    ⟨.openExclusive volume.config.dev, ExclusiveOpen.opened⟩ ::
    ⟨.readHeader volume.config.dev, header⟩ ::
    ⟨.getKey volume.config.encrypt.keyProvider, Except.ok key⟩ ::
    (passphraseCalls volume key ++ mapCalls volume key)

variable {volume header key}

theorem path_attempt {α : Type} {p : Cmd α} {es : List Call} {r : Except String α}
    (h : Path p es (.done r)) : Path (attempt p) es (.done (.ok r)) :=
  h.andThen fun r => .done (.ok r)

theorem path_isInitialized (hready : initStateOf header = .ready) (dev : Path) :
    Path (isInitialized dev) [⟨.readHeader dev, header⟩] (.done (.ok true)) := by
  have hinit : isInitialized dev =
      .step (.readHeader dev) fun r => .done (.ok (initStateOf r = .ready)) := by
    rw [isInitialized, getInitState_eq]
    rfl
  rw [hinit, ← decide_eq_true hready]
  exact @path_step Op Op.Res _ (Op.readHeader dev) _ header

theorem path_checkPassphrase (debug : String → String) :
    Path (checkPassphrase debug volume.config.dev key) (passphraseCalls volume key) (.done (.ok ())) :=
  .context (.bind (path_act _) (.bind (path_act _) (path_act _))) _

theorem path_check (debug : String → String) (hready : initStateOf header = .ready) :
    Path (ConfigCheckCommand.run debug (.ok [volume]) ⟨false, false⟩) (checkCalls volume header key)
      (.done (.ok ())) := by
  have hdevice : Path (checkDevice debug ⟨false, false⟩ volume)
      [⟨.pathExists volume.config.dev, true⟩, ⟨.readHeader volume.config.dev, header⟩]
      (.done (.ok (false, true))) := by
    refine .bind (path_pathExists _ true)
      (.bind_done (path_attempt ((path_isInitialized hready _).context _)) ?_)
    exact if_neg (by simp)
  have hkey : Path (checkKey debug ⟨false, false⟩ volume true)
      (⟨.getKey volume.config.encrypt.keyProvider, Except.ok key⟩ :: passphraseCalls volume key)
      (.done (.ok false)) :=
    .bind (path_attempt ((path_getKey _ key).context _))
      (.bind_done (path_attempt ((path_checkPassphrase debug).context _)) rfl)
  have hvolume : Path (checkVolume debug ⟨false, false⟩ volume) (checkCalls volume header key)
      (.done (.ok false)) :=
    .bind hdevice (.bind_done hkey rfl)
  have hvolumes : Path (checkVolumes debug ⟨false, false⟩ false [volume])
      (checkCalls volume header key) (.done (.ok false)) :=
    .bind_done hvolume rfl
  have hdone : Path (checkVolumes debug ⟨false, false⟩ false [volume] >>= fun isError =>
      bailIf isError checkFailed) (checkCalls volume header key) (.done (.ok ())) :=
    .bind_done hvolumes rfl
  exact hdone

theorem path_open (debug : String → String) (hpersistent : volume.config.volumeType = .persistent)
    (hready : initStateOf header = .ready) :
    Path (openForSpecificVolume debug volume.config false) (openCalls volume header key)
      (.done (.ok ())) := by
  have hmap : Path (openWithCheckPassphrase debug volume.volume volume.config.dev key _)
      (passphraseCalls volume key ++ mapCalls volume key) (.done (.ok ())) :=
    .bind ((path_checkPassphrase debug).context _)
      (.context (.bind (path_act _) (.bind (path_act _) (path_act _))) _)
  have hopen : Path (persistentDiskOpen debug volume.config)
      (⟨.readHeader volume.config.dev, header⟩ ::
        ⟨.getKey volume.config.encrypt.keyProvider, Except.ok key⟩ ::
        (passphraseCalls volume key ++ mapCalls volume key)) (.done (.ok ())) :=
    .bind (path_isInitialized hready _) (.bind (show Path (bailIf (!true) _) [] _ from .nil _)
      (.bind ((path_getKey _ key).context _) hmap))
  unfold openForSpecificVolume
  rw [hpersistent]
  exact .bind (path_pathExists _ false) (.bind (path_checkNotInUse debug _) (.bind_done hopen rfl))

end

def autoFile : VolumeFile := { dataFile with autoOpen := some true }

/-- How everything is answered. -/
def autoAnswers : (op : Op) → op.Res → Prop
  | .pathExists path, r => r = decide (path = "/dev/sdb")
  | .readHeader _, r => r = Except.ok Header.readyMark
  | .getKey _, r => r = Except.ok [107]
  | .openExclusive _, r => r = ExclusiveOpen.opened
  | .act _, r => r = Except.ok ()
  | _, _ => False

theorem autoAnswers_unique {op : Op} {r r' : op.Res} (h : autoAnswers op r) (h' : autoAnswers op r') :
    r' = r := by
  cases op <;> first | exact h'.trans h.symm | exact h.elim

theorem autoAnswers_checkCalls :
    ∀ e ∈ checkCalls autoFile (.ok Header.readyMark) [107], autoAnswers e.op e.res := by
  simp only [checkCalls, passphraseCalls, List.cons_append, List.nil_append, List.forall_mem_cons]
  exact ⟨rfl, rfl, rfl, rfl, rfl, rfl, fun _ h => by cases h⟩

theorem autoAnswers_openCalls :
    ∀ e ∈ openCalls autoFile (.ok Header.readyMark) [107], autoAnswers e.op e.res := by
  simp only [openCalls, passphraseCalls, mapCalls, List.cons_append, List.nil_append,
    List.forall_mem_cons]
  exact ⟨rfl, rfl, rfl, rfl, rfl, rfl, rfl, rfl, rfl, rfl, fun _ h => by cases h⟩

theorem open_after_check_data :
    (∃ r, Path (openForSpecificVolume id autoFile.config false)
      (openCalls autoFile (.ok Header.readyMark) [107]) (.done r)) ∧
    ∀ r, Path (openForSpecificVolume id autoFile.config false)
      (openCalls autoFile (.ok Header.readyMark) [107]) (.done r) → r = .ok () := by
  have hready : initStateOf (.ok Header.readyMark) = .ready := initState_readyMark
  refine ⟨⟨_, path_open id rfl hready⟩, fun r hopen => ?_⟩
  have hcheck : Path (ConfigCheckCommand.run id (.ok [autoFile]) ⟨false, false⟩)
    (checkCalls autoFile (.ok Header.readyMark) [107]) (.done (.ok ())) := path_check id hready
  refine open_after_check rfl hcheck List.mem_cons_self rfl rfl hopen ?_ ?_ ?_
  · intro op r r' hr hr'
    exact autoAnswers_unique (autoAnswers_checkCalls _ hr) (autoAnswers_openCalls _ hr')
  · exact fun outcome houtcome => autoAnswers_openCalls _ houtcome
  · exact fun _ _ outcome houtcome => autoAnswers_openCalls _ houtcome

end CryptPilot.Crypt
