import CryptPilot.Crypt.ConfigCheck

/-!
# Volumes do not get in each other's way

Opening a volume writes to its own device, and to what is open under its own name (`Within`).
Initializing one uses a name of its own for a while. Names of volumes are distinct, as the
configuration is not loaded otherwise. So with a device for each volume

* the calls of the boot service are complete runs of opening each volume, one after the other, and
  each has the effect on its device that it has alone, however the others end (`auto_open_alone`),
  and
* a device without a temporary volume is written by an `init` that names its volume and by nothing
  else, with any number of commands at once (`device_untouched`).

That there is a device for each volume is not checked when the configuration is loaded, and with two
volumes on a device the second statement is false (`shared_device_formatted`).
-/

namespace CryptPilot.Crypt

open CryptPilot.Data CryptPilot.Data.Prog CryptPilot.Data.Toml CryptPilot.Core

/-! ## Where an operation writes -/

/-- Nothing is written but to a device and to what is open under some names, and no other mapping is
made or removed. -/
def Within (dev : Path) (names : String → Prop) : Op → Prop
  | .act (.cryptFormat d _ _) | .act (.addByKey d _) | .act (.setLabel d _) => d = dev
  | .act (.activateByPassphrase (some name) d _ _) => d = dev ∧ names name
  | .act (.deactivate name) => names name
  | .act (.mkfs path _ _) => ∃ name, names name ∧ path = Disk.node name
  | .act (.writeZeros _) | .act (.lvcreate _) | .act (.dmsetup _ (.snapshot ..)) => False
  | _ => True

/-- A mapping has no slash in its name. -/
def Named : (op : Op) → op.Res → Prop
  | .act (.activateByPassphrase (some name) _ _ _), r => Except.isOk r → '/' ∉ name.toList
  | _, _ => True

section
variable {δ : Type} {dev d : Path} {names : String → Prop} {s s' : Disk δ} {op : Op} {r : op.Res}

theorem named_of_step (h : s.Step dev op r s') : Named op r := by
  cases op with
  | act action =>
    cases action with
    | activateByPassphrase name d passphrase noJournal =>
      cases name with
      | none => trivial
      | some name => exact h.1
    | _ => trivial
  | _ => trivial

/-- **Frame.** Another device is as it was, unless its volume is open under one of the names. -/
theorem Within.unchanged (hop : Within d names op) (hd : d ≠ dev)
    (hnode : ∀ name, dev ≠ Disk.node name) (hmapped : ∀ name ∈ s.mapped, ¬names name)
    (h : s.Step dev op r s') : s' = s := by
  cases op with
  | act action =>
    change Except String Unit at r
    change s.Acts dev action r s' at h
    cases action with
    | cryptFormat d' subsystem integrity =>
      obtain rfl : d' = d := hop
      rwa [Disk.Acts, if_neg fun hdev => hd hdev.1] at h
    | addByKey d' passphrase =>
      obtain rfl : d' = d := hop
      rwa [Disk.Acts, if_neg fun hdev => hd hdev.1] at h
    | setLabel d' subsystem =>
      obtain rfl : d' = d := hop
      rwa [Disk.Acts, if_neg fun hdev => hd hdev.1] at h
    | activateByPassphrase name d' passphrase noJournal =>
      cases name with
      | none => exact h
      | some name =>
        obtain ⟨rfl, -⟩ : d' = d ∧ names name := hop
        exact h.2.trans (if_neg fun hdev => hd hdev.1)
    | deactivate name =>
      have hfilter : s.mapped.filter (· ≠ name) = s.mapped := by
        refine List.filter_eq_self.mpr fun name' hname' => ?_
        refine decide_eq_true fun heq => hmapped name' hname' ?_
        exact heq ▸ hop
      change s' = _ at h
      rw [h, hfilter]
      split_ifs <;> rfl
    | mkfs path fs integrity =>
      obtain ⟨name, hname, rfl⟩ : ∃ name, names name ∧ path = Disk.node name := hop
      have hopen : ¬s.OpenAt (Disk.node name) := by
        rintro ⟨name', hname', heq⟩
        rw [Disk.node, Disk.node, String.append_right_inj] at heq
        exact hmapped name' hname' (heq ▸ hname)
      rwa [Disk.Acts, Disk.Overwrites, if_neg (hnode name).symm, if_neg hopen] at h
    | writeZeros => exact hop.elim
    | lvcreate => exact hop.elim
    | dmsetup name table =>
      cases table with
      | linear => exact h
      | snapshot => exact hop.elim
    | tune2fs => exact h.2
    | resize2fs => exact h.2
    | _ => exact h
  | _ => exact h.2

end

/-! ## What a program calls -/

theorem calls_determineStatus {P : Op → Prop} {debug : String → String} {config : VolumeConfig}
    (hexists : ∀ path, P (.pathExists path)) (hread : ∀ dev, P (.readHeader dev)) :
    (determineStatus debug config).Calls P := by
  refine .bind (calls_pathExists (hexists _)) fun active => ?_
  cases active with
  | true => exact calls_done
  | false =>
    refine .bind (calls_pathExists (hexists _)) fun present => ?_
    split_ifs
    · exact calls_done
    · exact calls_done
    · refine .bind (.attempt (calls_getInitState (hread _))) fun state => ?_
      rcases state with e | _ | _ | _ <;> exact calls_done

section
variable {dev : Path} {debug : String → String} {options : ConfigCheckOptions} {volume : VolumeFile}

/-- To look at volumes changes nothing. -/
theorem inert_printVolumes {volumes : List VolumeFile} :
    (printVolumes debug volumes).Calls (Op.Inert dev) :=
  .forEach fun _ _ => .bind (calls_determineStatus (fun _ => trivial) fun _ => trivial)
    fun _ => calls_done

theorem calls_continueOrThrow {P : Op → Prop} {error : String} :
    (continueOrThrow options error).Calls P := by
  unfold continueOrThrow
  split_ifs <;> exact calls_done

theorem inert_checkDevice : (checkDevice debug options volume).Calls (Op.Inert dev) := by
  refine .bind (calls_pathExists trivial) fun present => ?_
  cases present with
  | false => exact .bind calls_continueOrThrow fun _ => calls_done
  | true =>
    refine .bind (.attempt (.context (calls_isInitialized trivial))) fun initialized => ?_
    cases initialized with
    | error e => exact .bind calls_continueOrThrow fun _ => calls_done
    | ok initialized =>
      dsimp only
      split_ifs
      · exact .bind calls_continueOrThrow fun _ => calls_done
      · exact calls_done

theorem inert_checkKey {devIsInitialized : Bool} :
    (checkKey debug options volume devIsInitialized).Calls (Op.Inert dev) := by
  unfold checkKey
  by_cases hskip : options.skipCheckPassphrase
  · rw [if_pos hskip]
    exact calls_done
  · rw [if_neg hskip]
    refine .bind (.attempt (.context (calls_getKey trivial))) fun key => ?_
    cases key with
    | error e => exact calls_continueOrThrow
    | ok passphrase =>
      dsimp only
      split_ifs
      · refine .bind (.attempt (.context inert_checkPassphrase)) fun checked => ?_
        cases checked with
        | error e => exact calls_continueOrThrow
        | ok u => exact calls_done
      · exact calls_done

theorem inert_checkVolumes {isError : Bool} {volumes : List VolumeFile} :
    (checkVolumes debug options isError volumes).Calls (Op.Inert dev) := by
  induction volumes generalizing isError with
  | nil => exact calls_done
  | cons volume volumes ih =>
    refine .bind (.bind inert_checkDevice fun _ => .bind inert_checkKey fun _ => calls_done) ?_
    exact fun _ => ih

end

/-! ## Where a program writes -/

/-- The program stays within a device and some names, given that no mapping has a slash in its
name. -/
def StaysWithin {α : Type} (dev : Path) (names : String → Prop) (p : Cmd α) : Prop :=
  p.Ensures (fun (_ : Unit) op r _ => Named op r) (fun _ op => Within dev names op)
    (fun _ _ => True) ()

section
variable {α β : Type} {dev : Path} {names : String → Prop} {p : Cmd α}

theorem staysWithin_of_calls (h : p.Calls (Within dev names)) : StaysWithin dev names p :=
  h.ensures_true fun _ _ hop => hop

theorem StaysWithin.bind {f : α → Cmd β} (hp : StaysWithin dev names p)
    (hf : ∀ a, StaysWithin dev names (f a)) : StaysWithin dev names (p >>= f) :=
  Ensures.bind hp fun a _ _ => hf a

theorem StaysWithin.path {q : Cmd α} {es : List Call} (h : StaysWithin dev names p)
    (hpath : Path p es q) (hes : ∀ e ∈ es, Named e.op e.res) : ∀ e ∈ es, Within dev names e.op := by
  intro e he
  obtain ⟨pre, post, rfl⟩ := List.append_of_mem he
  obtain ⟨_, _, hwithin⟩ := (Safe.path h hpath (steps_answers hes)).2 pre e post rfl
  exact hwithin

variable {debug : String → String} {passphrase : Passphrase} {integrity : IntegrityType}
  {config : VolumeConfig}

theorem within_isDevInUse {d : Path} : (isDevInUse d).Calls (Within dev names) :=
  calls_isDevInUse trivial

theorem within_format : (format debug dev passphrase integrity).Calls (Within dev names) :=
  .context (.bind (calls_act trivial) fun _ => .bind (calls_act rfl) fun _ => calls_act rfl)

theorem within_markVolumeAsInitialized :
    (markVolumeAsInitialized debug dev).Calls (Within dev names) :=
  .context (.bind (calls_act trivial) fun _ => .bind (calls_act trivial) fun _ => calls_act rfl)

theorem within_checkPassphrase {d : Path} :
    (checkPassphrase debug d passphrase).Calls (Within dev names) :=
  .context (.bind (calls_act trivial) fun _ => .bind (calls_act trivial) fun _ => calls_act trivial)

theorem within_openWithCheckPassphrase {volume : String} (hname : names volume) :
    (openWithCheckPassphrase debug volume dev passphrase integrity).Calls (Within dev names) := by
  refine .bind (.context within_checkPassphrase) fun _ => .context ?_
  exact .bind (calls_act trivial) fun _ => .bind (calls_act trivial) fun _ => calls_act ⟨rfl, hname⟩

theorem within_close {volume : String} (hname : names volume) :
    (close volume).Calls (Within dev names) :=
  .context (.bind (calls_act trivial) fun _ => calls_act hname)

theorem within_forceMkfs {volume : String} {fs : MakeFsType} (hname : names volume)
    (hslash : volumePath volume = Disk.node volume) :
    (forceMkfs debug (volumePath volume) fs integrity).Calls (Within dev names) :=
  .context (calls_act ⟨volume, hname, hslash⟩)

theorem volumePath_eq_node {volume : String} (h : '/' ∉ volume.toList) :
    volumePath volume = Disk.node volume := by
  rw [Core.volumePath, if_neg fun hhead => h (List.mem_of_head? hhead), Disk.node]

/-- A volume that was opened has a name without a slash. -/
theorem ensures_openWithCheckPassphrase {volume : String} (hname : names volume) :
    (openWithCheckPassphrase debug volume dev passphrase integrity).Ensures
      (fun (_ : Unit) op r _ => Named op r) (fun _ op => Within dev names op)
      (fun _ _ => volumePath volume = Disk.node volume) () := by
  refine Ensures.bind (staysWithin_of_calls (.context within_checkPassphrase)) fun _ _ _ => ?_
  refine Ensures.context (ensures_act_bind trivial fun _ _ => ensures_act_bind trivial fun _ _ => ?_)
  exact ensures_act.mpr ⟨⟨rfl, hname⟩, fun _ hnamed => volumePath_eq_node (hnamed rfl)⟩

theorem staysWithin_openFs (hname : names config.volume)
    (hpath : volumePath config.volume = Disk.node config.volume) :
    StaysWithin dev names (openFs debug config integrity) := by
  refine staysWithin_of_calls ?_
  unfold openFs
  cases config.extraConfig.makefs with
  | none => exact calls_done
  | some makefs =>
    refine .bind (.attempt (within_forceMkfs hname hpath)) fun r => ?_
    cases r with
    | ok u => exact calls_done
    | error e => exact .bind (within_close hname) fun _ => calls_done

theorem staysWithin_temporaryDiskOpen (hname : names config.volume) :
    StaysWithin config.dev names (temporaryDiskOpen debug config) := by
  refine StaysWithin.bind (staysWithin_of_calls (.context (calls_getKey trivial))) fun _ => ?_
  refine StaysWithin.bind (staysWithin_of_calls within_format) fun _ => ?_
  refine Ensures.bind (ensures_openWithCheckPassphrase hname) fun _ _ hpath => ?_
  refine StaysWithin.bind (staysWithin_openFs hname hpath) fun _ => ?_
  exact staysWithin_of_calls within_markVolumeAsInitialized

theorem staysWithin_persistentDiskOpen (hname : names config.volume) :
    StaysWithin config.dev names (persistentDiskOpen debug config) := by
  refine staysWithin_of_calls (.bind (calls_isInitialized trivial) fun _ => .bind calls_bailIf fun _ => ?_)
  exact .bind (.context (calls_getKey trivial)) fun _ => within_openWithCheckPassphrase hname

theorem within_checkFsReady {checkFs : Bool} (hname : names config.volume) :
    (checkFsReady debug config checkFs).Calls (Within dev names) := by
  unfold checkFsReady
  split_ifs
  · refine .bind (calls_hasValuableData trivial) fun valuable => ?_
    cases valuable with
    | true => exact calls_done
    | false => exact .bind (.attempt (within_close hname)) fun _ => calls_done
  · exact calls_done

/-- Opening a volume stays within its device and its name. -/
theorem staysWithin_openForSpecificVolume {checkFs : Bool} (hname : names config.volume) :
    StaysWithin config.dev names (openForSpecificVolume debug config checkFs) := by
  refine StaysWithin.bind (staysWithin_of_calls (calls_pathExists trivial)) fun active => ?_
  cases active with
  | true => exact staysWithin_of_calls calls_done
  | false =>
    refine StaysWithin.bind (staysWithin_of_calls
      (.bind within_isDevInUse fun _ => calls_bailIf)) fun _ => ?_
    have hready : StaysWithin config.dev names (checkFsReady debug config checkFs) :=
      staysWithin_of_calls (within_checkFsReady hname)
    cases config.volumeType with
    | temporary => exact (staysWithin_temporaryDiskOpen hname).bind fun _ => hready
    | persistent => exact (staysWithin_persistentDiskOpen hname).bind fun _ => hready

/-- A name that is made up while a volume is initialized. -/
def TemporaryName (name : String) : Prop := ∃ random, name = ".cryptpilot-" ++ random

theorem volumePath_temporaryName {name : String} (h : TemporaryName name) :
    volumePath name = Disk.node name := by
  obtain ⟨random, rfl⟩ := h
  rw [Core.volumePath, if_neg, Disk.node]
  simp

theorem staysWithin_initFs :
    StaysWithin config.dev TemporaryName (initFs debug config passphrase integrity) := by
  unfold initFs
  cases config.extraConfig.makefs with
  | none => exact staysWithin_of_calls calls_done
  | some makefs =>
    refine Ensures.bind (Q := fun name _ => TemporaryName name) ?_ fun name _ hname => ?_
    · refine Ensures.bind (staysWithin_of_calls ⟨trivial, fun _ => calls_done⟩) fun random _ _ => ?_
      have hname : TemporaryName (".cryptpilot-" ++ random) := ⟨random, rfl⟩
      refine Ensures.bind (staysWithin_of_calls (within_openWithCheckPassphrase hname)) fun _ _ _ => ?_
      exact ensures_pure.mpr hname
    · exact staysWithin_of_calls (.ensuring
        (within_forceMkfs hname (volumePath_temporaryName hname)) (within_close hname))

/-- Initializing a volume stays within its device and a temporary name. -/
theorem staysWithin_init {options : InitOptions} :
    StaysWithin config.dev TemporaryName (init debug options config) := by
  unfold init
  cases config.volumeType with
  | temporary => exact staysWithin_of_calls calls_done
  | persistent =>
    refine StaysWithin.bind (staysWithin_of_calls
      (.bind (calls_determineStatus (fun _ => trivial) fun _ => trivial) fun status => ?_)) fun _ => ?_
    · cases status.kind <;> first | exact calls_done | exact calls_bailIf
    refine StaysWithin.bind (staysWithin_of_calls ?_) fun _ => ?_
    · unfold confirmInit
      split_ifs
      · exact calls_done
      · refine .bind ⟨trivial, fun _ => calls_done⟩ fun _ => .bind calls_bailIf fun _ => ?_
        exact .bind ⟨trivial, fun _ => calls_done⟩ fun _ => calls_bailIf
    refine StaysWithin.bind (staysWithin_of_calls
      (.bind within_isDevInUse fun _ => calls_bailIf)) fun _ => ?_
    refine StaysWithin.bind (staysWithin_of_calls (.context (calls_getKey trivial))) fun _ => ?_
    refine StaysWithin.bind (staysWithin_of_calls within_format) fun _ => ?_
    refine StaysWithin.bind staysWithin_initFs fun _ => ?_
    exact staysWithin_of_calls within_markVolumeAsInitialized

end

/-! ## What a run does -/

section
variable {α δ : Type} {dev d : Path} {names : String → Prop} {s s' : Disk δ} {p q : Cmd α}
  {es : List Call}

theorem named_of_steps (h : Steps (Disk.Step dev) s es s') : ∀ e ∈ es, Named e.op e.res := by
  intro e he
  obtain ⟨t, t', hstep⟩ := h.mem he
  exact named_of_step hstep

/-- A program that stays within another device changes nothing. -/
theorem StaysWithin.unchanged (h : StaysWithin d names p) (hd : d ≠ dev)
    (hnode : ∀ name, dev ≠ Disk.node name) (hmapped : ∀ name ∈ s.mapped, ¬names name)
    (hpath : Path p es q) (hsteps : Steps (Disk.Step dev) s es s') : s' = s := by
  have hwithin := h.path hpath (named_of_steps hsteps)
  refine hsteps.invariant (I := fun t => t = s) rfl fun e he t t' ht hstep => ?_
  subst ht
  exact (hwithin e he).unchanged hd hnode hmapped hstep

theorem mapped_of_overwrites {path : Path} {content : Content → Prop}
    (h : s.Overwrites dev path content s') : s'.mapped = s.mapped := by
  unfold Disk.Overwrites at h
  split_ifs at h
  · obtain ⟨header, _, rfl⟩ := h
    rfl
  · obtain ⟨c, d, _, _, rfl⟩ := h
    rfl
  · rw [h]

/-- A mapping that is there was there before, or was made. -/
theorem mapped_of_step {op : Op} {r : op.Res} (h : s.Step dev op r s') {name : String}
    (hname : name ∈ s'.mapped) : name ∈ s.mapped ∨
      ∃ passphrase noJournal, op = .act (.activateByPassphrase (some name) dev passphrase noJournal) := by
  cases op with
  | act action =>
    change Except String Unit at r
    change s.Acts dev action r s' at h
    cases action with
    | cryptFormat d subsystem integrity =>
      rw [Disk.Acts] at h
      split_ifs at h
      · obtain ⟨_, header, _, rfl⟩ := h
        exact .inl hname
      · exact .inl (h ▸ hname)
    | addByKey d passphrase =>
      rw [Disk.Acts] at h
      split_ifs at h
      · obtain ⟨header, _, rfl⟩ := h
        exact .inl hname
      · exact .inl (h ▸ hname)
    | setLabel d subsystem =>
      rw [Disk.Acts] at h
      split_ifs at h
      · obtain ⟨header, _, rfl⟩ := h
        exact .inl hname
      · exact .inl (h ▸ hname)
    | activateByPassphrase volume d passphrase noJournal =>
      cases volume with
      | none => exact .inl (h ▸ hname)
      | some volume =>
        obtain ⟨_, rfl⟩ := h
        split_ifs at hname with hd
        · obtain ⟨rfl, -⟩ := hd
          rcases List.mem_cons.mp hname with rfl | hname
          · exact .inr ⟨passphrase, noJournal, rfl⟩
          · exact .inl hname
        · exact .inl hname
    | deactivate volume =>
      change s' = _ at h
      subst h
      split_ifs at hname
      · exact .inl (List.mem_of_mem_filter hname)
      · exact .inl hname
    | mkfs path fs integrity =>
      rw [Disk.Acts] at h
      exact .inl (mapped_of_overwrites h ▸ hname)
    | writeZeros path =>
      rw [Disk.Acts] at h
      exact .inl (mapped_of_overwrites h ▸ hname)
    | lvcreate path =>
      rw [Disk.Acts] at h
      split_ifs at h
      · obtain ⟨_, rfl⟩ := h
        exact .inl hname
      · exact .inl (h ▸ hname)
    | dmsetup volume table =>
      cases table with
      | linear => exact .inl (h ▸ hname)
      | snapshot size origin cow persistent =>
        rcases h.snapshot with rfl | rfl
        · exact .inl hname
        · exact .inl hname
    | tune2fs => exact .inl (h.2 ▸ hname)
    | resize2fs => exact .inl (h.2 ▸ hname)
    | _ => exact .inl (h ▸ hname)
  | _ => exact .inl (h.2 ▸ hname)

theorem StaysWithin.mapped (h : StaysWithin d names p) (hpath : Path p es q)
    (hsteps : Steps (Disk.Step dev) s es s') :
    ∀ name ∈ s'.mapped, name ∈ s.mapped ∨ names name := by
  have hwithin := h.path hpath (named_of_steps hsteps)
  refine hsteps.invariant (I := fun t => ∀ name ∈ t.mapped, name ∈ s.mapped ∨ names name)
    (fun _ => .inl) fun e he t t' ht hstep name hname => ?_
  rcases mapped_of_step hstep hname with hname | ⟨passphrase, noJournal, hop⟩
  · exact ht name hname
  · have hactivate := hwithin e he
    rw [hop] at hactivate
    exact .inr hactivate.2

end

/-! ## The boot service -/

section
variable {δ : Type} {debug : String → String} {volumes : List VolumeFile} {m m' : Path → Disk δ}
  {es : List Call} {r : Except String Unit}

/-- All devices at once. -/
def MachineStep (m : Path → Disk δ) (op : Op) (r : op.Res) (m' : Path → Disk δ) : Prop :=
  ∀ dev, (m dev).Step dev op r (m' dev)

theorem steps_at (h : Steps MachineStep m es m') (dev : Path) :
    Steps (Disk.Step dev) (m dev) es (m' dev) := by
  induction h with
  | nil => exact .nil _
  | cons hstep _ ih => exact .cons (hstep dev) ih

/-- The calls are those of opening the volume, from beginning to end, and they alone take its device
from the one state to the other. -/
def OpenedBy (debug : String → String) (m m' : Path → Disk δ) (v : VolumeFile)
    (calls : List Call) : Prop :=
  ∃ r, Path (openForSpecificVolume debug v.config false) calls (.done r) ∧
    Steps (Disk.Step v.config.dev) (m v.config.dev) calls (m' v.config.dev)

/-- The volumes that the boot service opens. -/
def autoOpened (volumes : List VolumeFile) : List VolumeFile :=
  volumes.filter (·.autoOpen = some true)

/-- Each volume has a device of its own, which is not itself a mapping. -/
structure Apart (volumes : List VolumeFile) : Prop where
  dev : ∀ v ∈ volumes, ∀ w ∈ volumes, v.config.dev = w.config.dev → v = w
  node : ∀ v ∈ volumes, ∀ name, v.config.dev ≠ Disk.node name

/-- The names of volumes are used for nothing else. -/
def NamesFree (volumes : List VolumeFile) (m : Path → Disk δ) : Prop :=
  ∀ v ∈ volumes, ∀ w ∈ volumes, w.volume ∈ (m v.config.dev).mapped → w = v

/-- One volume: nothing is done to the others. -/
theorem open_run (hsorted : volumes.Pairwise fun a b => a.volume < b.volume)
    (hapart : Apart volumes) {w : VolumeFile} (hw : w ∈ volumes) (hfree : NamesFree volumes m)
    {calls : List Call} (hpath : Path (openForSpecificVolume debug w.config false) calls (.done r))
    (hsteps : Steps MachineStep m calls m') :
    OpenedBy debug m m' w calls ∧ NamesFree volumes m' ∧
      ∀ v ∈ volumes, v ≠ w → m' v.config.dev = m v.config.dev := by
  have hwithin : StaysWithin w.config.dev (· = w.volume)
      (openForSpecificVolume debug w.config false) := staysWithin_openForSpecificVolume rfl
  have hother (v : VolumeFile) (hv : v ∈ volumes) (hne : v ≠ w) :
      m' v.config.dev = m v.config.dev := by
    refine hwithin.unchanged (fun hdev => hne (hapart.dev v hv w hw hdev.symm))
      (hapart.node v hv) ?_ hpath (steps_at hsteps _)
    rintro name hname rfl
    exact hne (hfree v hv w hw hname).symm
  refine ⟨⟨r, hpath, steps_at hsteps _⟩, fun v hv u hu hname => ?_, hother⟩
  by_cases hne : v = w
  · subst hne
    rcases hwithin.mapped hpath (steps_at hsteps _) _ hname with hname | hname
    · exact hfree v hv u hu hname
    · exact eq_of_volume_eq hsorted hu hv hname
  · rw [hother v hv hne] at hname
    exact hfree v hv u hu hname

/-- The calls for one volume: none, or those of opening it. -/
theorem autoOpen_calls {w : VolumeFile} (hpath : Path (autoOpen debug w) es (.done r)) :
    r = .ok () ∧
      if w.autoOpen = some true then
        ∃ r', Path (openForSpecificVolume debug w.config false) es (.done r')
      else es = [] := by
  by_cases hauto : w.autoOpen = some true
  · rw [autoOpen, if_neg (not_not_intro hauto)] at hpath
    obtain ⟨es₁, outcome, es₂, rfl, hboth, hrest⟩ := Path.of_andThen hpath
    obtain ⟨es₁, r', es₃, rfl, hopen, hattempt⟩ := Path.of_andThen hboth
    obtain ⟨rfl, houtcome⟩ := hattempt.of_done
    cases houtcome
    obtain ⟨rfl, hr⟩ := hrest.of_done
    cases hr
    rw [List.append_nil, List.append_nil, if_pos hauto]
    exact ⟨rfl, r', hopen⟩
  · rw [autoOpen, if_pos hauto] at hpath
    obtain ⟨rfl, hr⟩ := hpath.of_done
    cases hr
    rw [if_neg hauto]
    exact ⟨rfl, rfl⟩

/-- The loop, for the volumes that are left. -/
theorem forEach_autoOpen_run (hsorted : volumes.Pairwise fun a b => a.volume < b.volume)
    (hapart : Apart volumes) {left : List VolumeFile} (hleft : left.Nodup)
    (hmem : ∀ w ∈ left, w ∈ volumes) (hfree : NamesFree volumes m)
    (hpath : Path (forEach (autoOpen debug) left) es (.done r)) (hsteps : Steps MachineStep m es m') :
    r = .ok () ∧ (∃ opens, es = opens.flatten ∧
      List.Forall₂ (OpenedBy debug m m') (autoOpened left) opens) ∧
      ∀ v ∈ volumes, v ∉ autoOpened left → m' v.config.dev = m v.config.dev := by
  induction left generalizing m es with
  | nil =>
    obtain ⟨rfl, hr⟩ := hpath.of_done
    cases hr
    obtain rfl := steps_nil.mp hsteps
    exact ⟨rfl, ⟨[], rfl, .nil⟩, fun _ _ _ => rfl⟩
  | cons w left ih =>
    obtain ⟨hw, hmem⟩ := List.forall_mem_cons.mp hmem
    obtain ⟨hnot, hleft⟩ := List.nodup_cons.mp hleft
    obtain ⟨es₁, r₁, es₂, rfl, hfirst, hrest⟩ := Path.of_andThen hpath
    obtain ⟨m₁, hsteps₁, hsteps₂⟩ := steps_append.mp hsteps
    obtain ⟨rfl, hcalls⟩ := autoOpen_calls hfirst
    by_cases hauto : w.autoOpen = some true
    · rw [if_pos hauto] at hcalls
      obtain ⟨r', hopen⟩ := hcalls
      obtain ⟨⟨_, hopen', hdev⟩, hfree₁, hother⟩ := open_run hsorted hapart hw hfree hopen hsteps₁
      obtain ⟨rfl, ⟨opens, rfl, hopens⟩, hsame⟩ := ih hleft hmem hfree₁ hrest hsteps₂
      have hfilter : autoOpened (w :: left) = w :: autoOpened left :=
        List.filter_cons_of_pos (decide_eq_true hauto)
      have hmem' : ∀ v ∈ autoOpened left, v ∈ left := fun v hv => List.mem_of_mem_filter hv
      rw [hfilter]
      refine ⟨rfl, ⟨es₁ :: opens, rfl, .cons ?_ ?_⟩, fun v hv hskip => ?_⟩
      · -- its device stays as it is while the others are opened
        rw [OpenedBy, hsame w hw fun hin => hnot (hmem' w hin)]
        exact ⟨_, hopen', hdev⟩
      · -- and it did not change the devices of the others
        have hbefore : ∀ v ∈ autoOpened left, m₁ v.config.dev = m v.config.dev := by
          intro v hv
          have hleft' := hmem' v hv
          exact hother v (hmem v hleft') fun heq => hnot (heq ▸ hleft')
        refine ((List.forall₂_and_left _ _).mpr ⟨hbefore, hopens⟩).imp fun v calls hboth => ?_
        rw [OpenedBy, ← hboth.1]
        exact hboth.2
      · obtain ⟨hne, hskip⟩ := not_or.mp (mt List.mem_cons.mpr hskip)
        exact (hsame v hv hskip).trans (hother v hv hne)
    · rw [if_neg hauto] at hcalls
      subst hcalls
      obtain rfl := steps_nil.mp hsteps₁
      have hfilter : autoOpened (w :: left) = autoOpened left :=
        List.filter_cons_of_neg (by simpa using hauto)
      rw [hfilter]
      exact ih hleft hmem hfree hrest hsteps₂

theorem printVolumes_run {q : Cmd Unit} (hpath : Path (printVolumes debug volumes) es q)
    (hsteps : Steps MachineStep m es m') : m' = m := by
  funext dev
  have hinert : (printVolumes debug volumes).Calls (Op.Inert dev) := inert_printVolumes
  refine (steps_at hsteps dev).invariant (I := fun t => t = m dev) rfl fun e he t t' ht hstep => ?_
  exact (hstep.inert (hinert.path hpath e he)).trans ht

/-- To look at volumes never fails. -/
theorem total_printVolumes : (printVolumes debug volumes).Total := by
  refine .forEach fun volume => .bind ?_ fun _ => total_pure
  refine .bind total_call fun active => ?_
  cases active with
  | true => exact total_pure
  | false =>
    refine .bind total_call fun present => ?_
    split_ifs
    · exact total_pure
    · exact total_pure
    · refine .bind total_attempt fun state => ?_
      rcases state with e | _ | _ | _ <;> exact total_pure

/-- **The boot service opens every volume as if it were alone.** It never fails once the
configuration is loaded. Between two looks at the status of all volumes, its calls are those of
opening the volumes with `auto_open`, each from beginning to end, in the order of their names. The
calls for a volume take its device from the state at the beginning to the one at the end, and nothing
is done to the devices of the other volumes. -/
theorem auto_open_alone {Text : Type} {toml : Format Text} {configDir : Path}
    {entries : List (DirEntry Text)}
    (hloaded : loadVolumeConfigs toml debug configDir (some (.ok (entries.map .ok))) = .ok volumes)
    (hapart : Apart volumes) (hfree : NamesFree volumes m)
    (hpath : Path (setupUserProvidedVolumes debug (.ok volumes)) es (.done r))
    (hsteps : Steps MachineStep m es m') :
    r = .ok () ∧
    (∃ before opens after, es = before ++ (opens.flatten ++ after) ∧
      Path (printVolumes debug volumes) before (.done (.ok ())) ∧
      List.Forall₂ (OpenedBy debug m m') (autoOpened volumes) opens ∧
      Path (printVolumes debug volumes) after (.done (.ok ()))) ∧
    ∀ v ∈ volumes, v.autoOpen ≠ some true → m' v.config.dev = m v.config.dev := by
  obtain ⟨-, hsorted⟩ := loadVolumeConfigs_eq_ok_iff.mp hloaded
  have hnodup : volumes.Nodup := hsorted.imp fun hlt => ne_of_apply_ne VolumeFile.volume hlt.ne
  change Path (if volumes.isEmpty then pure () else _) es _ at hpath
  split_ifs at hpath with hempty
  · obtain ⟨rfl, hr⟩ := hpath.of_done
    cases hr
    obtain rfl : volumes = [] := List.isEmpty_iff.mp hempty
    exact ⟨rfl, ⟨[], [], [], rfl, .nil _, .nil, .nil _⟩, fun v hv => by cases hv⟩
  · -- what is printed before and after changes nothing
    obtain ⟨es₁, r₁, es', rfl, hbefore, hpath⟩ := Path.of_andThen hpath
    obtain ⟨⟨⟩, rfl⟩ := total_printVolumes.path hbefore
    obtain ⟨es₂, r₂, es₃, rfl, hopen, hafter⟩ := Path.of_andThen hpath
    obtain ⟨m₁, hsteps₁, hsteps'⟩ := steps_append.mp hsteps
    obtain ⟨m₂, hsteps₂, hsteps₃⟩ := steps_append.mp hsteps'
    obtain rfl : m₁ = m := printVolumes_run hbefore hsteps₁
    obtain ⟨rfl, ⟨opens, rfl, hopens⟩, hsame⟩ :=
      forEach_autoOpen_run hsorted hapart hnodup (fun _ => id) hfree hopen hsteps₂
    obtain rfl : m' = m₂ := printVolumes_run hafter hsteps₃
    obtain ⟨⟨⟩, rfl⟩ := total_printVolumes.path hafter
    refine ⟨rfl, ⟨es₁, opens, es₃, rfl, hbefore, hopens, hafter⟩, fun v hv hskip => ?_⟩
    refine hsame v hv fun hin => hskip ?_
    simpa using (List.mem_filter.mp hin).2

end

theorem ne_node {dev : Path} (h : ¬"/dev/mapper/".toList <+: dev.toList) (name : String) :
    dev ≠ Disk.node name := by
  rintro rfl
  exact h (by simp [Disk.node])

/-! One of two volumes is open, and the device of the other one is in use. -/

def twoDisks (dev : Path) : Disk Unit :=
  ⟨true, Header.readyMark, if dev = "/dev/sdb" then ["data"] else [], .blank, none⟩

def statusesCalls : List Call :=
  [⟨.pathExists "/dev/mapper/data", true⟩, ⟨.pathExists "/dev/mapper/swap", false⟩,
    ⟨.pathExists "/dev/sdc", false⟩]

def swapCalls : List Call :=
  [⟨.pathExists "/dev/mapper/swap", false⟩, ⟨.openExclusive "/dev/sdc", ExclusiveOpen.busy⟩]

def busyCalls : List Call := swapCalls ++ statusesCalls

theorem path_busyCalls : Path (setupUserProvidedVolumes id (.ok [dataFile, swapFile]))
    (statusesCalls ++ busyCalls) (.done (.ok ())) :=
  path_of_replay (by rfl)

/-- The calls are possible on any disk that is open as `data` or not at all. -/
theorem step_busyCalls (dev : Path) (d : Disk Unit) (hpresent : d.present = true)
    (hmapped : ∀ volume ∈ d.mapped, volume = "data") :
    ∀ e ∈ statusesCalls ++ busyCalls, d.Step dev e.op e.res d := by
  have hexists (path : Path) (r : Bool) (hr : path = "/dev/mapper/data" → r = true) :
      d.Step dev (.pathExists path) r d := by
    refine ⟨⟨fun _ _ => hpresent, ?_⟩, rfl⟩
    rintro ⟨volume, hvolume, rfl⟩
    obtain rfl := hmapped volume hvolume
    exact hr (by decide)
  have hdata := hexists "/dev/mapper/data" true fun _ => rfl
  have hswap := hexists "/dev/mapper/swap" false (by decide)
  have hdev := hexists "/dev/sdc" false (by decide)
  have hbusy : d.Step dev (.openExclusive "/dev/sdc") ExclusiveOpen.busy d :=
    ⟨fun _ hr => (by cases hr), rfl⟩
  intro e he
  simp only [statusesCalls, swapCalls, busyCalls, List.cons_append, List.nil_append, List.mem_cons,
    List.not_mem_nil, or_false] at he
  rcases he with rfl | rfl | rfl | rfl | rfl | rfl | rfl | rfl <;> assumption

/-! Before that, no volume is open, and the first one is opened when the machine starts. -/

def autoEntry : DirEntry Table :=
  ⟨"b.toml", true, .ok [("volume", .string "data"), ("dev", .string "/dev/sdb"),
    ("auto_open", .boolean true), ("encrypt", .table [("exec", .table [("command", .string "key")])])]⟩

theorem load_autoEntries (debug : Path → String) (configDir : Path) :
    loadVolumeConfigs tableFormat debug configDir
      (some (.ok ([autoEntry, swapEntry].map .ok))) = .ok [autoFile, swapFile] := by
  have hread : readAll tableFormat [autoEntry, swapEntry] = [.ok autoFile, .ok swapFile] := by rfl
  exact loadVolumeConfigs_eq_ok_iff.mpr ⟨.of_eq hread, by decide⟩

def closedDisk : Disk Unit := ⟨true, Header.readyMark, [], .blank, none⟩

def closedCalls : List Call :=
  [⟨.pathExists "/dev/mapper/data", false⟩, ⟨.pathExists "/dev/sdb", false⟩,
    ⟨.pathExists "/dev/mapper/swap", false⟩, ⟨.pathExists "/dev/sdc", false⟩]

def dataCalls : List Call := openCalls autoFile (.ok Header.readyMark) [107]

theorem path_bootCalls : Path (setupUserProvidedVolumes id (.ok [autoFile, swapFile]))
    (closedCalls ++ (dataCalls ++ busyCalls)) (.done (.ok ())) := by
  have hdata : Path (autoOpen id autoFile) dataCalls (.done (.ok ())) :=
    .bind_done (path_attempt (path_open id rfl initState_readyMark)) rfl
  have hswap : Path (forEach (autoOpen id) [swapFile]) swapCalls (.done (.ok ())) :=
    path_of_replay (by rfl)
  have hbefore : Path (printVolumes id [autoFile, swapFile]) closedCalls (.done (.ok ())) :=
    path_of_replay (by rfl)
  have hafter : Path (printVolumes id [autoFile, swapFile]) statusesCalls (.done (.ok ())) :=
    path_of_replay (by rfl)
  have hboth : Path (forEach (autoOpen id) [autoFile, swapFile]) (dataCalls ++ swapCalls)
    (.done (.ok ())) := .bind hdata hswap
  change Path (do printVolumes id [autoFile, swapFile]; forEach (autoOpen id) [autoFile, swapFile]
                  printVolumes id [autoFile, swapFile]) _ _
  rw [busyCalls, ← List.append_assoc dataCalls]
  exact .bind hbefore (.bind hboth hafter)

theorem steps_bootCalls : Steps MachineStep (fun _ => closedDisk)
    (closedCalls ++ (dataCalls ++ busyCalls)) twoDisks := by
  have hclosed (path : Path) : MachineStep (fun _ => closedDisk) (.pathExists path) false
      (fun _ => closedDisk) := by
    refine fun dev => ⟨⟨fun _ hr => (by cases hr), ?_⟩, rfl⟩
    rintro ⟨volume, hvolume, -⟩
    cases hvolume
  have hactivate : MachineStep (fun _ => closedDisk)
      (.act (.activateByPassphrase (some "data") "/dev/sdb" [107] false)) (Except.ok ()) twoDisks := by
    refine fun dev => ⟨fun _ => by decide, ?_⟩
    by_cases hdev : dev = "/dev/sdb"
    · subst hdev
      rfl
    · rw [if_neg fun h => hdev h.1.symm, twoDisks, if_neg hdev]
      rfl
  have hdata : Steps MachineStep (fun _ => closedDisk) dataCalls twoDisks := by
    -- only the last call changes a device
    refine .cons (hclosed _) (.cons (fun _ => ⟨fun _ _ => rfl, rfl⟩)
      (.cons (fun _ => ⟨fun _ _ h => (Except.ok.inj h).symm, rfl⟩) (.cons (fun _ => ⟨trivial, rfl⟩) ?_)))
    exact .cons (fun _ => rfl) (.cons (fun _ => rfl) (.cons (fun _ => rfl) (.cons (fun _ => rfl)
      (.cons (fun _ => rfl) (.cons hactivate (.nil _))))))
  have hbusy : Steps MachineStep twoDisks busyCalls twoDisks := by
    refine steps_self fun e he dev => step_busyCalls dev (twoDisks dev) rfl (fun volume hvolume => ?_)
      e (List.mem_append_right _ he)
    unfold twoDisks at hvolume
    split_ifs at hvolume
    · exact List.mem_singleton.mp hvolume
    · cases hvolume
  refine steps_append.mpr ⟨_, steps_self fun e he => ?_, steps_append.mpr ⟨_, hdata, hbusy⟩⟩
  simp only [closedCalls, List.mem_cons, List.not_mem_nil, or_false] at he
  rcases he with rfl | rfl | rfl | rfl <;> exact hclosed _

theorem auto_open_alone_boot :
    ∃ before opens after, closedCalls ++ (dataCalls ++ busyCalls) =
        before ++ (opens.flatten ++ after) ∧
      Path (printVolumes id [autoFile, swapFile]) before (.done (.ok ())) ∧
      List.Forall₂ (OpenedBy id (fun _ => closedDisk) twoDisks) [autoFile, swapFile] opens ∧
      Path (printVolumes id [autoFile, swapFile]) after (.done (.ok ())) := by
  have hapart : Apart [autoFile, swapFile] := by
    refine ⟨by decide, ?_⟩
    rintro v (_ | ⟨_, _ | ⟨_, ⟨⟩⟩⟩) <;> exact ne_node (by decide)
  have hfree : NamesFree [autoFile, swapFile] fun _ => closedDisk := by
    intro v _ w _ hname
    cases hname
  exact (auto_open_alone (load_autoEntries id "/etc/cryptpilot/volumes") hapart hfree path_bootCalls
    steps_bootCalls).2.1

/-! ## Many commands at once -/

/-- The name of a volume that has this device. -/
def Owns (volumes : List VolumeFile) (dev : Path) (name : String) : Prop :=
  ∃ v ∈ volumes, v.volume = name ∧ v.config.dev = dev

/-- Nothing is written, or it is written elsewhere. The device is opened under names of its own. -/
def Spares (volumes : List VolumeFile) (dev : Path) (op : Op) : Prop :=
  (op.Quiet ∨ ∃ d names, d ≠ dev ∧ (∀ name, names name → ¬Owns volumes dev name) ∧
    Within d names op) ∧
  ∀ name passphrase noJournal,
    op = .act (.activateByPassphrase (some name) dev passphrase noJournal) → Owns volumes dev name

/-- What is on a device. -/
def SameContent {δ : Type} (s s' : Disk δ) : Prop :=
  s'.header = s.header ∧ s'.content = s.content ∧ s'.data = s.data

section
variable {δ : Type} {volumes : List VolumeFile} {dev : Path} {s s' : Disk δ} {op : Op} {r : op.Res}

theorem sameContent_of_quiet (hop : op.Quiet) (h : s.Step dev op r s') : SameContent s s' := by
  by_cases hinert : op.Inert dev
  · rw [h.inert hinert]
    exact ⟨rfl, rfl, rfl⟩
  · cases op with
    | act action =>
      change Except String Unit at r
      change s.Acts dev action r s' at h
      cases action with
      | activateByPassphrase volume d passphrase noJournal =>
        cases volume with
        | none => exact (hinert hop).elim
        | some volume =>
          obtain ⟨-, rfl⟩ := h
          split_ifs <;> exact ⟨rfl, rfl, rfl⟩
      | deactivate volume =>
        change s' = _ at h
        subst h
        split_ifs <;> exact ⟨rfl, rfl, rfl⟩
      | _ => exact (hinert hop).elim
    | _ => exact (hinert hop).elim

/-- What is on the device stays, and it is open under names of its own. -/
theorem Spares.step (hop : Spares volumes dev op) (hnode : ∀ name, dev ≠ Disk.node name)
    (hmapped : ∀ name ∈ s.mapped, Owns volumes dev name) (h : s.Step dev op r s') :
    SameContent s s' ∧ ∀ name ∈ s'.mapped, Owns volumes dev name := by
  refine ⟨?_, fun name hname => ?_⟩
  · rcases hop.1 with hquiet | ⟨d, names, hd, hnames, hwithin⟩
    · exact sameContent_of_quiet hquiet h
    · rw [hwithin.unchanged hd hnode (fun name hname hown => hnames name hown (hmapped name hname)) h]
      exact ⟨rfl, rfl, rfl⟩
  · rcases mapped_of_step h hname with hname | ⟨passphrase, noJournal, rfl⟩
    · exact hmapped name hname
    · exact hop.2 name passphrase noJournal rfl

theorem spares_of_inert (h : op.Inert dev) : Spares volumes dev op := by
  refine ⟨.inl h.quiet, ?_⟩
  rintro name passphrase noJournal rfl
  exact (h rfl).elim

end

section
variable {α : Type} {debug : String → String} {volumes : List VolumeFile} {dev d : Path}
  {names : String → Prop} {p : Cmd α}

/-- The program spares a device, given that no mapping has a slash in its name. -/
def Sparing (volumes : List VolumeFile) (dev : Path) (p : Cmd α) : Prop :=
  p.Safe (fun (_ : Unit) op r _ => Named op r) (fun _ op => Spares volumes dev op)
    (fun _ _ => True) ()

theorem sparing_of_calls (h : p.Calls (Spares volumes dev)) : Sparing volumes dev p :=
  h.safe (fun _ _ _ _ _ _ _ => trivial) (fun _ _ hop _ => hop) trivial

theorem sparing_of_inert (h : p.Calls (Op.Inert dev)) : Sparing volumes dev p :=
  sparing_of_calls (h.mono fun _ => spares_of_inert)

theorem sparing_elsewhere (h : StaysWithin d names p) (hd : d ≠ dev)
    (hnames : ∀ name, names name → ¬Owns volumes dev name) : Sparing volumes dev p := by
  refine Safe.mono h (fun _ op hop => ⟨.inr ⟨d, names, hd, hnames, hop⟩, ?_⟩) fun _ _ _ => trivial
  rintro name passphrase noJournal rfl
  exact (hd hop.1.symm).elim

theorem sparing_own (h : StaysWithin dev names p) (hquiet : p.Calls Op.Quiet)
    (hnames : ∀ name, names name → Owns volumes dev name) : Sparing volumes dev p := by
  refine (Safe.calls h hquiet).mono (fun _ op hop => ⟨.inl hop.2, ?_⟩) fun _ _ _ => trivial
  rintro name passphrase noJournal rfl
  exact hnames name hop.1.2

theorem Sparing.forEach {f : α → Cmd Unit} {xs : List α}
    (h : ∀ x ∈ xs, Sparing volumes dev (f x)) : Sparing volumes dev (forEach f xs) :=
  Safe.forEach (I := fun _ => True) (fun x hx _ _ => h x hx) trivial

theorem Sparing.bind {β : Type} {f : α → Cmd β} (hp : Sparing volumes dev p)
    (hf : ∀ a, Sparing volumes dev (f a)) : Sparing volumes dev (p >>= f) :=
  Safe.bind hp (fun a _ _ => hf a) fun _ _ _ => trivial

/-- Opening any volume, if no temporary one has the device. -/
theorem sparing_openForSpecificVolume
    (hsorted : volumes.Pairwise fun a b => a.volume < b.volume)
    (htemporary : ∀ v ∈ volumes, v.config.volumeType = .temporary → v.config.dev ≠ dev)
    {v : VolumeFile} (hv : v ∈ volumes) {checkFs : Bool} :
    Sparing volumes dev (openForSpecificVolume debug v.config checkFs) := by
  have hwithin : StaysWithin v.config.dev (· = v.volume)
      (openForSpecificVolume debug v.config checkFs) := staysWithin_openForSpecificVolume rfl
  by_cases hdev : v.config.dev = dev
  · have hpersistent : v.config.volumeType = .persistent := by
      cases htype : v.config.volumeType with
      | temporary => exact (htemporary v hv htype hdev).elim
      | persistent => rfl
    rw [hdev] at hwithin
    refine sparing_own hwithin (quiet_openForSpecificVolume hpersistent) ?_
    rintro _ rfl
    exact ⟨v, hv, rfl, hdev⟩
  · refine sparing_elsewhere hwithin hdev ?_
    rintro _ rfl ⟨w, hw, hname, hwdev⟩
    exact hdev (eq_of_volume_eq hsorted hw hv hname ▸ hwdev)

theorem sparing_closeVolume {volume : String} : Sparing volumes dev (closeVolume volume) := by
  have hclose (action : Action) (hquiet : (Op.act action).Quiet)
      (hother : ∀ name passphrase noJournal,
        action ≠ .activateByPassphrase (some name) dev passphrase noJournal) :
      (act action).Calls (Spares volumes dev) :=
    calls_act ⟨.inl hquiet, fun _ _ _ h => (hother _ _ _ (Op.act.inj h)).elim⟩
  refine sparing_of_calls (.bind (calls_pathExists (spares_of_inert trivial)) fun active => ?_)
  cases active with
  | true =>
    exact .context (.bind (hclose _ trivial fun _ _ _ h => by cases h) fun _ =>
      hclose _ trivial fun _ _ _ h => by cases h)
  | false => exact calls_done

/-- Every command, but for an `init` of a volume on the device. -/
theorem sparing_run (hsorted : volumes.Pairwise fun a b => a.volume < b.volume)
    (htemporary : ∀ v ∈ volumes, v.config.volumeType = .temporary → v.config.dev ≠ dev)
    (hnames : ∀ name, Owns volumes dev name → ¬TemporaryName name) {command : CryptSubcommand}
    (hinit : ∀ options names, command = .init options names →
      ∀ name ∈ names, ¬Owns volumes dev name) :
    Sparing volumes dev (command.run debug (.ok volumes)) := by
  cases command with
  | showVolumes names => exact sparing_of_inert inert_printVolumes
  | init options names =>
    refine .forEach fun name hname => ?_
    cases hfound : getVolumeConfig (.ok volumes) name with
    | error e => exact trivial
    | ok v =>
      obtain ⟨hv, rfl⟩ := mem_of_getVolumeConfig hfound
      have hdev : v.config.dev ≠ dev :=
        fun hdev => hinit options names rfl _ hname ⟨v, hv, rfl, hdev⟩
      exact sparing_elsewhere staysWithin_init hdev fun name htemp hown => hnames name hown htemp
  | openVolumes names checkFs =>
    refine .forEach fun name _ => ?_
    cases hfound : getVolumeConfig (.ok volumes) name with
    | error e => exact trivial
    | ok v =>
      exact sparing_openForSpecificVolume hsorted htemporary (mem_of_getVolumeConfig hfound).1
  | closeVolumes names => exact .forEach fun _ _ => sparing_closeVolume
  | configCheck options =>
    exact sparing_of_inert (.bind calls_done fun _ => .bind inert_checkVolumes fun _ => calls_bailIf)
  | bootService =>
    show Sparing volumes dev (if volumes.isEmpty then pure () else _)
    split_ifs
    · exact trivial
    · refine .bind (sparing_of_inert inert_printVolumes) fun _ => .bind (.forEach fun v hv => ?_)
        fun _ => sparing_of_inert inert_printVolumes
      unfold autoOpen
      split_ifs
      · exact trivial
      · refine .bind ?_ fun _ => trivial
        exact safe_andThen.mpr ((sparing_openForSpecificVolume hsorted htemporary hv).post
          fun _ _ _ => trivial)

/-- **What is on a device stays there.** Any number of commands run at once, each with the
configuration in the order that it found it in, and each is stopped anywhere. If no temporary volume
has the device and no `init` names a volume that has it, then its header, the file system on it and
the data are what they were. -/
theorem device_untouched {δ ι Text : Type} [DecidableEq ι] {toml : Format Text} {configDir : Path}
    {entries : List (DirEntry Text)} {order : ι → List (DirEntry Text)}
    (hloaded : loadVolumeConfigs toml debug configDir (some (.ok (entries.map .ok))) = .ok volumes)
    (horder : ∀ i, entries.Perm (order i)) (hnode : ∀ name, dev ≠ Disk.node name)
    (htemporary : ∀ v ∈ volumes, v.config.volumeType = .temporary → v.config.dev ≠ dev)
    (hnames : ∀ name, Owns volumes dev name → ¬TemporaryName name)
    {commands : ι → CryptSubcommand}
    (hinit : ∀ i options names, commands i = .init options names →
      ∀ name ∈ names, ¬Owns volumes dev name)
    {trace : List (ι × Call)} {rest : ι → Cmd Unit}
    (htrace : Interleaved (fun i => (commands i).run debug
      (loadVolumeConfigs toml debug configDir (some (.ok ((order i).map .ok))))) trace rest)
    {s s' : Disk δ} (hmapped : ∀ name ∈ s.mapped, Owns volumes dev name)
    (hsteps : Steps (Disk.Step dev) s (trace.map Prod.snd) s') : SameContent s s' := by
  obtain ⟨hall, hsorted⟩ := loadVolumeConfigs_eq_ok_iff.mp hloaded
  have hspares : ∀ e ∈ trace.map Prod.snd, Spares volumes dev e.op := by
    intro e he
    obtain ⟨⟨i, e⟩, hmem, rfl⟩ := List.mem_map.mp he
    have hload : loadVolumeConfigs toml debug configDir (some (.ok ((order i).map .ok))) =
        .ok volumes := by
      refine loadVolumeConfigs_eq_ok_iff.mpr ⟨?_, hsorted⟩
      exact (((horder i).filter _).map _).symm.trans hall
    have hpath := htrace.path i
    rw [hload] at hpath
    have hnamed : ∀ e ∈ eventsOf i trace, Named e.op e.res := fun e he =>
      named_of_steps hsteps e (List.mem_map.mpr ⟨(i, e), mem_eventsOf.mp he, rfl⟩)
    obtain ⟨pre, post, hsplit⟩ := List.append_of_mem (mem_eventsOf.mpr hmem)
    obtain ⟨_, _, hop⟩ := (Safe.path (sparing_run hsorted htemporary hnames (hinit i)) hpath
      (steps_answers hnamed)).2 pre e post hsplit
    exact hop
  -- what is on the device, and the names under which it is open
  refine (hsteps.invariant
    (I := fun t => SameContent s t ∧ ∀ name ∈ t.mapped, Owns volumes dev name)
    ⟨⟨rfl, rfl, rfl⟩, hmapped⟩ fun e he t t' ht hstep => ?_).1
  obtain ⟨⟨hheader, hcontent, hdata⟩, hmapped'⟩ := (hspares e he).step hnode ht.2 hstep
  exact ⟨⟨hheader.trans ht.1.1, hcontent.trans ht.1.2.1, hdata.trans ht.1.2.2⟩, hmapped'⟩

end

/-- The volume is closed while the boot service goes through its list. -/
def closeCalls : List Call :=
  [⟨.pathExists "/dev/mapper/data", true⟩, did (.initByName "data"), did (.deactivate "data")]

theorem path_closeCalls : Path (CloseCommand.run ["data"]) closeCalls (.done (.ok ())) :=
  path_of_replay (by rfl)

theorem device_untouched_closed :
    SameContent (twoDisks "/dev/sdb") { twoDisks "/dev/sdb" with mapped := [] } := by
  let commands : Bool → CryptSubcommand := fun i => if i then .bootService else .closeVolumes ["data"]
  have hload := load_twoEntries id "/etc/cryptpilot/volumes"
  obtain ⟨looked, hlook, hbusy⟩ := path_busyCalls.split
  have hboot : Path ((commands true).run id (.ok [dataFile, swapFile])) statusesCalls looked := hlook
  have hclose : Path ((commands false).run id (.ok [dataFile, swapFile])) closeCalls
    (.done (.ok ())) := path_closeCalls
  obtain ⟨rests, htrace⟩ := Path.overtaken
    (fun i => (commands i).run id (.ok [dataFile, swapFile])) (show true ≠ false by decide)
    hboot hclose hbusy
  rw [← hload] at htrace
  have hnode : ∀ name, "/dev/sdb" ≠ Disk.node name := ne_node (by decide)
  have hnames : ∀ name, Owns [dataFile, swapFile] "/dev/sdb" name → ¬TemporaryName name := by
    rintro _ ⟨v, hv, rfl, hdev⟩ ⟨random, hname⟩
    have hdata : v.volume = "data" := by
      rcases hv with _ | ⟨_, _ | ⟨_, ⟨⟩⟩⟩
      · rfl
      · exact absurd hdev (by decide)
    rw [hdata] at hname
    have hhead := congrArg (fun name => name.toList.head?) hname
    simp at hhead
  have hmapped : ∀ name ∈ (twoDisks "/dev/sdb").mapped, Owns [dataFile, swapFile] "/dev/sdb" name := by
    intro name hname
    obtain rfl : name = "data" := List.mem_singleton.mp hname
    exact ⟨dataFile, List.mem_cons_self, rfl, rfl⟩
  refine device_untouched hload (fun _ => .refl _) hnode (by decide) hnames ?_ htrace hmapped ?_
  · rintro (_ | _) options names hinit <;> cases hinit
  · have hbefore := step_busyCalls "/dev/sdb" (twoDisks "/dev/sdb") rfl
      fun volume hvolume => List.mem_singleton.mp hvolume
    have hafter := step_busyCalls "/dev/sdb" { twoDisks "/dev/sdb" with mapped := [] } rfl
      fun volume hvolume => by cases hvolume
    have hclosed : Steps (Disk.Step "/dev/sdb") (twoDisks "/dev/sdb") closeCalls
        { twoDisks "/dev/sdb" with mapped := [] } :=
      .cons ⟨⟨fun _ _ => rfl, fun _ => rfl⟩, rfl⟩ (.cons rfl (.cons rfl (.nil _)))
    simp only [List.map_append, List.map_map, Function.comp_def, List.map_id']
    refine steps_append.mpr ⟨_, steps_self fun e he => hbefore e (List.mem_append_left _ he), ?_⟩
    refine steps_append.mpr ⟨_, hclosed, ?_⟩
    exact steps_self fun e he => hafter e (List.mem_append_right _ he)

/-! ## Two volumes on a device -/

/-- The temporary volume, on the device of the other one. -/
def sharedFile : VolumeFile := { swapFile with config := { swapFile.config with dev := "/dev/sdb" } }

def sharedEntry : DirEntry Table :=
  ⟨"swap.toml", true, .ok [("volume", .string "swap"), ("dev", .string "/dev/sdb"),
    ("auto_open", .boolean true), ("makefs", .string "swap"), ("encrypt", .table [("otp", .table [])])]⟩

def sharedCalls : List Call :=
  [⟨.pathExists "/dev/mapper/data", false⟩, ⟨.pathExists "/dev/sdb", false⟩,
    ⟨.pathExists "/dev/mapper/swap", false⟩, ⟨.pathExists "/dev/sdb", false⟩,
    ⟨.pathExists "/dev/mapper/swap", false⟩, ⟨.openExclusive "/dev/sdb", ExclusiveOpen.opened⟩,
    ⟨.getKey .otp, Except.ok [107]⟩, did (.cryptInit "/dev/sdb"),
    did (.cryptFormat "/dev/sdb" luks2SubsystemInitializing .none)]

/-- Both volumes are loaded, and the boot service formats the device of the one that is kept. -/
theorem shared_device_formatted (debug : String → String) (configDir : Path) {s : Disk Unit}
    (hmapped : s.mapped = []) :
    loadVolumeConfigs tableFormat debug configDir (some (.ok [.ok dataEntry, .ok sharedEntry])) =
        .ok [dataFile, sharedFile] ∧
      ∃ rest s', Path (setupUserProvidedVolumes debug (.ok [dataFile, sharedFile])) sharedCalls rest ∧
        Steps (Disk.Step "/dev/sdb") s sharedCalls s' ∧ s'.initState = .initializing ∧
        s'.data = none := by
  refine ⟨?_, ?_⟩
  · have hread : readAll tableFormat [dataEntry, sharedEntry] = [.ok dataFile, .ok sharedFile] := by
      rfl
    have hperm : (readAll tableFormat [dataEntry, sharedEntry]).Perm
        ([dataFile, sharedFile].map .ok) := .of_eq hread
    exact loadVolumeConfigs_eq_ok_iff.mpr ⟨hperm, by decide⟩
  · have hexists (path : Path) : s.Step "/dev/sdb" (.pathExists path) false s := by
      refine ⟨⟨fun _ hr => (by cases hr), ?_⟩, rfl⟩
      rintro ⟨volume, hvolume, -⟩
      rw [hmapped] at hvolume
      cases hvolume
    have hmark : Header.initializingMark.initState = .ofSubsystem luks2SubsystemInitializing := by
      rw [initState_initializingMark]
      decide
    have hformat : s.Acts "/dev/sdb" (.cryptFormat "/dev/sdb" luks2SubsystemInitializing .none)
        (.ok ()) { s with header := Header.initializingMark, content := .blank, data := none } :=
      Disk.acts_cryptFormat .none hmapped hmark
    refine ⟨_, { s with header := Header.initializingMark, content := .blank, data := none },
      path_of_after (by rfl), ?_, initState_initializingMark, rfl⟩
    exact .cons (hexists _) (.cons (hexists _) (.cons (hexists _) (.cons (hexists _)
      (.cons (hexists _) (.cons ⟨fun _ _ => hmapped, rfl⟩ (.cons ⟨trivial, rfl⟩ (.cons rfl
      (.cons hformat (.nil _)))))))))

end CryptPilot.Crypt
