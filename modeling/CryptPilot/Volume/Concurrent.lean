import CryptPilot.Volume.HeaderRead

/-!
# Many commands at once

`init` looks at the header of a device, then asks the user, checks that the device is not in use,
fetches a key, and formats the device. Nothing keeps other commands from running in between: the
check for use opens the device exclusively and closes it again.

So a volume that is ready is kept as long as no other command completes an initialization in between
(`format_not_ready`). Two `init` at once can format it (`two_inits_format_ready`).
-/

namespace CryptPilot.Volume

open CryptPilot.Data CryptPilot.Data.Prog CryptPilot.Core CryptPilot.Crypt

/-- A command for one volume: `init` without `--force-reinit`, `open` or `close`. -/
inductive Process where
  | init (yes : Bool)
  | openVolume (checkFs : Bool)
  | closeVolume

def Process.command (config : VolumeConfig) : Process → Command
  | .init yes => .init ⟨false, yes⟩ config
  | .openVolume checkFs => .openVolume config checkFs
  | .closeVolume => .closeVolume config.volume

def Process.prog (debug : String → String) (config : VolumeConfig) (process : Process) : Cmd Unit :=
  (process.command config).prog debug

/-- Between reading the header and formatting the device, a process is not disturbed: the header
could be read, and no process marks the volume as ready. -/
def Undisturbed {ι : Type} (dev : Path) (trace : List (ι × Call)) : Prop :=
  ∀ before i r between subsystem integrity answer after,
    trace = before ++ (i, ⟨.readHeader dev, r⟩) ::
      (between ++ (i, ⟨.act (.cryptFormat dev subsystem integrity), answer⟩) :: after) →
    (∃ header : Header, r = Except.ok header) ∧
    ∀ j, (j, ⟨.act (.setLabel dev luks2SubsystemName), Except.ok ()⟩) ∉ between

section
variable {debug : String → String} {config : VolumeConfig} {es pre post : List Call}
  {rest : Cmd Unit}

/-- Only `init` formats a device, after looking at its header. -/
theorem readNotReady_of_path (hpersistent : config.volumeType = .persistent) (process : Process)
    (hpath : Path (process.prog debug config) es rest) {subsystem : String}
    {integrity : IntegrityType} {answer : Except String Unit}
    (hes : es = pre ++ ⟨.act (.cryptFormat config.dev subsystem integrity), answer⟩ :: post) :
    ReadNotReady config.dev pre := by
  have hmem : ⟨.act (.cryptFormat config.dev subsystem integrity), answer⟩ ∈ es := by simp [hes]
  cases process with
  | init yes =>
    change Path (init debug ⟨false, yes⟩ config) es rest at hpath
    rw [init_of_persistent debug hpersistent] at hpath
    have hchecked := ((checked_persistentDiskInit hpersistent rfl).trace hpath).2 pre _ post hes
    exact (hchecked config.dev subsystem integrity rfl).1
  | openVolume checkFs => exact ((quiet_openForSpecificVolume hpersistent).path hpath _ hmem).elim
  | closeVolume => exact (quiet_closeVolume.path hpath _ hmem).elim

end

section
variable {δ ι : Type} [DecidableEq ι] {debug : String → String} {config : VolumeConfig}
  {processes : ι → Process} {trace : List (ι × Call)} {rest : ι → Cmd Unit}

/-- A call that marks the volume as ready sets its label. -/
theorem setLabel_of_marksReady
    (htrace : Interleaved (fun i => (processes i).prog debug config) trace rest) {dev : Path}
    {j : ι} {e : Call} (hmem : (j, e) ∈ trace) (he : Disk.MarksReady dev e) :
    e = ⟨.act (.setLabel dev luks2SubsystemName), Except.ok ()⟩ := by
  rcases he with he | ⟨integrity, rfl⟩
  · exact he
  · have hinitializing : luks2SubsystemName = luks2SubsystemInitializing :=
      formats_initializing (htrace.path j) (mem_eventsOf.mpr hmem)
    exact absurd hinitializing (by decide)

/-- **No process formats a device that is marked ready**, in any number of processes and with any
interleaving, as long as they are not disturbed. -/
theorem format_not_ready (hpersistent : config.volumeType = .persistent)
    (htrace : Interleaved (fun i => (processes i).prog debug config) trace rest)
    (hundisturbed : Undisturbed config.dev trace) {before after : List (ι × Call)} {i : ι}
    {subsystem : String} {integrity : IntegrityType} {answer : Except String Unit}
    (hformat : trace =
      before ++ (i, ⟨.act (.cryptFormat config.dev subsystem integrity), answer⟩) :: after)
    {s₀ s : Disk δ} (hsteps : Steps (Disk.Step config.dev) s₀ (before.map Prod.snd) s) :
    s.initState ≠ .ready := by
  intro hready
  -- what the process saw when it read the header
  have hes : eventsOf i trace = eventsOf i before ++
      ⟨.act (.cryptFormat config.dev subsystem integrity), answer⟩ :: eventsOf i after := by
    rw [hformat, eventsOf_append, eventsOf_cons_self]
  obtain ⟨r, hread, hr⟩ := readNotReady_of_path hpersistent (processes i) (htrace.path i) hes
  obtain ⟨before, between, rfl⟩ := List.append_of_mem (mem_eventsOf.mp hread)
  rw [List.append_assoc, List.cons_append] at hformat
  obtain ⟨⟨header, rfl⟩, hlabel⟩ := hundisturbed _ _ _ _ _ _ _ _ hformat
  rw [List.map_append, List.map_cons] at hsteps
  obtain ⟨t, _, hsteps⟩ := steps_append.mp hsteps
  obtain ⟨t', hstep, hbetween⟩ := steps_cons.mp hsteps
  obtain ⟨rfl, rfl⟩ := hstep.readHeader
  -- it was not marked since
  refine hr (Disk.ready_of_steps hbetween (fun e he hmarks => ?_) hready)
  obtain ⟨⟨j, e⟩, hmem, rfl⟩ := List.mem_map.mp he
  have htrace_mem : (j, e) ∈ trace := by simp [hformat, hmem]
  obtain rfl := setLabel_of_marksReady htrace htrace_mem hmarks
  exact hlabel j hmem

end

/-! ## Two processes

Both are `init --yes` for one volume. -/

/-- What a process sees that looks at a device that was never used. -/
def lookCalls : List Call := statusCalls .data (.ok Header.unused)

/-- What is left of it goes on to format the device. -/
theorem path_lookCalls : ∃ looked rest, Path (init id ⟨false, true⟩ .data) lookCalls looked ∧
    Path looked (formatCalls .data [107]) rest := by
  have hunused : initStateOf (.ok Header.unused) ≠ .ready := initState_unused.trans_ne nofun
  obtain ⟨rest, hpath⟩ := path_init_formatted id ⟨false, true⟩
    (show VolumeConfig.data.volumeType = .persistent from rfl) hunused [107]
  obtain ⟨looked, hlook, hformat⟩ := hpath.split
  exact ⟨looked, rest, hlook, hformat⟩

theorem steps_lookCalls : Steps (Disk.Step VolumeConfig.data.dev) newDisk lookCalls newDisk :=
  steps_statusCalls rfl rfl fun _ h => (Except.ok.inj h).symm

/-- The calls of a process up to the one that formats the device change nothing. -/
theorem steps_take_formatCalls {s : Disk Unit} (hmapped : s.mapped = []) :
    Steps (Disk.Step VolumeConfig.data.dev) s ((formatCalls .data [107]).take 3) s :=
  .cons ⟨fun _ _ => hmapped, rfl⟩ (.cons ⟨trivial, rfl⟩ (.cons rfl (.nil _)))

theorem map_snd_map {ι : Type} (i : ι) (es : List Call) : (es.map (i, ·)).map Prod.snd = es := by
  simp

/-- The second process looks at the device and formats it after the first one has looked. -/
def formatBefore : List (Bool × Call) :=
  lookCalls.map (true, ·) ++ ((lookCalls ++ formatCalls .data [107]).map (false, ·) ++
    ((formatCalls .data [107]).take 3).map (true, ·))

def formatTrace : List (Bool × Call) := formatBefore ++ [(true, formatted "/dev/sdb" .none)]

theorem mem_of_mem_formatTrace {i : Bool} {e : Call} (h : (i, e) ∈ formatTrace) :
    e ∈ lookCalls ++ formatCalls .data [107] := by
  have hsnd : e ∈ formatTrace.map Prod.snd := List.mem_map_of_mem h
  grind [formatTrace, formatBefore, formatCalls, VolumeConfig.data]

theorem undisturbed_formatTrace : Undisturbed "/dev/sdb" formatTrace := by
  have hread (dev : Path) (r : Except String Header)
      (hmem : ⟨.readHeader dev, r⟩ ∈ lookCalls ++ formatCalls .data [107]) :
      r = .ok Header.unused := by
    grind [lookCalls, statusCalls, formatCalls, formatted]
  have hlabel (dev : Path) (subsystem : String) (answer : Except String Unit) :
      ⟨.act (.setLabel dev subsystem), answer⟩ ∉ lookCalls ++ formatCalls .data [107] := by
    grind [lookCalls, statusCalls, formatCalls, formatted]
  intro before i r between subsystem integrity answer after heq
  have hmem (j : Bool) (e : Call) (h : (j, e) ∈ (i, ⟨.readHeader "/dev/sdb", r⟩) :: between) :
      e ∈ lookCalls ++ formatCalls .data [107] := by
    refine mem_of_mem_formatTrace (i := j) ?_
    rw [heq, ← List.cons_append]
    exact List.mem_append_right _ (List.mem_append_left _ h)
  refine ⟨⟨Header.unused, hread _ r (hmem i _ List.mem_cons_self)⟩, fun j hj => ?_⟩
  exact hlabel _ _ _ (hmem j _ (List.mem_cons_of_mem _ hj))

/-- The device is being initialized when the first process formats it, but it is not ready. -/
theorem format_not_ready_two_inits :
    let s := { newDisk with header := Header.initializingMark }
    (∃ rest, Interleaved (fun _ : Bool => (Process.init true).prog id .data) formatTrace rest) ∧
      Steps (Disk.Step "/dev/sdb") newDisk (formatBefore.map Prod.snd) s ∧ s.initState ≠ .ready := by
  intro s
  obtain ⟨looked, rest, hlook, hformat⟩ := path_lookCalls
  obtain ⟨rests, htrace⟩ := Path.overtaken (fun _ : Bool => (Process.init true).prog id .data)
    (show true ≠ false by decide) hlook (hlook.append hformat) hformat
  have hformatted : Steps (Disk.Step VolumeConfig.data.dev) newDisk (formatCalls .data [107]) s :=
    steps_formatCalls rfl [107]
  have hsteps : Steps (Disk.Step "/dev/sdb") newDisk (formatBefore.map Prod.snd) s := by
    rw [formatBefore, List.map_append, List.map_append, map_snd_map, map_snd_map, map_snd_map]
    refine steps_append.mpr ⟨_, steps_lookCalls, steps_append.mpr ⟨s, ?_, steps_take_formatCalls rfl⟩⟩
    exact steps_append.mpr ⟨_, steps_lookCalls, hformatted⟩
  exact ⟨⟨_, htrace⟩, hsteps,
    format_not_ready rfl htrace undisturbed_formatTrace rfl hsteps⟩

/-- The second process looks at the device before the first one initializes the volume. Then it
formats the device, which is ready. -/
theorem two_inits_format_ready : ∃ before rest s,
    Interleaved (fun _ : Bool => (Process.init true).prog id .data)
      (before ++ [(true, formatted "/dev/sdb" .none)]) rest ∧
    Steps (Disk.Step "/dev/sdb") newDisk (before.map Prod.snd) s ∧ s.initState = .ready := by
  obtain ⟨looked, rest, hlook, hformat⟩ := path_lookCalls
  have hfirst : Path (init id ⟨false, true⟩ .data)
      (initCalls ⟨false, true⟩ .data (.ok Header.unused) [107]) (.done (.ok ())) :=
    path_init id ⟨false, true⟩ rfl rfl (r := .ok Header.unused) (initState_unused.trans_ne nofun) [107]
  have hsteps : Steps (Disk.Step VolumeConfig.data.dev) newDisk
      (initCalls ⟨false, true⟩ .data (.ok Header.unused) [107])
      { newDisk with header := Header.readyMark } :=
    steps_initCalls rfl rfl (fun _ h => (Except.ok.inj h).symm) [107]
  obtain ⟨rests, htrace⟩ := Path.overtaken (fun _ : Bool => (Process.init true).prog id .data)
    (show true ≠ false by decide) hlook hfirst hformat
  refine ⟨lookCalls.map (true, ·) ++ ((initCalls ⟨false, true⟩ .data (.ok Header.unused) [107]).map
    (false, ·) ++ ((formatCalls .data [107]).take 3).map (true, ·)), rests,
    { newDisk with header := Header.readyMark }, ?_, ?_, initState_readyMark⟩
  · rw [List.append_assoc, List.append_assoc]
    exact htrace
  · rw [List.map_append, List.map_append, map_snd_map, map_snd_map, map_snd_map]
    refine steps_append.mpr ⟨_, steps_lookCalls, steps_append.mpr ⟨_, hsteps, ?_⟩⟩
    exact steps_take_formatCalls rfl

end CryptPilot.Volume
