import CryptPilot.Fde.CopyConfig

/-!
# Which configuration a boot uses

The user data of the cloud can be anything, and can change at any time; the service can be killed and
started again. What a remote party knows about the configuration is the initrd, which was measured
when it was booted, and what the agent was told since.

Every stage that is run is run with one and the same configuration (`stages_configured`). It is the
one in the initrd, or its hash was given to the agent before the stage, unless there was no agent, or
a write of the state was cut short. And what is measured for user data made by `config dump` is the
hash that `config dump` printed (`dump_measured`).
-/

namespace CryptPilot.Fde

open CryptPilot.Data CryptPilot.Data.Prog CryptPilot.Data.Toml CryptPilot.Core

variable {Text α : Type}

/-! ## A boot -/

/-- A runtime measurement. -/
structure Measurement where
  domain : String
  operation : String
  content : String
  deriving DecidableEq

/-- A stage that was run, and what the agent had been told by then. -/
structure Start where
  stage : BootStage
  config : Option FdeConfig
  log : List Measurement
  agentMissing : Bool

/-- The state of a booting machine: the files of the initrd, what the agent was told, whether it could
not be found at some time, and the stages so far. -/
structure Boot (Text : Type) where
  files : Path → Option Text
  log : List Measurement
  agentMissing : Bool
  starts : List Start

/-- What the operations do. The files are in memory, so that they can always be found. A write that
fails may have changed the file already: `Cut content part` says what can be left of a text. A
measurement that fails may have been made. Anything can come from the cloud. -/
def GuestStep (Cut : Text → Text → Prop) (s : Boot Text) :
    (op : GuestOp Text) → op.Res → Boot Text → Prop
  | .exist path, found, s' => found = (s.files path).isSome ∧ s' = s
  | .readToString path, r, s' => (∀ text, r = .ok text → s.files path = some text) ∧ s' = s
  | .write path content, r, s' =>
    s' = { s with files := Function.update s.files path (some content) } ∨
      r ≠ Except.ok () ∧ (s' = s ∨
        ∃ part, Cut content part ∧ s' = { s with files := Function.update s.files path (some part) })
  | .connect, r, s' => s' = s ∧ r = Except.ok () ∨ s' = { s with agentMissing := true }
  | .extendRuntimeMeasurement domain operation content, r, s' =>
    s' = { s with log := s.log ++ [⟨domain, operation, content⟩] } ∨ r ≠ Except.ok () ∧ s' = s
  | .runStage stage config, _, s' =>
    s' = { s with starts := s.starts ++ [⟨stage, config, s.log, s.agentMissing⟩] }
  | .createDirAll _, _, s' | .checkIsAliyunEcs, _, s' | .getAliyunEcsCloudinitUserData, _, s'
  | .getTimeFromNtp, _, s' | .clockSettime _, _, s' => s' = s

/-- While the service is not running, other programs may measure things. -/
def Boot.Idle (s s' : Boot Text) : Prop := ∃ more, s' = { s with log := s.log ++ more }

/-- A machine whose initrd was loaded. -/
def Boot.fresh (files : Path → Option Text) : Boot Text := ⟨files, [], false, []⟩

/-! ## Where a configuration comes from -/

section
variable (toml : ConfigText Text)

/-- What a file says, if it is there. -/
def FileSays (deserialize : Table → Except DeError α) (file : Option Text) (value : Option α) : Prop :=
  match file with
  | none => value = none
  | some text => ∃ a, toml.fromStr deserialize text = .ok a ∧ value = some a

/-- The configuration in the initrd. -/
def InInitrd (files : Path → Option Text) (bundle : FdeConfigBundle) : Prop :=
  FileSays toml GlobalConfig.deserialize
      (files (joinPath cryptpilotConfigDirDefault "global.toml")) bundle.global ∧
    FileSays toml FdeConfig.deserialize
      (files (joinPath cryptpilotConfigDirDefault "fde.toml")) bundle.fde

/-- What is measured for a configuration. -/
def FdeConfigBundle.measurement (bundle : FdeConfigBundle) : Measurement :=
  ⟨aaelDomain, operationNameLoadConfigUntrusted, bundle.genHashHex toml⟩

/-- A remote party can tell the configuration, if there is an agent to ask. -/
def Accounted (etc : Path → Option Text) (log : List Measurement) (agentMissing : Bool)
    (bundle : FdeConfigBundle) : Prop :=
  InInitrd toml etc bundle ∨ bundle.measurement toml ∈ log ∨ agentMissing = true

/-- The state was saved for such a configuration. -/
def Saved (Cut : Text → Text → Prop) (etc : Path → Option Text) (log : List Measurement)
    (agentMissing : Bool) (text : Text) : Prop :=
  ∃ bundle, (text = InitrdState.save toml.toFormat ⟨bundle⟩ ∨
    Cut (InitrdState.save toml.toFormat ⟨bundle⟩) text) ∧ Accounted toml etc log agentMissing bundle

/-- The text of the state is that of a configuration. -/
def Configures (text : Text) (config : Option FdeConfig) : Prop :=
  ∃ bundle, InitrdState.load toml.toFormat (.ok text) = .ok ⟨bundle⟩ ∧ config = bundle.fde

variable (Cut : Text → Text → Prop) (etc : Path → Option Text)

/-- The state is saved once, and every stage is run with what is in it. -/
structure Boot.Inv (s : Boot Text) : Prop where
  etc_eq : ∀ path, path ≠ cryptpilotInitrdStatePath → s.files path = etc path
  saved : ∀ text, s.files cryptpilotInitrdStatePath = some text →
    Saved toml Cut etc s.log s.agentMissing text
  started : ∀ start ∈ s.starts, ∃ text, s.files cryptpilotInitrdStatePath = some text ∧
    Configures toml text start.config ∧ Saved toml Cut etc start.log start.agentMissing text

/-- What has to hold at a call. -/
def GuestSafe (s : Boot Text) : GuestOp Text → Prop
  | .write path content => path = cryptpilotInitrdStatePath ∧ s.files path = none ∧
    ∃ bundle, content = InitrdState.save toml.toFormat ⟨bundle⟩ ∧
      Accounted toml etc s.log s.agentMissing bundle
  | .runStage _ config => ∃ text, s.files cryptpilotInitrdStatePath = some text ∧
    Configures toml text config
  | _ => True

/-- An operation that neither writes nor runs a stage. -/
def GuestOp.Quiet : GuestOp Text → Prop
  | .write .. | .runStage .. => False
  | _ => True

end

section
variable {toml : ConfigText Text} {Cut : Text → Text → Prop} {etc : Path → Option Text}
  {s s' : Boot Text} {op : GuestOp Text} {bundle : FdeConfigBundle} {log : List Measurement}
  {agentMissing : Bool} {text : Text}

/-! ## One step -/

theorem Accounted.mono {log' : List Measurement} {agentMissing' : Bool}
    (h : Accounted toml etc log agentMissing bundle) (hlog : log <+: log')
    (hmissing : agentMissing = true → agentMissing' = true) :
    Accounted toml etc log' agentMissing' bundle :=
  h.imp_right (Or.imp (fun hmem => hlog.subset hmem) hmissing)

theorem Saved.mono {log' : List Measurement} {agentMissing' : Bool}
    (h : Saved toml Cut etc log agentMissing text) (hlog : log <+: log')
    (hmissing : agentMissing = true → agentMissing' = true) :
    Saved toml Cut etc log' agentMissing' text := by
  obtain ⟨bundle, htext, hbundle⟩ := h
  exact ⟨bundle, htext, hbundle.mono hlog hmissing⟩

/-- A quiet operation keeps the files and the stages, and forgets nothing. -/
theorem GuestOp.Quiet.step (hquiet : op.Quiet) {r : op.Res} (h : GuestStep Cut s op r s') :
    s'.files = s.files ∧ s'.starts = s.starts ∧ s.log <+: s'.log ∧
      (s.agentMissing = true → s'.agentMissing = true) := by
  cases op with
  | write | runStage => cases hquiet
  | exist path | readToString path =>
    obtain ⟨-, rfl⟩ := h
    exact ⟨rfl, rfl, List.prefix_rfl, id⟩
  | connect =>
    rcases h with ⟨rfl, -⟩ | rfl
    · exact ⟨rfl, rfl, List.prefix_rfl, id⟩
    · exact ⟨rfl, rfl, List.prefix_rfl, fun _ => rfl⟩
  | extendRuntimeMeasurement domain operation content =>
    rcases h with rfl | ⟨-, rfl⟩
    · exact ⟨rfl, rfl, List.prefix_append _ _, id⟩
    · exact ⟨rfl, rfl, List.prefix_rfl, id⟩
  | _ =>
    cases h
    exact ⟨rfl, rfl, List.prefix_rfl, id⟩

theorem Boot.Inv.quiet (h : s.Inv toml Cut etc) (hfiles : s'.files = s.files)
    (hstarts : s'.starts = s.starts) (hlog : s.log <+: s'.log)
    (hmissing : s.agentMissing = true → s'.agentMissing = true) : s'.Inv toml Cut etc := by
  refine ⟨?_, ?_, ?_⟩ <;> rw [hfiles]
  · exact h.etc_eq
  · exact fun text htext => (h.saved text htext).mono hlog hmissing
  · rw [hstarts]
    exact h.started

/-- A write that is allowed, with any of its outcomes. No stage was run before it. -/
theorem Boot.Inv.write {content : Text} (h : s.Inv toml Cut etc)
    (hnone : s.files cryptpilotInitrdStatePath = none)
    (hsaved : Saved toml Cut etc s.log s.agentMissing content) :
    Boot.Inv toml Cut etc { s with
      files := Function.update s.files cryptpilotInitrdStatePath (some content) } := by
  refine ⟨fun path hpath => ?_, fun text htext => ?_, fun start hstart => ?_⟩
  · exact (Function.update_of_ne hpath _ _).trans (h.etc_eq path hpath)
  · dsimp only at htext
    rw [Function.update_self] at htext
    exact Option.some.inj htext ▸ hsaved
  · obtain ⟨text, htext, -⟩ := h.started start hstart
    cases hnone.symm.trans htext

theorem Boot.Inv.step (h : s.Inv toml Cut etc) (hsafe : GuestSafe toml etc s op) {r : op.Res}
    (hstep : GuestStep Cut s op r s') : s'.Inv toml Cut etc := by
  cases op with
  | write path content =>
    obtain ⟨rfl, hnone, bundle, rfl, hbundle⟩ := hsafe
    rcases hstep with rfl | ⟨-, rfl | ⟨part, hcut, rfl⟩⟩
    · exact h.write hnone ⟨bundle, .inl rfl, hbundle⟩
    · exact h
    · exact h.write hnone ⟨bundle, .inr hcut, hbundle⟩
  | runStage stage config =>
    obtain ⟨text, htext, hconfig⟩ := hsafe
    cases hstep
    refine ⟨h.etc_eq, h.saved, fun start hstart => ?_⟩
    rcases List.mem_append.mp hstart with hstart | hstart
    · exact h.started start hstart
    · rw [List.mem_singleton.mp hstart]
      exact ⟨text, htext, hconfig, h.saved text htext⟩
  | _ =>
    obtain ⟨hfiles, hstarts, hlog, hmissing⟩ := GuestOp.Quiet.step (by trivial) hstep
    exact h.quiet hfiles hstarts hlog hmissing

end

/-! ## The service -/

section
variable {toml : ConfigText Text} {Cut : Text → Text → Prop} {etc files : Path → Option Text}
  {debug : Path → String} {s : Boot Text}

theorem guestSafe_of_quiet {op : GuestOp Text} (h : op.Quiet) : GuestSafe toml etc s op := by
  cases op with
  | write | runStage => cases h
  | _ => trivial

/-- Quiet programs keep the files. -/
theorem safe_files_of_quiet {p : GuestCmd Text α} (hp : p.Calls GuestOp.Quiet)
    (hs : s.files = files) :
    p.Safe (GuestStep Cut) (GuestSafe toml etc) (fun _ s' => s'.files = files) s :=
  hp.safe (fun _ _ _ _ hop hI hstep => (hop.step hstep).1.trans hI)
    (fun _ _ hop _ => guestSafe_of_quiet hop) hs

theorem ensures_files_of_quiet {p : GuestCmd Text α} (hp : p.Calls GuestOp.Quiet)
    (hs : s.files = files) :
    p.Ensures (GuestStep Cut) (GuestSafe toml etc) (fun _ s' => s'.files = files) s :=
  (safe_files_of_quiet hp hs).post fun _ _ hI _ _ => hI

theorem quiet_loadConfigFromCloudInit :
    (loadConfigFromCloudInit toml).Calls GuestOp.Quiet := by
  refine .bind (.context ⟨trivial, fun _ => calls_done⟩) fun _ => ?_
  exact .bind ⟨trivial, fun _ => calls_done⟩ fun _ => calls_done

theorem quiet_extendMeasurementHash {measure : AutoDetectMeasure} {operation : String}
    {content : Text} :
    (measure.extendMeasurementHash toml operation content).Calls GuestOp.Quiet := by
  cases measure with
  | aael => exact .context ⟨trivial, fun _ => calls_done⟩
  | nope => exact calls_done

theorem calls_syncTimeToSystem {P : GuestOp Text → Prop} (hcheck : P .checkIsAliyunEcs)
    (hget : P .getTimeFromNtp) (hset : ∀ time, P (.clockSettime time)) :
    (syncTimeToSystem : GuestCmd Text Unit).Calls P := by
  refine .bind (.attempt ⟨hcheck, fun _ => calls_done⟩) fun reachable => ?_
  cases reachable with
  | error e => exact calls_done
  | ok =>
    refine .bind (.attempt ⟨hget, fun _ => calls_done⟩) fun time => ?_
    cases time with
    | error e => exact calls_done
    | ok time => exact .context ⟨hset time, fun _ => calls_done⟩

/-- What is read from a directory is what its files say. -/
theorem ensures_loadConfigFile {name : String} {deserialize : Table → Except DeError α} {path : Path}
    (hs : s.files = files) :
    (loadConfigFile toml debug name deserialize path).Ensures (GuestStep Cut) (GuestSafe toml etc)
      (fun value s' => s'.files = files ∧ FileSays toml deserialize (files path) value) s := by
  refine Ensures.bind (Q := fun found s' => s'.files = files ∧ found = (files path).isSome)
    ⟨trivial, fun found s' hstep => ?_⟩ ?_
  · obtain ⟨rfl, rfl⟩ := hstep
    exact ensures_pure.mpr ⟨hs, by rw [hs]⟩
  rintro found s₁ ⟨hs₁, hfound⟩
  cases hfile : files path with
  | none =>
    rw [hfile] at hfound
    rw [hfound]
    exact ensures_pure.mpr ⟨hs₁, rfl⟩
  | some text =>
    rw [hfile] at hfound
    rw [hfound]
    refine Ensures.bind (Q := fun value s' => s'.files = files ∧
      toml.fromStr deserialize text = .ok value) (.context ?_) ?_
    · refine Ensures.bind (Q := fun content s' => s'.files = files ∧ content = text)
        ⟨trivial, fun content s' hstep => ?_⟩ ?_
      · obtain ⟨hread, rfl⟩ := hstep
        rintro content' rfl
        have heq := hread content' rfl
        rw [hs₁, hfile] at heq
        exact ⟨hs₁, (Option.some.inj heq).symm⟩
      · rintro content s₂ ⟨hs₂, rfl⟩ value hvalue
        exact ⟨hs₂, mapError_eq_ok hvalue⟩
    · rintro value s₂ ⟨hs₂, hvalue⟩
      exact ensures_pure.mpr ⟨hs₂, value, hvalue, rfl⟩

/-- Only the files of the initrd matter. -/
theorem inInitrd_congr {bundle : FdeConfigBundle} {files' : Path → Option Text}
    (heq : ∀ path, path ≠ cryptpilotInitrdStatePath → files path = files' path)
    (h : InInitrd toml files bundle) : InInitrd toml files' bundle := by
  obtain ⟨hglobal, hfde⟩ := h
  rw [heq _ (by decide +kernel)] at hglobal hfde
  exact ⟨hglobal, hfde⟩

theorem ensures_loadTrustedFdeConfigBundle (hs : s.files = files) :
    (loadTrustedFdeConfigBundle toml debug).Ensures (GuestStep Cut) (GuestSafe toml etc)
      (fun bundle s' => s'.files = files ∧ InInitrd toml files bundle) s := by
  have hload : (loadConfigFromCurrentInitrdEnvironment toml debug).Ensures (GuestStep Cut)
      (GuestSafe toml etc) (fun bundle s' => s'.files = files ∧ InInitrd toml files bundle) s := by
    refine Ensures.bind (ensures_loadConfigFile hs) fun global s₁ hglobal => ?_
    refine Ensures.bind (ensures_loadConfigFile hglobal.1) fun fde s₂ hfde => ?_
    exact ensures_pure.mpr ⟨hfde.1, hglobal.2, hfde.2⟩
  refine Ensures.bind hload.attempt fun r s₁ hr => ?_
  cases r with
  | ok bundle => exact ensures_pure.mpr (hr bundle rfl)
  | error e => exact ensures_fail

/-- Either there is no agent, or it was told. -/
theorem safe_extendMeasurementHash {bundle : FdeConfigBundle} {measure : AutoDetectMeasure}
    {message : String} (hs : s.files = files)
    (hmeasure : measure = .nope → s.agentMissing = true) :
    (context message (measure.extendMeasurementHash toml operationNameLoadConfigUntrusted
      (bundle.genHashContent toml.toFormat))).Safe (GuestStep Cut) (GuestSafe toml etc)
      (fun r s' => s'.files = files ∧
        ∀ a, r = .ok a → bundle.measurement toml ∈ s'.log ∨ s'.agentMissing = true) s := by
  refine (safe_files_of_quiet quiet_extendMeasurementHash.context hs).and ?_
  cases measure with
  | nope => exact Ensures.context (ensures_pure.mpr (.inr (hmeasure rfl)))
  | aael =>
    refine Ensures.context (Ensures.context ⟨trivial, fun r s' hstep => ?_⟩)
    rintro _ rfl
    rcases hstep with rfl | ⟨hfailed, -⟩
    · exact .inl (List.mem_append_right _ (List.mem_singleton.mpr rfl))
    · exact absurd rfl hfailed

theorem ensures_loadFdeConfigBundle (hs : s.files = files) :
    (loadFdeConfigBundle toml debug true).Ensures (GuestStep Cut) (GuestSafe toml etc)
      (fun bundle s' => s'.files = files ∧ Accounted toml files s'.log s'.agentMissing bundle) s := by
  have htrusted (s₁ : Boot Text) (hs₁ : s₁.files = files) :
      (loadTrustedFdeConfigBundle toml debug).Ensures (GuestStep Cut) (GuestSafe toml etc)
        (fun bundle s' => s'.files = files ∧ Accounted toml files s'.log s'.agentMissing bundle) s₁ :=
    (ensures_loadTrustedFdeConfigBundle hs₁).mono fun bundle s' h => ⟨h.1, .inl h.2⟩
  refine Ensures.bind (safe_files_of_quiet quiet_loadConfigFromCloudInit hs).attempt
    fun r s₁ hs₁ => ?_
  cases r with
  | error e => exact htrusted s₁ hs₁
  | ok bundle =>
    -- the agent is looked for, and told
    have hnew : (AutoDetectMeasure.new : GuestCmd Text AutoDetectMeasure).Ensures (GuestStep Cut)
        (GuestSafe toml etc)
        (fun measure s' => s'.files = files ∧ (measure = .nope → s'.agentMissing = true)) s₁ := by
      refine Ensures.bind (Q := fun r s' => s'.files = files ∧ (r ≠ .ok () → s'.agentMissing = true))
        (Safe.attempt ⟨trivial, fun r s' hstep => ?_⟩) fun r s' hr => ?_
      · rcases hstep with ⟨rfl, hok⟩ | rfl
        · exact ⟨hs₁, fun hne => absurd hok hne⟩
        · exact ⟨hs₁, fun _ => rfl⟩
      · cases r with
        | ok u => exact ensures_pure.mpr ⟨hr.1, fun h => by cases h⟩
        | error e => exact ensures_pure.mpr ⟨hr.1, fun _ => hr.2 fun h => by cases h⟩
    refine Ensures.bind hnew fun measure s₂ hmeasure => ?_
    refine Ensures.bind (safe_extendMeasurementHash hmeasure.1 hmeasure.2).attempt fun r s₃ hr => ?_
    cases r with
    | ok u => exact ensures_pure.mpr ⟨hr.1, .inr (hr.2 u rfl)⟩
    | error e => exact htrusted s₃ hr.1

theorem ensures_copyConfigToInitrdStateIfNotExist (hinv : s.Inv toml Cut etc) :
    (copyConfigToInitrdStateIfNotExist toml debug true).Ensures (GuestStep Cut) (GuestSafe toml etc)
      (fun _ _ => True) s := by
  refine Ensures.bind (Q := fun found s' => s' = s ∧
    found = (s.files cryptpilotInitrdStatePath).isSome) ⟨trivial, fun found s' hstep => ?_⟩ ?_
  · obtain ⟨rfl, rfl⟩ := hstep
    exact ensures_pure.mpr ⟨rfl, rfl⟩
  rintro found s₁ ⟨rfl, hfound⟩
  cases hstate : s₁.files cryptpilotInitrdStatePath with
  | some text =>
    rw [hstate] at hfound
    rw [hfound]
    exact ensures_pure.mpr trivial
  | none =>
    rw [hstate] at hfound
    rw [hfound]
    refine Ensures.bind (ensures_loadFdeConfigBundle rfl) fun bundle s₂ hbundle => ?_
    refine Ensures.bind (Q := fun _ s' => s' = s₂) ⟨trivial, fun r s' hstep => ?_⟩ ?_
    · rintro _ -
      exact hstep
    · rintro _ _ rfl
      refine ⟨⟨rfl, ?_, bundle, rfl, ?_⟩, fun r s' hstep => ?_⟩
      · rw [hbundle.1, hstate]
      · exact hbundle.2.imp_left fun hin => inInitrd_congr hinv.etc_eq hin
      · exact fun _ _ => trivial

/-- What is loaded is in the file of the state. -/
theorem ensures_getFdeConfigBundleFromState :
    (getFdeConfigBundleFromState toml).Ensures (GuestStep Cut) (GuestSafe toml etc)
      (fun bundle s' => ∃ text, s'.files cryptpilotInitrdStatePath = some text ∧
        InitrdState.load toml.toFormat (.ok text) = .ok ⟨bundle⟩) s := by
  refine Ensures.bind (Q := fun file s' => ∀ text, file = .ok text →
    s'.files cryptpilotInitrdStatePath = some text) (Safe.attempt ⟨trivial, fun r s' hstep => ?_⟩) ?_
  · obtain ⟨hread, rfl⟩ := hstep
    exact hread
  · intro file s₁ hfile
    refine Ensures.bind (Q := fun state s' => s' = s₁ ∧ InitrdState.load toml.toFormat file = .ok state)
      (fun state hstate => ⟨rfl, hstate⟩) ?_
    rintro ⟨bundle⟩ _ ⟨rfl, hload⟩
    cases file with
    | error e => cases hload
    | ok text => exact ensures_pure.mpr ⟨text, hfile text rfl, hload⟩

theorem ensures_runBootService {bundle : FdeConfigBundle} {stage : BootStage} {text : Text}
    (htext : s.files cryptpilotInitrdStatePath = some text)
    (hload : InitrdState.load toml.toFormat (.ok text) = .ok ⟨bundle⟩) :
    (runBootService toml (some bundle) stage).Ensures (GuestStep Cut) (GuestSafe toml etc)
      (fun _ _ => True) s := by
  have hrun (s₁ : Boot Text) (hs₁ : s₁.files = s.files) (stage : BootStage) :
      (GuestCmd.runStage stage bundle.fde).Ensures (GuestStep Cut) (GuestSafe toml etc)
        (fun _ _ => True) s₁ :=
    ⟨⟨text, by rw [hs₁, htext], bundle, hload, rfl⟩, fun _ _ _ _ _ => trivial⟩
  cases stage with
  | initrdFdeBeforeSysroot =>
    refine Ensures.bind (ensures_files_of_quiet
      (calls_syncTimeToSystem trivial trivial fun _ => trivial) rfl) fun _ s₁ hs₁ => ?_
    exact .context (hrun s₁ hs₁ _)
  | initrdFdeAfterSysroot => exact .context (hrun s rfl _)

/-- Every call of the service is as it has to be. -/
theorem safe_guest (stage : BootStage) (hinv : s.Inv toml Cut etc) :
    (guest toml debug stage).Ensures (GuestStep Cut) (GuestSafe toml etc) (fun _ _ => True) s := by
  refine Ensures.bind (ensures_copyConfigToInitrdStateIfNotExist hinv) fun _ s₁ _ => ?_
  refine Ensures.bind (Q := fun r s' => ∃ bundle text, r.2 = some bundle ∧
    s'.files cryptpilotInitrdStatePath = some text ∧
    InitrdState.load toml.toFormat (.ok text) = .ok ⟨bundle⟩) ?_ ?_
  · refine Ensures.bind ensures_getFdeConfigBundleFromState ?_
    rintro bundle s₂ ⟨text, htext, hload⟩
    exact ensures_pure.mpr ⟨bundle, text, rfl, htext, hload⟩
  · rintro ⟨_, _⟩ s₂ ⟨bundle, text, rfl, htext, hload⟩
    exact ensures_runBootService htext hload

end

/-! ## A boot with user data -/

section
variable {toml : ConfigText Text} {debug : Path → String} {bundle : FdeConfigBundle} {text : Text}

/-- The calls of the first start, up to the saved state. -/
def copyCalls (toml : ConfigText Text) (bundle : FdeConfigBundle) (text : Text) :
    List (GuestCall Text) :=
  [⟨.exist cryptpilotInitrdStatePath, false⟩, ⟨.checkIsAliyunEcs, Except.ok ()⟩,
    ⟨.getAliyunEcsCloudinitUserData, Except.ok text⟩, ⟨.connect, Except.ok ()⟩,
    ⟨.extendRuntimeMeasurement aaelDomain operationNameLoadConfigUntrusted
      (bundle.genHashHex toml), Except.ok ()⟩,
    ⟨.createDirAll "/var/run/cryptpilot", Except.ok ()⟩,
    ⟨.write cryptpilotInitrdStatePath (InitrdState.save toml.toFormat ⟨bundle⟩), Except.ok ()⟩]

/-- The calls of the first stage after that. -/
def beforeCalls (toml : ConfigText Text) (bundle : FdeConfigBundle) : List (GuestCall Text) :=
  [⟨.readToString cryptpilotInitrdStatePath, Except.ok (InitrdState.save toml.toFormat ⟨bundle⟩)⟩,
    ⟨.checkIsAliyunEcs, Except.error "Timed out"⟩,
    ⟨.runStage .initrdFdeBeforeSysroot bundle.fde, Except.ok ()⟩]

/-- The calls of the second stage. -/
def afterCalls (toml : ConfigText Text) (bundle : FdeConfigBundle) : List (GuestCall Text) :=
  [⟨.exist cryptpilotInitrdStatePath, true⟩,
    ⟨.readToString cryptpilotInitrdStatePath, Except.ok (InitrdState.save toml.toFormat ⟨bundle⟩)⟩,
    ⟨.runStage .initrdFdeAfterSysroot bundle.fde, Except.ok ()⟩]

theorem path_copyCalls (hparse : parseFromUserData toml text = .ok bundle) :
    Path (copyConfigToInitrdStateIfNotExist toml debug true) (copyCalls toml bundle text)
      (.done (.ok ())) := by
  have hcloud : Path (loadConfigFromCloudInit toml)
      [⟨.checkIsAliyunEcs, Except.ok ()⟩, ⟨.getAliyunEcsCloudinitUserData, Except.ok text⟩]
      (.done (.ok bundle)) := by
    rw [← hparse]
    exact .cons _ (.cons _ (.nil _))
  have hattempt : Path (attempt (loadConfigFromCloudInit toml))
      [⟨.checkIsAliyunEcs, Except.ok ()⟩, ⟨.getAliyunEcsCloudinitUserData, Except.ok text⟩]
      (.done (.ok (.ok bundle))) :=
    hcloud.andThen _
  have hload : Path (loadFdeConfigBundle toml debug true)
      [⟨.checkIsAliyunEcs, Except.ok ()⟩, ⟨.getAliyunEcsCloudinitUserData, Except.ok text⟩,
        ⟨.connect, Except.ok ()⟩,
        ⟨.extendRuntimeMeasurement aaelDomain operationNameLoadConfigUntrusted
          (bundle.genHashHex toml), Except.ok ()⟩]
      (.done (.ok bundle)) :=
    hattempt.bind (.cons _ (.cons _ (.nil _)))
  exact .cons _ (hload.bind (.cons _ (.cons _ (.nil _))))

/-- What is loaded is what was saved. -/
theorem eq_of_load_save {bundle bundle' : FdeConfigBundle}
    (h : InitrdState.load toml.toFormat (.ok (InitrdState.save toml.toFormat ⟨bundle⟩)) =
      .ok ⟨bundle'⟩) : bundle' = bundle := by
  have h' := mapError_eq_ok h
  obtain ⟨t, ht, hde⟩ := bind_eq_ok (show (do
    let t ← toml.parse (InitrdState.save toml.toFormat ⟨bundle⟩)
    (InitrdState.deserialize t).mapError toml.display) = .ok ⟨bundle'⟩ from h')
  rw [InitrdState.save, toml.parse_renderPretty _ (InitrdState.wellFormed_serialize ⟨bundle⟩)] at ht
  cases ht
  have hde' := mapError_eq_ok hde
  rw [InitrdState.deserialize_serialize] at hde'
  split at hde'
  · cases hde'
  · cases hde'
    rfl

theorem load_save (hkms : bundle.usesKms = false) :
    InitrdState.load toml.toFormat (.ok (InitrdState.save toml.toFormat ⟨bundle⟩)) =
      .ok ⟨bundle⟩ := by
  show addContext _ (do
    let t ← toml.parse (toml.renderPretty (InitrdState.serialize ⟨bundle⟩))
    (InitrdState.deserialize t).mapError toml.display) = _
  rw [toml.parse_renderPretty _ (InitrdState.wellFormed_serialize ⟨bundle⟩), ok_bind,
    InitrdState.deserialize_serialize, hkms]
  rfl

theorem path_getFdeConfigBundleCached (hkms : bundle.usesKms = false) :
    Path (getFdeConfigBundleCached toml none)
      [⟨.readToString cryptpilotInitrdStatePath,
        Except.ok (InitrdState.save toml.toFormat ⟨bundle⟩)⟩]
      (.done (.ok (bundle, some bundle))) := by
  have hload : Path (getFdeConfigBundleFromState toml)
      [⟨.readToString cryptpilotInitrdStatePath,
        Except.ok (InitrdState.save toml.toFormat ⟨bundle⟩)⟩] (.done (.ok bundle)) := by
    have hdone : (.done (.ok bundle) : GuestCmd Text FdeConfigBundle) = (do
        let state ← Prog.ofExcept (InitrdState.load toml.toFormat
          (.ok (InitrdState.save toml.toFormat ⟨bundle⟩)))
        return state.fdeConfigBundle) := by
      rw [load_save hkms]
      rfl
    rw [hdone]
    exact .cons _ (.nil _)
  exact hload.bind (.nil _)

theorem path_before (hparse : parseFromUserData toml text = .ok bundle)
    (hkms : bundle.usesKms = false) :
    Path (guest toml debug .initrdFdeBeforeSysroot)
      (copyCalls toml bundle text ++ beforeCalls toml bundle) (.done (.ok ())) := by
  refine (path_copyCalls hparse).bind ((path_getFdeConfigBundleCached hkms).bind ?_)
  exact .cons _ (.cons _ (.nil _))

theorem path_after (hkms : bundle.usesKms = false) :
    Path (guest toml debug .initrdFdeAfterSysroot) (afterCalls toml bundle) (.done (.ok ())) :=
  .cons _ ((path_getFdeConfigBundleCached hkms).bind (.cons _ (.nil _)))

/-! ## `config dump` -/

theorem FdeConfigBundle.wellFormed_serialize (bundle : FdeConfigBundle) :
    (Value.table bundle.serialize).WellFormed :=
  (wellFormed_table.mp (InitrdState.wellFormed_serialize ⟨bundle⟩)).2 _ List.mem_cons_self

/-- **User data that was dumped is read back as it was**, unless it uses a KMS. -/
theorem parseFromUserData_dumpText (bundle : FdeConfigBundle) :
    parseFromUserData toml (dumpText toml bundle) =
      if bundle.usesKms then addContext "Failed to parse cloud-init user data"
        (.error (toml.display missingClientKey))
      else .ok bundle := by
  have hblank : toml.isBlank (dumpText toml bundle) = false :=
    toml.isBlank_withLines _ _ ⟨_, List.mem_cons_self, '#', by decide +kernel, by decide⟩
  have hheader : toml.startsWith (dumpText toml bundle) cloudInitFdeConfigBundleHeader = true :=
    toml.startsWith_withLines _ _ _
  have hparse : toml.parse (dumpText toml bundle) = .ok bundle.serialize := by
    refine (toml.parse_withLines _ _ ?_).trans (toml.parse_renderPretty _ bundle.wellFormed_serialize)
    intro line hline
    simp only [List.mem_cons, List.not_mem_nil, or_false] at hline
    rcases hline with rfl | rfl | rfl | rfl | rfl | rfl | rfl
    · exact ⟨by decide +kernel, .inr (by decide +kernel)⟩
    · exact ⟨rfl, .inl rfl⟩
    · exact ⟨by decide +kernel, .inr (by decide +kernel)⟩
    · exact ⟨by decide +kernel, .inr (by decide +kernel)⟩
    · -- the hash is in hexadecimal
      have hdigit : ∀ n < 16, commentChar (Nat.digitChar n) = true := by decide
      rw [String.toList_append, List.all_append, Bool.and_eq_true]
      refine ⟨⟨by decide +kernel, List.all_eq_true.mpr fun c hc => ?_⟩, .inr rfl⟩
      obtain ⟨n, hn, rfl⟩ := mem_hexEncode hc
      exact hdigit n hn
    · exact ⟨rfl, .inl rfl⟩
    · exact ⟨rfl, .inl rfl⟩
  rw [parseFromUserData, hblank, hheader]
  show addContext _ (do
    let t ← toml.parse (dumpText toml bundle)
    (FdeConfigBundle.deserialize t).mapError toml.display) = _
  rw [hparse, ok_bind, FdeConfigBundle.deserialize_serialize]
  split_ifs <;> rfl

/-! ## Boots -/

variable {Cut : Text → Text → Prop}

/-- **The stages of a boot are run with one configuration that can be told from outside.** Whatever
the cloud answers, however often the service is started for whatever stage, and wherever it is
killed: each stage that is run is run with the configuration that is in the saved state, so all are
run with the same. It is the configuration in the initrd, or its hash was measured before; or no
agent could be connected to before; or the state is what was left of such a configuration by a write
that was cut short. -/
theorem stages_configured {etc : Path → Option Text} (hfresh : etc cryptpilotInitrdStatePath = none)
    {runs : List (Run (GuestOp Text) GuestOp.Res Unit BootStage)} {s' : Boot Text}
    (hruns : Runs (guest toml debug) (GuestStep Cut) Boot.Idle (Boot.fresh etc) runs s')
    {start : Start} (hstart : start ∈ s'.starts) :
    ∃ text bundle, s'.files cryptpilotInitrdStatePath = some text ∧
      InitrdState.load toml.toFormat (.ok text) = .ok ⟨bundle⟩ ∧ start.config = bundle.fde ∧
      (InInitrd toml etc bundle ∨ bundle.measurement toml ∈ start.log ∨ start.agentMissing = true ∨
        ∃ saved, Cut (InitrdState.save toml.toFormat ⟨saved⟩) text ∧
          Accounted toml etc start.log start.agentMissing saved) := by
  have hinv : s'.Inv toml Cut etc := by
    refine hruns.invariant (I := Boot.Inv toml Cut etc) (G := GuestSafe toml etc)
      (Q := fun r _ => ∀ a, r = .ok a → True) ⟨fun _ _ => rfl, ?_, ?_⟩ ?_
      (fun stage s hs => safe_guest stage hs) fun s op r s' hsafe hs hstep => hs.step hsafe hstep
    · intro text htext
      cases hfresh.symm.trans htext
    · intro start hstart
      cases hstart
    · rintro s _ ⟨more, rfl⟩ hs
      exact hs.quiet rfl rfl (List.prefix_append _ _) id
  obtain ⟨text, htext, ⟨bundle, hload, hconfig⟩, saved, hsaved, haccounted⟩ :=
    hinv.started start hstart
  refine ⟨text, bundle, htext, hload, hconfig, ?_⟩
  rcases hsaved with rfl | hcut
  · obtain rfl := eq_of_load_save hload
    exact haccounted.imp_right (Or.imp_right .inl)
  · exact .inr (.inr (.inr ⟨saved, hcut, haccounted⟩))

/-- The state after both stages, with a configuration from the cloud. -/
def twoStages (toml : ConfigText Text) (etc : Path → Option Text) (bundle : FdeConfigBundle) :
    Boot Text where
  files := Function.update etc cryptpilotInitrdStatePath
    (some (InitrdState.save toml.toFormat ⟨bundle⟩))
  log := [bundle.measurement toml]
  agentMissing := false
  starts := [⟨.initrdFdeBeforeSysroot, bundle.fde, [bundle.measurement toml], false⟩,
    ⟨.initrdFdeAfterSysroot, bundle.fde, [bundle.measurement toml], false⟩]

/-- Both stages, one after the other. -/
def twoRuns (toml : ConfigText Text) (bundle : FdeConfigBundle) :
    List (Run (GuestOp Text) GuestOp.Res Unit BootStage) :=
  [⟨.initrdFdeBeforeSysroot,
      copyCalls toml bundle (dumpText toml bundle) ++ beforeCalls toml bundle, .done (.ok ())⟩,
    ⟨.initrdFdeAfterSysroot, afterCalls toml bundle, .done (.ok ())⟩]

theorem runs_twoRuns {etc : Path → Option Text} (hfresh : etc cryptpilotInitrdStatePath = none)
    (hkms : bundle.usesKms = false) :
    Runs (guest toml debug) (GuestStep Cut) Boot.Idle (Boot.fresh etc) (twoRuns toml bundle)
      (twoStages toml etc bundle) := by
  have hparse : parseFromUserData toml (dumpText toml bundle) = .ok bundle := by
    rw [parseFromUserData_dumpText, hkms]
    rfl
  have hread (text : Text)
      (h : (Except.ok (InitrdState.save toml.toFormat ⟨bundle⟩) : Except String Text) = .ok text) :
      Function.update etc cryptpilotInitrdStatePath
        (some (InitrdState.save toml.toFormat ⟨bundle⟩)) cryptpilotInitrdStatePath = some text := by
    cases h
    exact Function.update_self ..
  have hidle (s : Boot Text) : Boot.Idle s s := ⟨[], by rw [List.append_nil]⟩
  have hexist : true = (Function.update etc cryptpilotInitrdStatePath
      (some (InitrdState.save toml.toFormat ⟨bundle⟩)) cryptpilotInitrdStatePath).isSome := by
    rw [Function.update_self]
    rfl
  have hmissing : false = (etc cryptpilotInitrdStatePath).isSome := by
    rw [hfresh]
    rfl
  have hbefore : Steps (GuestStep Cut) (Boot.fresh etc)
      (copyCalls toml bundle (dumpText toml bundle) ++ beforeCalls toml bundle)
      { twoStages toml etc bundle with starts := [⟨.initrdFdeBeforeSysroot, bundle.fde,
          [bundle.measurement toml], false⟩] } := by
    refine .cons ⟨hmissing, rfl⟩ ?_
    refine .cons rfl (.cons rfl (.cons (.inl ⟨rfl, rfl⟩) (.cons (.inl rfl) ?_)))
    exact .cons rfl (.cons (.inl rfl) (.cons ⟨hread, rfl⟩ (.cons rfl (.cons rfl (.nil _)))))
  refine .cons (hidle _) (path_before hparse hkms) hbefore (.cons (hidle _) (path_after hkms) ?_ (.nil _))
  exact .cons ⟨hexist, rfl⟩ (.cons ⟨hread, rfl⟩ (.cons rfl (.nil _)))

/-- Tables with lines in front, as texts. -/
def plainText : ConfigText (List String × Table) where
  render t := ([], t)
  renderPretty t := ([], t)
  parse text := .ok text.2
  display := plainFormat.display
  parse_renderPretty _ _ := rfl
  isBlank text := text.1.all (fun line => line.toList.all Data.Text.isWhitespace) && text.2.isEmpty
  startsWith text start := text.1.head?.any fun line => start.toList.isPrefixOf line.toList
  withLines lines text := (lines ++ text.1, text.2)
  sha384 text := [UInt8.ofNat text.2.length]
  isBlank_withLines := by
    rintro lines text ⟨line, hline, c, hc, hblank⟩
    rw [Bool.and_eq_false_iff, List.all_eq_false]
    refine .inl ⟨line, List.mem_append_left _ hline, ?_⟩
    rw [List.all_eq_true]
    intro hall
    rw [hall c hc] at hblank
    cases hblank
  startsWith_withLines line lines text := by simp
  parse_withLines _ _ _ := rfl

/-- One-time keys, and what is written stays in memory. -/
def otpBundle : FdeConfigBundle := ⟨none, some ⟨⟨some .ram, none, none⟩, ⟨false, ⟨.otp⟩⟩⟩⟩

theorem stages_configured_cloud :
    ∃ s', Runs (guest plainText id) (GuestStep fun _ _ => False) Boot.Idle (Boot.fresh fun _ => none)
        (twoRuns plainText otpBundle) s' ∧ s'.starts.length = 2 ∧
      ∀ start ∈ s'.starts, ∃ text bundle, s'.files cryptpilotInitrdStatePath = some text ∧
        InitrdState.load plainText.toFormat (.ok text) = .ok ⟨bundle⟩ ∧ start.config = bundle.fde ∧
        (InInitrd plainText (fun _ => none) bundle ∨ bundle.measurement plainText ∈ start.log ∨
          start.agentMissing = true ∨ ∃ saved, False ∧
            Accounted plainText (fun _ => none) start.log start.agentMissing saved) := by
  have hruns : Runs (guest plainText id) (GuestStep fun _ _ => False) Boot.Idle
      (Boot.fresh fun _ => none) (twoRuns plainText otpBundle)
      (twoStages plainText (fun _ => none) otpBundle) := runs_twoRuns rfl rfl
  exact ⟨_, hruns, rfl, fun start hstart => stages_configured rfl hruns hstart⟩

/-! ## What is measured -/

/-- What is measured was fetched as user data. -/
def FetchedBefore (toml : ConfigText Text) (past : List (GuestCall Text)) : GuestOp Text → Prop
  | .extendRuntimeMeasurement domain operation content => ∃ text bundle,
    ⟨.getAliyunEcsCloudinitUserData, Except.ok text⟩ ∈ past ∧
      parseFromUserData toml text = .ok bundle ∧
      (⟨domain, operation, content⟩ : Measurement) = bundle.measurement toml
  | _ => True

/-- An operation that measures nothing. -/
def GuestOp.Unmeasured : GuestOp Text → Prop
  | .extendRuntimeMeasurement .. => False
  | _ => True

theorem ensures_unmeasured {α : Type} {p : GuestCmd Text α} (hp : p.Calls GuestOp.Unmeasured)
    {past : List (GuestCall Text)} :
    p.Ensures record (FetchedBefore toml) (fun _ _ => True) past := by
  refine hp.ensures_true fun past op hop => ?_
  cases op with
  | extendRuntimeMeasurement => cases hop
  | _ => trivial

theorem unmeasured_loadConfigFile {α : Type} {name : String}
    {deserialize : Table → Except DeError α} {path : Path} :
    (loadConfigFile toml debug name deserialize path).Calls GuestOp.Unmeasured := by
  refine .bind ⟨trivial, fun _ => calls_done⟩ fun found => ?_
  cases found with
  | false => exact calls_done
  | true =>
    refine .bind (.context (.bind ⟨trivial, fun _ => calls_done⟩ fun _ => calls_done)) fun _ => ?_
    exact calls_done

theorem unmeasured_loadTrustedFdeConfigBundle :
    (loadTrustedFdeConfigBundle toml debug).Calls GuestOp.Unmeasured := by
  refine .bind (.attempt ?_) fun r => ?_
  · exact .bind unmeasured_loadConfigFile fun _ => .bind unmeasured_loadConfigFile fun _ => calls_done
  · cases r <;> exact calls_done

theorem unmeasured_runBootService {cached : Option FdeConfigBundle} {stage : BootStage} :
    (runBootService toml cached stage).Calls GuestOp.Unmeasured := by
  have hget : (getFdeConfigBundleCached toml cached).Calls GuestOp.Unmeasured := by
    cases cached with
    | some bundle => exact calls_done
    | none =>
      refine .bind (.bind (.attempt ⟨trivial, fun _ => calls_done⟩) fun _ => ?_) fun _ => calls_done
      exact .bind calls_done fun _ => calls_done
  have hrun (stage : BootStage) : (getFdeConfigBundleCached toml cached >>= fun found =>
      GuestCmd.runStage stage found.1.fde).Calls GuestOp.Unmeasured :=
    .bind hget fun _ => ⟨trivial, fun _ => calls_done⟩
  cases stage with
  | initrdFdeAfterSysroot => exact .context (hrun _)
  | initrdFdeBeforeSysroot =>
    exact .bind (calls_syncTimeToSystem trivial trivial fun _ => trivial) fun _ => .context (hrun _)

/-- The configuration that comes from the cloud is what was fetched. -/
theorem ensures_loadConfigFromCloudInit {past : List (GuestCall Text)} :
    (loadConfigFromCloudInit toml).Ensures record (FetchedBefore toml)
      (fun bundle past => ∃ text, ⟨.getAliyunEcsCloudinitUserData, Except.ok text⟩ ∈ past ∧
        parseFromUserData toml text = .ok bundle) past := by
  refine Ensures.bind (Q := fun _ _ => True) ?_ fun _ past₁ _ => ?_
  · exact ensures_unmeasured
      (Calls.context (p := GuestCmd.checkIsAliyunEcs) ⟨trivial, fun _ => calls_done⟩)
  · refine Ensures.bind (Q := fun text past =>
      ⟨.getAliyunEcsCloudinitUserData, Except.ok text⟩ ∈ past) ⟨trivial, fun r past' hr => ?_⟩ ?_
    · rintro text rfl
      rw [hr]
      exact List.mem_append_right _ (List.mem_singleton.mpr rfl)
    · exact fun text past₂ htext bundle hparse => ⟨text, htext, hparse⟩

theorem ensures_guest {stage : BootStage} :
    (guest toml debug stage).Ensures record (FetchedBefore toml) (fun _ _ => True) [] := by
  have htrusted {past : List (GuestCall Text)} : (loadTrustedFdeConfigBundle toml debug).Ensures
      record (FetchedBefore toml) (fun _ _ => True) past :=
    ensures_unmeasured unmeasured_loadTrustedFdeConfigBundle
  have hload {past : List (GuestCall Text)} : (loadFdeConfigBundle toml debug true).Ensures
      record (FetchedBefore toml) (fun _ _ => True) past := by
    refine Ensures.bind ensures_loadConfigFromCloudInit.attempt fun r past₁ hr => ?_
    cases r with
    | error e => exact htrusted
    | ok bundle =>
      obtain ⟨text, htext, hparse⟩ := hr bundle rfl
      -- what was fetched has still been fetched when the agent is there
      have hnew : (AutoDetectMeasure.new : GuestCmd Text AutoDetectMeasure).Calls
          GuestOp.Unmeasured := by
        refine .bind (.attempt ⟨trivial, fun _ => calls_done⟩) fun r => ?_
        cases r <;> exact calls_done
      refine Ensures.bind (hnew.ensures (G := FetchedBefore toml)
        (I := fun past => ⟨.getAliyunEcsCloudinitUserData, Except.ok text⟩ ∈ past) ?_ ?_ htext)
        fun measure past₂ htext₂ => ?_
      · rintro past op r past' - hpast rfl
        exact List.mem_append_left _ hpast
      · intro past op hop _
        cases op with
        | extendRuntimeMeasurement => cases hop
        | _ => trivial
      · refine Ensures.bind (Q := fun _ _ => True) ?_ fun r past₃ _ => ?_
        · refine Ensures.mono (Ensures.attempt (Q := fun _ _ => True) (.context ?_))
            fun _ _ _ => trivial
          cases measure with
          | nope => exact ensures_pure.mpr trivial
          | aael =>
            exact .context ⟨⟨text, bundle, htext₂, hparse, rfl⟩, fun _ _ _ _ _ => trivial⟩
        · cases r with
          | ok u => exact ensures_pure.mpr trivial
          | error e => exact htrusted
  refine Ensures.bind (Q := fun _ _ => True) ?_ fun _ past₁ _ => ?_
  · refine Ensures.bind (Q := fun _ _ => True) ⟨trivial, fun _ _ _ _ _ => trivial⟩
      fun found past₁ _ => ?_
    cases found with
    | true => exact ensures_pure.mpr trivial
    | false =>
      refine Ensures.bind hload fun bundle past₂ _ => ensures_unmeasured ?_
      exact .bind ⟨trivial, fun _ => calls_done⟩ fun _ => ⟨trivial, fun _ => calls_done⟩
  · refine ensures_unmeasured (.bind ?_ fun _ => unmeasured_runBootService)
    refine .bind (.bind (.attempt ⟨trivial, fun _ => calls_done⟩) fun _ => ?_) fun _ => calls_done
    exact .bind calls_done fun _ => calls_done

/-- **What `config dump` prints is what is measured.** The user data is what `config dump` printed.
Then the start of any stage, wherever it ends, tells the agent the hash that was printed with it and
nothing else, and nothing at all if the configuration uses a KMS. -/
theorem dump_measured {kernels : List (Except String FdeConfigBundle)} {printed : Text}
    (hdump : configDump toml kernels = .ok printed) {stage : BootStage} {es : List (GuestCall Text)}
    {rest : GuestCmd Text Unit} (hpath : Path (guest toml debug stage) es rest)
    (hdata : ∀ text, ⟨.getAliyunEcsCloudinitUserData, Except.ok text⟩ ∈ es → text = printed) :
    ∃ bundle, Except.ok bundle ∈ kernels ∧ printed = dumpText toml bundle ∧
      ∀ domain operation content r, ⟨.extendRuntimeMeasurement domain operation content, r⟩ ∈ es →
        domain = aaelDomain ∧ operation = operationNameLoadConfigUntrusted ∧
          content = bundle.genHashHex toml ∧ bundle.usesKms = false := by
  unfold configDump at hdump
  split at hdump
  · cases hdump
  next bundle others hbundles =>
    cases hdump
    have hmem : bundle ∈ kernels.filterMap Except.toOption := by
      rw [hbundles]
      exact List.mem_cons_self
    obtain ⟨kernel, hkernel, hok⟩ := List.mem_filterMap.mp hmem
    refine ⟨bundle, ?_, rfl, fun domain operation content r hextend => ?_⟩
    · cases kernel with
      | error e => cases hok
      | ok bundle' =>
        cases hok
        exact hkernel
    · obtain ⟨pre, post, rfl⟩ := List.mem_iff_append.mp hextend
      obtain ⟨-, hcalls⟩ := Safe.trace ensures_guest hpath
      obtain ⟨text, bundle', hfetched, hparse, hmeasurement⟩ := hcalls pre _ post rfl
      rw [hdata text (List.mem_append_left _ hfetched), parseFromUserData_dumpText] at hparse
      split_ifs at hparse with hkms
      · cases hparse
      · cases hparse
        cases hmeasurement
        exact ⟨rfl, rfl, rfl, by simpa using hkms⟩

theorem dump_measured_otp :
    ∃ es rest, Path (guest plainText id .initrdFdeBeforeSysroot) es rest ∧
      configDump plainText [.error "Failed to unpack initrd", .ok otpBundle] =
        .ok (dumpText plainText otpBundle) ∧
      ∃ bundle, Except.ok bundle ∈ [.error "Failed to unpack initrd", .ok otpBundle] ∧
        dumpText plainText otpBundle = dumpText plainText bundle ∧
        ∀ domain operation content r, ⟨.extendRuntimeMeasurement domain operation content, r⟩ ∈ es →
          domain = aaelDomain ∧ operation = operationNameLoadConfigUntrusted ∧
            content = bundle.genHashHex plainText ∧ bundle.usesKms = false := by
  have hparse : parseFromUserData plainText (dumpText plainText otpBundle) = .ok otpBundle :=
    parseFromUserData_dumpText otpBundle
  have hpath : Path (guest plainText id .initrdFdeBeforeSysroot) _ (.done (.ok ())) :=
    path_before hparse rfl
  refine ⟨_, _, hpath, rfl, dump_measured rfl hpath fun text htext => ?_⟩
  -- there is only one call for user data
  rcases htext with _ | ⟨_, _ | ⟨_, _ | ⟨_, _ | ⟨_, _ | ⟨_, _ | ⟨_, _ | ⟨_, _ | ⟨_, _ | ⟨_, _ | ⟨_, ⟨⟩⟩⟩⟩⟩⟩⟩⟩⟩⟩⟩
  rfl

end

end CryptPilot.Fde
