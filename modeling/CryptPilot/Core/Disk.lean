import CryptPilot.Core.Luks2

/-!
# A disk

What the operations do to one block device: to its header, to the encrypted volume behind it, and
to the mappings through which the volume is open. Operations on other devices do not concern it.

An operation can have several outcomes. What is assumed of libcryptsetup: formatting, adding a key
slot and setting a label happen or fail, and write the header as a whole. Of other tools: they do
not write a LUKS2 header, and the tools for ext4 fail on anything else.
-/

namespace CryptPilot.Core

open CryptPilot.Data CryptPilot.Data.Prog

/-- What is found at the beginning of the volume. -/
inductive Content where
  | blank
  | fs (type : MakeFsType)
  | cow
  | other
  deriving DecidableEq

/-- What `blkid` can say of it. -/
def Content.Probes : Content → BlkidProbeResult → Prop
  | .blank, probe => probe = .noSignatures
  | .fs type, probe => ∃ ptType subsystem, probe = .knownSignature (some type.name) ptType subsystem
  | .cow, probe => probe.isDmSnapshotCow = true
  | .other, _ => True

/-- A device. `mapped` are the names under which the volume is open, and `data` is what was written
to the volume and can be read from it. -/
structure Disk (δ : Type) where
  present : Bool
  header : Header
  mapped : List String
  content : Content
  data : Option δ

namespace Disk

variable {δ : Type}

/-- The node of a mapping. -/
def node (volume : String) : Path := "/dev/mapper/" ++ volume

/-- The volume is open at a path. -/
def OpenAt (s : Disk δ) (path : Path) : Prop := ∃ volume ∈ s.mapped, path = node volume

instance (s : Disk δ) (path : Path) : Decidable (s.OpenAt path) :=
  inferInstanceAs (Decidable (∃ volume ∈ s.mapped, path = node volume))

/-- The state of the initialization, as the header has it. -/
def initState (s : Disk δ) : VolumeInitState := s.header.initState

/-- What is written over the first bytes at a path. -/
def Overwrites (dev : Path) (s : Disk δ) (path : Path) (content : Content → Prop) (s' : Disk δ) :
    Prop :=
  if path = dev then
    ∃ header, (header = s.header ∨ header.initState = .none) ∧ s' = { s with header := header }
  else if s.OpenAt path then
    ∃ c d, content c ∧ (s.data = none → d = none) ∧ s' = { s with content := c, data := d }
  else s' = s

/-- What an action does to a disk. One that fails does nothing, unless it was writing. -/
def Acts (dev : Path) (s : Disk δ) (action : Action) (r : Except String Unit) (s' : Disk δ) : Prop :=
  match action with
  | .cryptFormat d subsystem _ =>
    if d = dev ∧ r.isOk then
      s.mapped = [] ∧ ∃ header, header.initState = .ofSubsystem subsystem ∧
        s' = { s with header := header, content := .blank, data := none }
    else s' = s
  | .addByKey d _ =>
    if d = dev ∧ r.isOk then
      ∃ header, header.initState = s.initState ∧ s' = { s with header := header }
    else s' = s
  | .setLabel d subsystem =>
    if d = dev ∧ r.isOk then
      ∃ header, header.initState = .ofSubsystem subsystem ∧ s' = { s with header := header }
    else s' = s
  | .activateByPassphrase (some name) d _ _ =>
    (r.isOk → '/' ∉ name.toList) ∧
      s' = if d = dev ∧ r.isOk then { s with mapped := name :: s.mapped } else s
  | .deactivate name =>
    s' = if r.isOk then { s with mapped := s.mapped.filter (· ≠ name) } else s
  | .mkfs path fs _ => s.Overwrites dev path (fun c => r.isOk → c = .fs fs) s'
  | .writeZeros path => s.Overwrites dev path (fun c => r.isOk → c = .blank) s'
  | .lvcreate path =>
    if path = dev ∧ r.isOk then s.present = false ∧ s' = { s with present := true } else s' = s
  | .dmsetup _ (.snapshot _ _ path true) =>
    -- the header of a persistent snapshot is written when it is created
    if s.OpenAt path then s' = { s with content := .cow } ∨ ¬r.isOk ∧ s' = s else s' = s
  | .tune2fs path | .resize2fs path => (r.isOk → s.OpenAt path → s.content = .fs .ext4) ∧ s' = s
  | _ => s' = s

/-- What is known of an answer. -/
def Answers (dev : Path) (s : Disk δ) : (op : Op) → op.Res → Prop
  | .pathExists path, r => (path = dev → r = true → s.present = true) ∧ (s.OpenAt path → r = true)
  | .readHeader d, r => d = dev → ∀ header : Header, r = Except.ok header → header = s.header
  | .openExclusive d, r => d = dev → r = ExclusiveOpen.opened → s.mapped = []
  | .blkid path, r =>
    s.OpenAt path → ∀ probe : BlkidProbeResult, r = Except.ok probe → s.content.Probes probe
  | _, _ => True

/-- **One operation.** -/
def Step (dev : Path) (s : Disk δ) : (op : Op) → op.Res → Disk δ → Prop
  | .act action, r, s' => s.Acts dev action r s'
  | op, r, s' => s.Answers dev op r ∧ s' = s

/-! ## What operations change -/

theorem ofSubsystem_eq_ready {subsystem : String} :
    VolumeInitState.ofSubsystem subsystem = .ready ↔ subsystem = luks2SubsystemName := by
  rw [VolumeInitState.ofSubsystem]
  split_ifs with hname hinit <;> simp [hname]

theorem eq_ok_of_isOk {r : Except String Unit} (h : r.isOk) : r = .ok () := by
  cases r with
  | error e => cases h
  | ok u => rfl

/-- A call that gives the header the marker of a volume that is ready. -/
def MarksReady (dev : Path) (e : Call) : Prop :=
  e = ⟨.act (.setLabel dev luks2SubsystemName), Except.ok ()⟩ ∨
    ∃ integrity, e = ⟨.act (.cryptFormat dev luks2SubsystemName integrity), Except.ok ()⟩

section
variable {dev : Path} {s s' : Disk δ}

/-- All that an operation can do. -/
inductive Changes (dev : Path) (s : Disk δ) : Call → Disk δ → Prop
  | mapping {e : Call} (mapped : List String) : Changes dev s e { s with mapped := mapped }
  | format {subsystem : String} {integrity : IntegrityType} {header : Header}
      (hheader : header.initState = .ofSubsystem subsystem) :
      Changes dev s ⟨.act (.cryptFormat dev subsystem integrity), Except.ok ()⟩
        { s with header := header, content := .blank, data := none }
  | label {subsystem : String} {header : Header} (hheader : header.initState = .ofSubsystem subsystem) :
      Changes dev s ⟨.act (.setLabel dev subsystem), Except.ok ()⟩ { s with header := header }
  | keySlot {e : Call} {header : Header} (hheader : header.initState = s.initState) :
      Changes dev s e { s with header := header }
  | erase {e : Call} {header : Header} (hheader : header.initState = .none) :
      Changes dev s e { s with header := header }
  | write {e : Call} {c : Content} {d : Option δ} (hd : s.data = none → d = none) :
      Changes dev s e { s with content := c, data := d }
  | create {e : Call} : Changes dev s e { s with present := true }

theorem changes_self {e : Call} : s.Changes dev e s := .mapping s.mapped

theorem Overwrites.changes {e : Call} {path : Path} {content : Content → Prop}
    (h : s.Overwrites dev path content s') : s.Changes dev e s' := by
  unfold Overwrites at h
  split_ifs at h
  · obtain ⟨header, rfl | hheader, rfl⟩ := h
    · exact changes_self
    · exact .erase hheader
  · obtain ⟨c, d, _, hd, rfl⟩ := h
    exact .write hd
  · exact h ▸ changes_self

/-- Every case of `Acts` is one of these. -/
theorem Step.changes {e : Call} (h : s.Step dev e.op e.res s') : s.Changes dev e s' := by
  obtain ⟨op, r⟩ := e
  cases op with
  | act action =>
    change s.Acts dev action r s' at h
    unfold Acts at h
    split at h
    · split_ifs at h with hd
      · obtain ⟨_, header, hheader, rfl⟩ := h
        obtain ⟨rfl, hr⟩ := hd
        rw [eq_ok_of_isOk hr]
        exact .format hheader
      · exact h ▸ changes_self
    · split_ifs at h
      · obtain ⟨header, hheader, rfl⟩ := h
        exact .keySlot hheader
      · exact h ▸ changes_self
    · split_ifs at h with hd
      · obtain ⟨header, hheader, rfl⟩ := h
        obtain ⟨rfl, hr⟩ := hd
        rw [eq_ok_of_isOk hr]
        exact .label hheader
      · exact h ▸ changes_self
    · obtain ⟨_, rfl⟩ := h
      split_ifs
      · exact .mapping _
      · exact changes_self
    · subst h
      split_ifs
      · exact .mapping _
      · exact changes_self
    iterate 2
      · exact h.changes
    · split_ifs at h
      · obtain ⟨_, rfl⟩ := h
        exact .create
      · exact h ▸ changes_self
    · split_ifs at h
      · rcases h with rfl | ⟨_, rfl⟩
        · exact .write id
        · exact changes_self
      · exact h ▸ changes_self
    iterate 2
      · exact h.2 ▸ changes_self
    · exact h ▸ changes_self
  | _ => exact h.2 ▸ changes_self

/-- **Nothing else makes a volume ready.** -/
theorem Step.ready {e : Call} (h : s.Step dev e.op e.res s') (hready : s'.initState = .ready) :
    s.initState = .ready ∨ MarksReady dev e := by
  cases h.changes with
  | mapping => exact .inl hready
  | format hheader =>
    obtain rfl := ofSubsystem_eq_ready.mp (hheader.symm.trans hready)
    exact .inr (.inr ⟨_, rfl⟩)
  | label hheader =>
    obtain rfl := ofSubsystem_eq_ready.mp (hheader.symm.trans hready)
    exact .inr (.inl rfl)
  | keySlot hheader => exact .inl (hheader.symm.trans hready)
  | erase hheader => exact absurd (hheader.symm.trans hready) (by decide)
  | write => exact .inl hready
  | create => exact .inl hready

/-- Without such a call, what is ready was ready before. -/
theorem ready_of_steps {es : List Call} (h : Steps (Step dev) s es s')
    (hes : ∀ e ∈ es, ¬MarksReady dev e) (hready : s'.initState = .ready) : s.initState = .ready := by
  by_contra hs
  have hnot : s'.initState ≠ .ready := by
    refine h.invariant (I := fun s => s.initState ≠ .ready) hs fun e he s s' hs hstep hready => ?_
    exact (hstep.ready hready).elim hs (hes e he)
  exact hnot hready

/-- What is read is what is there. -/
theorem Step.readHeader {header : Header} (h : s.Step dev (.readHeader dev) (Except.ok header) s') :
    header = s.header ∧ s' = s :=
  ⟨h.1 rfl header rfl, h.2⟩

theorem Step.cryptFormat {subsystem : String} {integrity : IntegrityType}
    (h : s.Step dev (.act (.cryptFormat dev subsystem integrity)) (Except.ok ()) s') :
    s.mapped = [] ∧ ∃ header, header.initState = .ofSubsystem subsystem ∧
      s' = { s with header := header, content := .blank, data := none } := by
  have hacts : s.Acts dev (.cryptFormat dev subsystem integrity) (.ok ()) s' := h
  rwa [Acts, if_pos ⟨rfl, rfl⟩] at hacts

theorem Step.setLabel {subsystem : String}
    (h : s.Step dev (.act (.setLabel dev subsystem)) (Except.ok ()) s') :
    ∃ header, header.initState = .ofSubsystem subsystem ∧ s' = { s with header := header } := by
  have hacts : s.Acts dev (.setLabel dev subsystem) (.ok ()) s' := h
  rwa [Acts, if_pos ⟨rfl, rfl⟩] at hacts

theorem Step.lvcreate (h : s.Step dev (.act (.lvcreate dev)) (Except.ok ()) s') :
    s.present = false ∧ s' = { s with present := true } := by
  have hacts : s.Acts dev (.lvcreate dev) (.ok ()) s' := h
  rwa [Acts, if_pos ⟨rfl, rfl⟩] at hacts

theorem Step.activate {volume : String} {passphrase : Passphrase} {noJournal : Bool}
    (h : s.Step dev (.act (.activateByPassphrase (some volume) dev passphrase noJournal))
      (Except.ok ()) s') : s' = { s with mapped := volume :: s.mapped } :=
  h.2.trans (if_pos ⟨rfl, rfl⟩)

/-- A persistent snapshot on the volume leaves its own signature. -/
theorem Step.snapshot {name : String} {size : UInt64} {origin path : Path} (hopen : s.OpenAt path)
    (h : s.Step dev (.act (.dmsetup name (.snapshot size origin path true))) (Except.ok ()) s') :
    s' = { s with content := .cow } := by
  have hacts : s.Acts dev (.dmsetup name (.snapshot size origin path true)) (.ok ()) s' := h
  rw [Acts, if_pos hopen] at hacts
  exact hacts.resolve_right fun hfailed => hfailed.1 rfl

theorem Acts.snapshot {name : String} {size : UInt64} {origin path : Path} {persistent : Bool}
    {r : Except String Unit}
    (h : s.Acts dev (.dmsetup name (.snapshot size origin path persistent)) r s') :
    s' = { s with content := .cow } ∨ s' = s := by
  cases persistent with
  | false => exact .inr h
  | true =>
    rw [Acts] at h
    split_ifs at h
    · exact h.imp_right And.right
    · exact .inr h

theorem Acts.lvcreate {path : Path} {r : Except String Unit}
    (h : s.Acts dev (.lvcreate path) r s') : s.present = false ∨ s' = s := by
  rw [Acts] at h
  split_ifs at h
  · exact .inl h.1
  · exact .inr h

/-- What is written to the volume, and not to the device. -/
theorem Overwrites.openAt {path : Path} {content : Content → Prop}
    (h : s.Overwrites dev path content s') (hpath : path ≠ dev) (hopen : s.OpenAt path) :
    ∃ c d, content c ∧ (s.data = none → d = none) ∧ s' = { s with content := c, data := d } := by
  rwa [Overwrites, if_neg hpath, if_pos hopen] at h

theorem Step.mkfs {path : Path} {fs : MakeFsType} {integrity : IntegrityType}
    (h : s.Step dev (.act (.mkfs path fs integrity)) (Except.ok ()) s') (hpath : path ≠ dev)
    (hopen : s.OpenAt path) : ∃ d, s' = { s with content := .fs fs, data := d } := by
  have hwrites : s.Overwrites dev path (fun c => (Except.ok () : Except String Unit).isOk → c = .fs fs)
    s' := h
  obtain ⟨c, d, hc, _, rfl⟩ := hwrites.openAt hpath hopen
  exact ⟨d, by rw [hc rfl]⟩

theorem Step.writeZeros {path : Path}
    (h : s.Step dev (.act (.writeZeros path)) (Except.ok ()) s') (hpath : path ≠ dev)
    (hopen : s.OpenAt path) : ∃ d, s' = { s with content := .blank, data := d } := by
  have hwrites : s.Overwrites dev path (fun c => (Except.ok () : Except String Unit).isOk → c = .blank)
    s' := h
  obtain ⟨c, d, hc, _, rfl⟩ := hwrites.openAt hpath hopen
  exact ⟨d, by rw [hc rfl]⟩

/-- What a device has for good: it is there, and what cannot be read does not come back. -/
def Lasts (s s' : Disk δ) : Prop :=
  (s.present = true → s'.present = true) ∧ (s.data = none → s'.data = none)

theorem Step.lasts {op : Op} {r : op.Res} (h : s.Step dev op r s') : s.Lasts s' := by
  have hchanges : s.Changes dev ⟨op, r⟩ s' := Step.changes h
  cases hchanges with
  | format => exact ⟨id, fun _ => rfl⟩
  | write hd => exact ⟨id, hd⟩
  | create => exact ⟨fun _ => rfl, id⟩
  | _ => exact ⟨id, id⟩

/-- The name of an open volume is that of a node. -/
theorem Step.volumePath {volume : String} {d : Path} {passphrase : Passphrase} {noJournal : Bool}
    (h : s.Step dev (.act (.activateByPassphrase (some volume) d passphrase noJournal))
      (Except.ok ()) s') : volumePath volume = node volume := by
  have hname : '/' ∉ volume.toList := h.1 rfl
  rw [Core.volumePath, if_neg fun hhead => hname (List.mem_of_head? hhead), node]

/-! What can happen. -/

theorem acts_cryptFormat {subsystem : String} (integrity : IntegrityType) {header : Header}
    (hmapped : s.mapped = []) (hheader : header.initState = .ofSubsystem subsystem) :
    s.Acts dev (.cryptFormat dev subsystem integrity) (.ok ())
      { s with header := header, content := .blank, data := none } := by
  rw [Acts, if_pos ⟨rfl, rfl⟩]
  exact ⟨hmapped, header, hheader, rfl⟩

theorem acts_addByKey (passphrase : Passphrase) :
    s.Acts dev (.addByKey dev passphrase) (.ok ()) s := by
  rw [Acts, if_pos ⟨rfl, rfl⟩]
  exact ⟨s.header, rfl, rfl⟩

theorem acts_mkfs {path : Path} (fs : MakeFsType) (integrity : IntegrityType) (hpath : path ≠ dev)
    (hopen : s.OpenAt path) :
    s.Acts dev (.mkfs path fs integrity) (.ok ()) { s with content := .fs fs, data := none } := by
  rw [Acts, Overwrites, if_neg hpath, if_pos hopen]
  exact ⟨.fs fs, none, fun _ => rfl, fun _ => rfl, rfl⟩

theorem acts_setLabel {subsystem : String} {header : Header}
    (hheader : header.initState = .ofSubsystem subsystem) :
    s.Acts dev (.setLabel dev subsystem) (.ok ()) { s with header := header } := by
  rw [Acts, if_pos ⟨rfl, rfl⟩]
  exact ⟨header, hheader, rfl⟩

end

end Disk

/-! ## Operations that do not write -/

/-- Nothing is written to a device. -/
def Op.Quiet : Op → Prop
  | .act (.cryptFormat ..) | .act (.addByKey ..) | .act (.setLabel ..) | .act (.mkfs ..)
  | .act (.writeZeros _) | .act (.lvcreate _) | .act (.dmsetup _ (.snapshot ..)) => False
  | _ => True

/-- Nothing is done to a device, nor to the mappings of its volume. -/
def Op.Inert (dev : Path) : Op → Prop
  | .act (.activateByPassphrase (some _) d _ _) => d ≠ dev
  | .act (.deactivate _) => False
  | op => op.Quiet

/-- No device is formatted, and no label is set. -/
def Op.Neutral : Op → Prop
  | .act (.cryptFormat ..) | .act (.setLabel ..) => False
  | _ => True

theorem Op.Quiet.not_marksReady {dev : Path} {e : Call} (h : e.op.Quiet) :
    ¬Disk.MarksReady dev e := by
  rintro (rfl | ⟨integrity, rfl⟩) <;> exact h

theorem Op.Quiet.neutral {op : Op} (h : op.Quiet) : op.Neutral := by
  cases op with
  | act action => cases action <;> trivial
  | _ => trivial

theorem Op.Inert.quiet {dev : Path} {op : Op} (h : op.Inert dev) : op.Quiet := by
  unfold Op.Inert at h
  split at h
  · trivial
  · trivial
  · exact h

/-- The disk stays as it is. -/
theorem Disk.Step.inert {δ : Type} {dev : Path} {s s' : Disk δ} {op : Op} {r : op.Res}
    (h : s.Step dev op r s') (hop : op.Inert dev) : s' = s := by
  cases op with
  | act action =>
    change s.Acts dev action r s' at h
    cases action with
    | cryptFormat => exact hop.elim
    | addByKey => exact hop.elim
    | setLabel => exact hop.elim
    | deactivate => exact hop.elim
    | mkfs => exact hop.elim
    | writeZeros => exact hop.elim
    | lvcreate => exact hop.elim
    | activateByPassphrase name d passphrase noJournal =>
      cases name with
      | none => exact h
      | some name => exact h.2.trans (if_neg fun hd => hop hd.1)
    | dmsetup name table =>
      cases table with
      | linear => exact h
      | snapshot => exact hop.elim
    | tune2fs => exact h.2
    | resize2fs => exact h.2
    | _ => exact h
  | _ => exact h.2

theorem calls_act {P : Op → Prop} {action : Action} (h : P (.act action)) : (act action).Calls P :=
  ⟨h, fun _ => calls_done⟩

theorem calls_pathExists {P : Op → Prop} {path : Path} (h : P (.pathExists path)) :
    (pathExists path).Calls P :=
  ⟨h, fun _ => calls_done⟩

theorem calls_getKey {P : Op → Prop} {provider : KeyProviderConfig} (h : P (.getKey provider)) :
    (getKey provider).Calls P :=
  ⟨h, fun _ => calls_done⟩

theorem calls_getInitState {P : Op → Prop} {dev : Path} (h : P (.readHeader dev)) :
    (getInitState dev).Calls P := by
  rw [getInitState_eq]
  exact ⟨h, fun _ => calls_done⟩

theorem calls_isInitialized {P : Op → Prop} {dev : Path} (h : P (.readHeader dev)) :
    (isInitialized dev).Calls P :=
  .bind (calls_getInitState h) fun _ => calls_done

theorem calls_isDevInUse {P : Op → Prop} {dev : Path} (h : P (.openExclusive dev)) :
    (isDevInUse dev).Calls P := by
  refine .bind ⟨h, fun _ => calls_done⟩ fun outcome => ?_
  cases outcome <;> exact calls_done

theorem calls_hasValuableData {P : Op → Prop} {debug : String → String} {path : Path}
    {fsHint : Option MakeFsType} (h : P (.blkid path)) :
    (hasValuableData debug path fsHint).Calls P := by
  refine .bind (.context ⟨h, fun _ => calls_done⟩) fun probe => ?_
  rcases probe with _ | ⟨fsType, _, _⟩
  · exact calls_done
  · cases fsHint with
    | none => exact calls_done
    | some expected => dsimp only; split_ifs <;> exact calls_done

theorem ensures_isInitialized {σ : Type} {sem : σ → (op : Op) → op.Res → σ → Prop}
    {G : σ → Op → Prop} {s : σ} {dev : Path} {Q : Bool → σ → Prop} (hG : G s (.readHeader dev))
    (h : ∀ r s', sem s (.readHeader dev) r s' → Q (initStateOf r = .ready) s') :
    (isInitialized dev).Ensures sem G Q s := by
  rw [isInitialized, getInitState_eq]
  exact ⟨hG, fun r s' hs' => ensures_pure.mpr (h r s' hs')⟩

theorem ensures_attempt_getInitState {σ : Type} {sem : σ → (op : Op) → op.Res → σ → Prop}
    {G : σ → Op → Prop} {s : σ} {dev : Path} (hG : G s (.readHeader dev)) :
    (attempt (getInitState dev)).Ensures sem G
      (fun x s' => ∃ r, x = .ok (initStateOf r) ∧ sem s (.readHeader dev) r s') s := by
  rw [getInitState_eq]
  exact ⟨hG, fun r s' hs' => ensures_pure.mpr ⟨r, rfl, hs'⟩⟩

theorem initStateOf_eq_ready {r : Except String Header} (h : initStateOf r = .ready) :
    ∃ header, r = .ok header ∧ header.initState = .ready := by
  cases r with
  | error e => cases h
  | ok header => exact ⟨header, rfl, h⟩

section
variable {debug : String → String} {dev : Path} {passphrase : Passphrase} {integrity : IntegrityType}

theorem inert_checkPassphrase {d : Path} :
    (checkPassphrase debug dev passphrase).Calls (Op.Inert d) :=
  .context (.bind (calls_act trivial) fun _ => .bind (calls_act trivial) fun _ => calls_act trivial)

theorem quiet_checkPassphrase : (checkPassphrase debug dev passphrase).Calls Op.Quiet :=
  (inert_checkPassphrase (d := dev)).mono fun _ => Op.Inert.quiet

/-- Opening the volume on another device. -/
theorem inert_openWithCheckPassphrase {volume : String} {d : Path} (hd : dev ≠ d) :
    (openWithCheckPassphrase debug volume dev passphrase integrity).Calls (Op.Inert d) := by
  refine .bind (.context inert_checkPassphrase) fun _ => .context ?_
  exact .bind (calls_act trivial) fun _ => .bind (calls_act trivial) fun _ => calls_act hd

theorem quiet_openWithCheckPassphrase {volume : String} :
    (openWithCheckPassphrase debug volume dev passphrase integrity).Calls Op.Quiet := by
  refine .bind (.context quiet_checkPassphrase) fun _ => .context ?_
  exact .bind (calls_act trivial) fun _ => .bind (calls_act trivial) fun _ => calls_act trivial

theorem quiet_close {volume : String} : (close volume).Calls Op.Quiet :=
  .context (.bind (calls_act trivial) fun _ => calls_act trivial)

theorem quiet_hasValuableData {path : Path} {fsHint : Option MakeFsType} :
    (hasValuableData debug path fsHint).Calls Op.Quiet :=
  calls_hasValuableData trivial

end

/-! ## Headers -/

/-- A header with a marker, and nothing else in it. -/
def Header.marked (subsystem : Bytes) : Header :=
  ⟨([0x4C, 0x55, 0x4B, 0x53, 0xBA, 0xBE, 0, 2] ++ List.replicate 200 0 ++ subsystem ++
    List.replicate 4096 0).take 4096, by
      rw [List.length_take, List.length_append, List.length_replicate]
      omega⟩

/-- The header of a volume that is ready. -/
def Header.readyMark : Header := .marked [99, 114, 121, 112, 116, 112, 105, 108, 111, 116]

/-- The header of a volume whose initialization has begun. -/
def Header.initializingMark : Header :=
  .marked [99, 114, 121, 112, 116, 112, 105, 108, 111, 116, 45, 105, 110, 105, 116, 105, 97, 108, 105,
    122, 105, 110, 103]

/-- The header of a device that was never used. -/
def Header.unused : Header := ⟨List.replicate 4096 0, List.length_replicate⟩

theorem initState_readyMark : Header.readyMark.initState = .ready := by decide +kernel

theorem initState_initializingMark : Header.initializingMark.initState = .initializing := by
  decide +kernel

theorem initState_unused : Header.unused.initState = .none := by decide +kernel

end CryptPilot.Core
