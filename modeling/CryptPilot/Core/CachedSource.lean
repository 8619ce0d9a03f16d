import CryptPilot.Data.Rely

/-!
# The cache in front of a source of configurations

`config/cached.rs`, in the two programs that have one: `CachedFdeConfigSource` and
`CachedVolumeConfigSource` differ in what is cached only. Any number of tasks can ask at once. A task
looks under a lock for readers first. If it finds nothing, it looks again under the lock for writers,
and loads from the source while it holds it.

Whatever the order of their steps: all tasks that get something get the same, the source is not loaded
again once that worked, and the tasks do not block each other for good (`cached_agrees`).
-/

namespace CryptPilot.Core

open CryptPilot.Data CryptPilot.Data.Prog

variable {ι β : Type}

/-- What a task calls. Locks are taken for a task, by its number. -/
inductive CacheOp (ι β : Type) where
  | read (me : ι)
  | unread (me : ι)
  | write (me : ι)
  | unwrite (me : ι)
  | look
  /-- asks the source behind the cache -/
  | load
  | store (bundle : β)

def CacheOp.Res : CacheOp ι β → Type
  | .read _ | .unread _ | .write _ | .unwrite _ | .store _ => Unit
  | .look => Option β
  | .load => Except String β

abbrev CacheCmd (ι β α : Type) := Prog (CacheOp ι β) CacheOp.Res α

namespace CacheCmd

def read (me : ι) : CacheCmd ι β Unit := Prog.call (CacheOp.read me)

def unread (me : ι) : CacheCmd ι β Unit := Prog.call (CacheOp.unread me)

def write (me : ι) : CacheCmd ι β Unit := Prog.call (CacheOp.write me)

def unwrite (me : ι) : CacheCmd ι β Unit := Prog.call (CacheOp.unwrite me)

def look : CacheCmd ι β (Option β) := Prog.call (CacheOp.look : CacheOp ι β)

def load : CacheCmd ι β β := .step .load .done

def store (bundle : β) : CacheCmd ι β Unit := Prog.call (CacheOp.store bundle : CacheOp ι β)

end CacheCmd

/-- The part under the lock for writers. -/
def getOrLoad : CacheCmd ι β β := do
  match ← CacheCmd.look with
  | some bundle => return bundle
  | none =>
    let bundle ← CacheCmd.load
    CacheCmd.store bundle
    return bundle

/-- `get_fde_config_bundle` and `get_volume_configs`. The guard of the writer is dropped on every way
out. -/
def getCached (me : ι) : CacheCmd ι β β := do
  CacheCmd.read me
  match ← CacheCmd.look with
  | some bundle =>
    CacheCmd.unread me
    return bundle
  | none =>
    CacheCmd.unread me
    CacheCmd.write me
    ensuring getOrLoad (CacheCmd.unwrite me)

/-! ## The lock and the cell -/

/-- Who holds the lock, what is cached, and what the source has returned so far. -/
structure CacheState (ι β : Type) where
  readers : ι → Bool
  writer : Option ι
  cell : Option β
  loaded : List β

def CacheState.empty : CacheState ι β := ⟨fun _ => false, none, none, []⟩

section
variable [DecidableEq ι]

/-- What the operations do. A lock is waited for: the call is made when it can be had. -/
def CacheStep (s : CacheState ι β) : (op : CacheOp ι β) → op.Res → CacheState ι β → Prop
  | .read me, _, s' => s.writer = none ∧ s' = { s with readers := Function.update s.readers me true }
  | .unread me, _, s' => s' = { s with readers := Function.update s.readers me false }
  | .write me, _, s' =>
    s.writer = none ∧ (∀ i, s.readers i = false) ∧ s' = { s with writer := some me }
  | .unwrite _, _, s' => s' = { s with writer := none }
  | .look, r, s' => r = s.cell ∧ s' = s
  | .load, r, s' => match (r : Except String β) with
    | .ok bundle => s' = { s with loaded := s.loaded ++ [bundle] }
    | .error _ => s' = s
  | .store bundle, _, s' => s' = { s with cell := some bundle }

end

/-- The source has returned one thing at most: what is cached, or what a writer is about to. -/
def CacheState.Inv (s : CacheState ι β) : Prop :=
  match s.cell with
  | some bundle => s.loaded = [bundle]
  | none => s.loaded = [] ∨ s.writer ≠ none ∧ s.loaded.length = 1

/-- What a task can rely on: its locks are its own, nothing changes under a lock for writers, and what
is cached stays. -/
structure CacheRely (me : ι) (s s' : CacheState ι β) : Prop where
  readers : s'.readers me = s.readers me
  writer : s'.writer = some me ↔ s.writer = some me
  held : s.writer = some me → s'.cell = s.cell ∧ s'.loaded = s.loaded
  cell : ∀ bundle, s.cell = some bundle → s'.cell = some bundle

/-- A task that holds no lock. -/
def CacheState.Free (s : CacheState ι β) (me : ι) : Prop :=
  s.readers me = false ∧ s.writer ≠ some me

/-- A task that holds the lock for writers, while nothing is loaded that is not cached. -/
structure CacheState.Writes (s : CacheState ι β) (me : ι) : Prop where
  readers : s.readers me = false
  writer : s.writer = some me
  loaded : s.cell = none → s.loaded = []

/-- What a task may call. -/
def CacheAllowed (me : ι) (s : CacheState ι β) : CacheOp ι β → Prop
  | .read i | .write i => i = me ∧ s.Free me
  | .unread i => i = me ∧ s.readers me = true
  | .unwrite i => i = me ∧ s.Writes me
  | .look => True
  | .load => s.Writes me ∧ s.cell = none
  | .store bundle => s.writer = some me ∧ s.cell = none ∧ s.loaded = [bundle]

/-! ## The protocol -/

section
variable {me : ι} {s s' : CacheState ι β}

theorem CacheRely.refl (me : ι) (s : CacheState ι β) : CacheRely me s s :=
  ⟨rfl, Iff.rfl, fun _ => ⟨rfl, rfl⟩, fun _ h => h⟩

theorem CacheRely.trans {s'' : CacheState ι β} (h : CacheRely me s s') (h' : CacheRely me s' s'') :
    CacheRely me s s'' where
  readers := h'.readers.trans h.readers
  writer := h'.writer.trans h.writer
  held hw := by
    obtain ⟨hcell, hloaded⟩ := h.held hw
    obtain ⟨hcell', hloaded'⟩ := h'.held (h.writer.mpr hw)
    exact ⟨hcell'.trans hcell, hloaded'.trans hloaded⟩
  cell bundle hb := h'.cell bundle (h.cell bundle hb)

theorem CacheRely.free (h : CacheRely me s s') (hs : s.Free me) : s'.Free me :=
  ⟨h.readers.trans hs.1, fun hw => hs.2 (h.writer.mp hw)⟩

theorem CacheRely.writes (h : CacheRely me s s') (hs : s.Writes me) : s'.Writes me := by
  obtain ⟨hcell, hloaded⟩ := h.held hs.writer
  refine ⟨h.readers.trans hs.readers, h.writer.mpr hs.writer, ?_⟩
  rw [hcell, hloaded]
  exact hs.loaded

/-- Without a writer, what was loaded is cached. -/
theorem CacheState.Inv.loaded_eq_nil (h : s.Inv) (hwriter : s.writer = none) (hcell : s.cell = none) :
    s.loaded = [] := by
  unfold Inv at h
  rw [hcell] at h
  exact h.resolve_right fun h => h.1 hwriter

theorem CacheState.Inv.loaded_eq_singleton {bundle : β} (h : s.Inv) (hcell : s.cell = some bundle) :
    s.loaded = [bundle] := by
  unfold Inv at h
  rw [hcell] at h
  exact h

theorem CacheState.Inv.length_loaded_le (h : s.Inv) : s.loaded.length ≤ 1 := by
  unfold Inv at h
  split at h
  · rw [h]
    exact Nat.le_refl 1
  · rcases h with h | h
    · rw [h]
      exact Nat.zero_le 1
    · exact Nat.le_of_eq h.2

theorem CacheState.inv_of_none (hcell : s.cell = none)
    (h : s.loaded = [] ∨ s.writer ≠ none ∧ s.loaded.length = 1) : s.Inv := by
  unfold Inv
  rw [hcell]
  exact h

theorem CacheState.inv_of_some {bundle : β} (hcell : s.cell = some bundle)
    (h : s.loaded = [bundle]) : s.Inv := by
  unfold Inv
  rw [hcell]
  exact h

/-- The invariant is about the cell and what was loaded. -/
theorem CacheState.Inv.congr (h : s.Inv) (hcell : s'.cell = s.cell) (hloaded : s'.loaded = s.loaded)
    (hwriter : s.cell = none → s.writer ≠ none → s'.writer ≠ none ∨ s.loaded = []) : s'.Inv := by
  cases hc : s.cell with
  | some bundle =>
    exact inv_of_some (hcell.trans hc) (hloaded.trans (h.loaded_eq_singleton hc))
  | none =>
    refine inv_of_none (hcell.trans hc) ?_
    unfold Inv at h
    rw [hc] at h
    rw [hloaded]
    rcases h with h | ⟨hw, h⟩
    · exact .inl h
    · exact (hwriter hc hw).elim (fun hw' => .inr ⟨hw', h⟩) .inl

variable [DecidableEq ι]

/-- What a task may call keeps the invariant. -/
theorem CacheState.Inv.step {op : CacheOp ι β} {r : op.Res} (hallowed : CacheAllowed me s op)
    (hinv : s.Inv) (hstep : CacheStep s op r s') : s'.Inv := by
  cases op with
  | read i =>
    obtain ⟨-, rfl⟩ := hstep
    exact hinv
  | unread i =>
    cases hstep
    exact hinv
  | look =>
    obtain ⟨-, rfl⟩ := hstep
    exact hinv
  | write i =>
    obtain ⟨-, -, rfl⟩ := hstep
    exact hinv.congr rfl rfl fun _ _ => .inl (Option.some_ne_none i)
  | unwrite i =>
    cases hstep
    exact hinv.congr rfl rfl fun hcell _ => .inr (hallowed.2.loaded hcell)
  | load =>
    obtain ⟨hwrites, hcell⟩ := hallowed
    cases r with
    | error e =>
      cases hstep
      exact hinv
    | ok bundle =>
      cases hstep
      refine inv_of_none hcell (.inr ⟨?_, ?_⟩)
      · rw [hwrites.writer]
        exact Option.some_ne_none me
      · rw [hwrites.loaded hcell]
        rfl
  | store bundle =>
    cases hstep
    exact inv_of_some rfl hallowed.2.2

/-- What a task may call is what the others rely on. -/
theorem CacheRely.of_step {i j : ι} (hij : i ≠ j) {op : CacheOp ι β} {r : op.Res}
    (hallowed : CacheAllowed i s op) (hstep : CacheStep s op r s') : CacheRely j s s' := by
  have hother (hw : s.writer = some i) : s.writer ≠ some j := by
    rw [hw]
    exact fun h => hij (Option.some.inj h)
  cases op with
  | read k =>
    obtain ⟨rfl, -⟩ := hallowed
    obtain ⟨-, rfl⟩ := hstep
    exact ⟨Function.update_of_ne hij.symm _ _, Iff.rfl, fun _ => ⟨rfl, rfl⟩, fun _ h => h⟩
  | unread k =>
    obtain ⟨rfl, -⟩ := hallowed
    cases hstep
    exact ⟨Function.update_of_ne hij.symm _ _, Iff.rfl, fun _ => ⟨rfl, rfl⟩, fun _ h => h⟩
  | look =>
    obtain ⟨-, rfl⟩ := hstep
    exact CacheRely.refl j _
  | write k =>
    obtain ⟨rfl, -⟩ := hallowed
    obtain ⟨hnone, -, rfl⟩ := hstep
    refine ⟨rfl, ?_, fun _ => ⟨rfl, rfl⟩, fun _ h => h⟩
    rw [hnone]
    exact ⟨fun h => absurd (Option.some.inj h) hij, fun h => by cases h⟩
  | unwrite k =>
    obtain ⟨rfl, hw⟩ := hallowed
    cases hstep
    refine ⟨rfl, ?_, fun _ => ⟨rfl, rfl⟩, fun _ h => h⟩
    constructor
    · intro h
      cases h
    · intro h
      exact absurd h (hother hw.writer)
  | load =>
    cases r with
    | error e =>
      cases hstep
      exact CacheRely.refl j _
    | ok bundle =>
      cases hstep
      exact ⟨rfl, Iff.rfl, fun h => absurd h (hother hallowed.1.writer), fun _ h => h⟩
  | store bundle =>
    obtain ⟨hw, hcell, -⟩ := hallowed
    cases hstep
    refine ⟨rfl, Iff.rfl, fun h => absurd h (hother hw), fun b hb => ?_⟩
    cases hcell.symm.trans hb

end

/-- The protocol of the cache. -/
def cacheProtocol [DecidableEq ι] : Protocol (CacheOp ι β) CacheOp.Res (CacheState ι β) ι where
  sem := CacheStep
  inv := CacheState.Inv
  rely := CacheRely
  allowed := CacheAllowed
  rely_refl := CacheRely.refl
  rely_trans := CacheRely.trans
  keeps hallowed hinv hstep := hinv.step hallowed hstep
  guarantee hij hallowed hstep := CacheRely.of_step hij hallowed hstep

/-! ## A task -/

section
variable [DecidableEq ι] {me : ι} {s : CacheState ι β}

/-- Under the lock for writers. -/
theorem follows_getOrLoad (hs : s.Writes me) :
    getOrLoad.Follows cacheProtocol me
      (fun r s' => s'.Writes me ∧ ∀ bundle : β, r = .ok bundle → s'.cell = some bundle) s := by
  intro s₁ h₁ _
  refine ⟨trivial, fun found s₂ hlook => ?_⟩
  obtain ⟨rfl, rfl⟩ := hlook
  have hs₁ := h₁.writes hs
  cases hcell : s₂.cell with
  | some bundle =>
    intro s₃ h₃ _
    refine ⟨h₃.writes hs₁, fun b hb => ?_⟩
    cases hb
    exact h₃.cell _ hcell
  | none =>
    intro s₃ h₃ _
    have hcell₃ : s₃.cell = none := (h₃.held hs₁.writer).1.trans hcell
    have hs₃ := h₃.writes hs₁
    refine ⟨⟨hs₃, hcell₃⟩, fun r s₄ hload => ?_⟩
    cases r with
    | error e =>
      cases hload
      intro s₅ h₅ _
      exact ⟨h₅.writes hs₃, fun b hb => by cases hb⟩
    | ok bundle =>
      cases hload
      intro s₅ h₅ _
      obtain ⟨hcell₅, hloaded₅⟩ := h₅.held hs₃.writer
      refine ⟨⟨h₅.writer.mpr hs₃.writer, hcell₅.trans hcell₃, ?_⟩, fun _ s₆ hstore => ?_⟩
      · rw [hloaded₅, hs₃.loaded hcell₃]
        rfl
      · cases hstore
        intro s₇ h₇ _
        refine ⟨h₇.writes ⟨h₅.readers.trans hs₃.readers, h₅.writer.mpr hs₃.writer, ?_⟩, ?_⟩
        · intro h
          cases h
        · rintro b hb
          cases hb
          exact h₇.cell _ rfl

/-- **One task.** It calls what it may, it holds no lock in the end, and what it returns is cached. -/
theorem follows_getCached (hs : s.Free me) :
    (getCached me).Follows cacheProtocol me
      (fun r s' => s'.Free me ∧ ∀ bundle : β, r = .ok bundle → s'.cell = some bundle) s := by
  -- the lock for readers
  intro s₁ h₁ _
  have hs₁ := h₁.free hs
  refine ⟨⟨rfl, hs₁⟩, fun _ s₂ hread => ?_⟩
  obtain ⟨-, rfl⟩ := hread
  intro s₃ h₃ _
  have hreader : s₃.readers me = true := h₃.readers.trans (Function.update_self ..)
  have hwriter : s₃.writer ≠ some me := fun hw => hs₁.2 (h₃.writer.mp hw)
  refine ⟨trivial, fun found s₄ hlook => ?_⟩
  obtain ⟨rfl, rfl⟩ := hlook
  have hunread (t t' : CacheState ι β) (ht : CacheRely me s₄ t)
      (hstep : t' = { t with readers := Function.update t.readers me false }) : t'.Free me := by
    rw [hstep]
    exact ⟨Function.update_self .., fun hw => hwriter (ht.writer.mp hw)⟩
  cases hcell : s₄.cell with
  | some bundle =>
    intro s₅ h₅ _
    refine ⟨⟨rfl, h₅.readers.trans hreader⟩, fun _ s₆ hstep => ?_⟩
    intro s₇ h₇ _
    refine ⟨CacheRely.free h₇ (hunread _ _ h₅ hstep), fun b hb => h₇.cell b ?_⟩
    cases hb
    cases hstep
    exact h₅.cell bundle hcell
  | none =>
    intro s₅ h₅ _
    refine ⟨⟨rfl, h₅.readers.trans hreader⟩, fun _ s₆ hstep => ?_⟩
    -- the lock for writers
    intro s₇ h₇ hinv
    have hs₇ := CacheRely.free h₇ (hunread _ _ h₅ hstep)
    refine ⟨⟨rfl, hs₇⟩, fun _ s₈ hwrite => ?_⟩
    obtain ⟨hnone, -, rfl⟩ := hwrite
    have hlocked : CacheState.Writes { s₇ with writer := some me } me :=
      ⟨hs₇.1, rfl, hinv.loaded_eq_nil hnone⟩
    show (ensuring getOrLoad (CacheCmd.unwrite me)).Follows _ _ _ _
    refine Follows.andThen (follows_getOrLoad hlocked) ?_
    rintro r s₉ - ⟨hs₉, hcell₉⟩ s₁₀ h₁₀ -
    have hs₁₀ := CacheRely.writes h₁₀ hs₉
    refine ⟨⟨rfl, hs₁₀⟩, fun _ s₁₁ hunwrite => ?_⟩
    cases hunwrite
    intro s₁₂ h₁₂ _
    refine ⟨CacheRely.free h₁₂ ⟨hs₁₀.readers, fun h => by cases h⟩, fun b hb => ?_⟩
    exact h₁₂.cell b (h₁₀.cell b (hcell₉ b hb))

end

/-! ## All tasks -/

section
variable [DecidableEq ι]

/-- An operation that is not waited for. -/
def CacheOp.Ready : CacheOp ι β → Prop
  | .read _ | .write _ => False
  | _ => True

theorem CacheOp.Ready.enabled {op : CacheOp ι β} (h : op.Ready) (s : CacheState ι β) :
    ∃ r s', CacheStep s op r s' := by
  cases op with
  | read i | write i => cases h
  | unread i | unwrite i | store b => exact ⟨(), _, rfl⟩
  | look => exact ⟨s.cell, s, rfl, rfl⟩
  | load => exact ⟨Except.error "", s, rfl⟩

/-- While nobody holds a lock, nothing has to wait. -/
theorem enabled_of_unlocked {s : CacheState ι β} (hwriter : s.writer = none)
    (hreaders : ∀ i, s.readers i = false) (op : CacheOp ι β) : ∃ r s', CacheStep s op r s' := by
  cases op with
  | read i => exact ⟨(), _, hwriter, rfl⟩
  | write i => exact ⟨(), _, hwriter, hreaders, rfl⟩
  | _ => exact CacheOp.Ready.enabled (by trivial) s

/-- A task that holds a lock is about to do something that is not waited for. -/
theorem exists_ready {me : ι} {p : CacheCmd ι β β} {s : CacheState ι β}
    {Q : Except String β → CacheState ι β → Prop} (hinv : s.Inv)
    (hp : p.Follows cacheProtocol me (fun r s' => s'.Free me ∧ Q r s') s) (hlock : ¬s.Free me) :
    ∃ op next, p = .step op next ∧ op.Ready := by
  cases p with
  | done r => exact absurd (hp s (CacheRely.refl me s) hinv).1 hlock
  | step op next =>
    refine ⟨op, next, rfl, ?_⟩
    obtain ⟨hallowed, -⟩ := hp s (CacheRely.refl me s) hinv
    cases op with
    | read i | write i => exact absurd hallowed.2 hlock
    | _ => trivial

/-- **All tasks get the same, from one load.** Any number of tasks ask a cache that is empty at first,
in any order of their steps, and the source answers as it likes. Every task that was answered got what
is now cached; the source has returned at most one thing, and failures are not cached. If a task is
not done, then some task can go on. -/
theorem cached_agrees {qs : ι → CacheCmd ι β β} {es : List (ι × Event (CacheOp ι β) CacheOp.Res)}
    {s : CacheState ι β} (h : Interleaved getCached es qs)
    (hsteps : Steps CacheStep CacheState.empty (es.map Prod.snd) s) :
    (∀ i bundle, qs i = .done (.ok bundle) → s.cell = some bundle ∧ s.loaded = [bundle]) ∧
      s.loaded.length ≤ 1 ∧
      ∀ i, (∀ r, qs i ≠ .done r) →
        ∃ j op next r s', qs j = .step op next ∧ CacheStep s op r s' := by
  have hempty : (CacheState.empty : CacheState ι β).Inv := .inl rfl
  obtain ⟨hinv, hqs⟩ := h.follows (P := cacheProtocol) hsteps hempty fun i =>
    follows_getCached ⟨rfl, fun hw => by cases hw⟩
  refine ⟨fun i bundle hdone => ?_, hinv.length_loaded_le, fun i hi => ?_⟩
  · have hi := hqs i
    rw [hdone] at hi
    have hcell := (hi s (CacheRely.refl i s) hinv).2 bundle rfl
    exact ⟨hcell, hinv.loaded_eq_singleton hcell⟩
  · by_cases hlock : ∃ j, ¬s.Free j
    · -- one that holds a lock
      obtain ⟨j, hj⟩ := hlock
      obtain ⟨op, next, hstep, hready⟩ := exists_ready hinv (hqs j) hj
      obtain ⟨r, s', hs'⟩ := hready.enabled s
      exact ⟨j, op, next, r, s', hstep, hs'⟩
    · -- this one
      have hfree : ∀ j, s.Free j := fun j => not_not.mp fun hj => hlock ⟨j, hj⟩
      have hwriter : s.writer = none := by
        cases hw : s.writer with
        | none => rfl
        | some j => exact absurd hw (hfree j).2
      cases hp : qs i with
      | done r => exact absurd hp (hi r)
      | step op next =>
        obtain ⟨r, s', hs'⟩ := enabled_of_unlocked hwriter (fun j => (hfree j).1) op
        exact ⟨i, op, next, r, s', hp, hs'⟩

end

/-! ## Two tasks -/

/-- A task that finds nothing as a reader. -/
def missCalls (me : Bool) : List (Event (CacheOp Bool Nat) CacheOp.Res) :=
  [⟨.read me, ()⟩, ⟨.look, (none : Option Nat)⟩, ⟨.unread me, ()⟩]

/-- It loads, -/
def loadCalls (me : Bool) : List (Event (CacheOp Bool Nat) CacheOp.Res) :=
  [⟨.write me, ()⟩, ⟨.look, (none : Option Nat)⟩, ⟨.load, (Except.ok 7 : Except String Nat)⟩,
    ⟨.store 7, ()⟩, ⟨.unwrite me, ()⟩]

/-- or finds what another task has loaded. -/
def hitCalls (me : Bool) : List (Event (CacheOp Bool Nat) CacheOp.Res) :=
  [⟨.write me, ()⟩, ⟨.look, some 7⟩, ⟨.unwrite me, ()⟩]

/-- The second task is overtaken by the first one. -/
def twoTasks : List (Bool × Event (CacheOp Bool Nat) CacheOp.Res) :=
  (missCalls true).map (true, ·) ++
    ((missCalls false ++ loadCalls false).map (false, ·) ++ (hitCalls true).map (true, ·))

theorem cached_agrees_twoTasks :
    ∃ (qs : Bool → CacheCmd Bool Nat Nat) (s : CacheState Bool Nat),
      Interleaved getCached twoTasks qs ∧
      Steps CacheStep CacheState.empty (twoTasks.map Prod.snd) s ∧ s.cell = some 7 ∧
      (∀ i bundle, qs i = .done (.ok bundle) → s.cell = some bundle ∧ s.loaded = [bundle]) ∧
      s.loaded.length ≤ 1 ∧
      ∀ i, (∀ r, qs i ≠ .done r) →
        ∃ j op next r s', qs j = .step op next ∧ CacheStep s op r s' := by
  have hmiss (me : Bool) : ∃ m, Prog.Path (getCached me) (missCalls me) m ∧
      Prog.Path m (loadCalls me) (.done (.ok 7)) ∧ Prog.Path m (hitCalls me) (.done (.ok 7)) :=
    ⟨_, .cons _ (.cons _ (.cons _ (.nil _))),
      .cons _ (.cons _ (.cons _ (.cons _ (.cons _ (.nil _))))), .cons _ (.cons _ (.cons _ (.nil _)))⟩
  obtain ⟨m, hfirst, hload, -⟩ := hmiss false
  obtain ⟨m', hsecond, -, hhit⟩ := hmiss true
  obtain ⟨qs, hqs⟩ := Path.overtaken getCached (show true ≠ false by decide) hsecond
    (hfirst.append hload) hhit
  have hunlocked (i : Bool) : Function.update (Function.update (Function.update (Function.update
      (fun _ => false) true true) true false) false true) false false i = false := by
    cases i <;> rfl
  have hsteps : Steps CacheStep CacheState.empty (twoTasks.map Prod.snd)
      ⟨Function.update (Function.update (Function.update (Function.update
        (fun _ => false) true true) true false) false true) false false, none, some 7, [7]⟩ :=
    .cons ⟨rfl, rfl⟩ (.cons ⟨rfl, rfl⟩ (.cons rfl (.cons ⟨rfl, rfl⟩ (.cons ⟨rfl, rfl⟩ (.cons rfl
      (.cons ⟨rfl, hunlocked, rfl⟩ (.cons ⟨rfl, rfl⟩ (.cons rfl (.cons rfl (.cons rfl
        (.cons ⟨rfl, hunlocked, rfl⟩ (.cons ⟨rfl, rfl⟩ (.cons rfl (.nil _))))))))))))))
  exact ⟨qs, _, hqs, hsteps, rfl, cached_agrees hqs hsteps⟩

end CryptPilot.Core
