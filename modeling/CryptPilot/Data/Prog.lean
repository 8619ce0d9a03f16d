import Mathlib.Data.List.Induction
import Mathlib.Logic.Function.Basic

/-!
# Programs that call operations

A program is a tree: it returns a result, or calls an operation and goes on with whatever the
operation answers. What the operations do is not part of a program; it is a relation on states
given separately, so that an operation can have several outcomes.

    Path p es q        p makes the calls es, and q is left of it
    Steps sem s es s'  the calls es take the state s to s'

A run that is killed is a path whose rest is not `done`. Two ways of putting runs together are
`Runs`, one run after the other, and `Interleaved`, many at once.

The rules of pre- and postconditions are about `Safe`: at every call of a program a condition
holds, and one at its end. What is proved of a program holds in each of its runs (`Safe.path`).
-/

namespace CryptPilot.Data

/-- A program that calls operations `Op` and returns a result or a message. -/
inductive Prog (Op : Type) (Res : Op → Type) (α : Type) : Type where
  | done (result : Except String α)
  | step (op : Op) (next : Res op → Prog Op Res α)

/-- An operation that was called, and its answer. -/
structure Event (Op : Type) (Res : Op → Type) where
  op : Op
  res : Res op

namespace Prog

variable {Op : Type} {Res : Op → Type} {α β γ σ ι : Type}

/-! ## Building programs -/

/-- Goes on with the result of a program, whatever it is. -/
def andThen : Prog Op Res α → (Except String α → Prog Op Res β) → Prog Op Res β
  | .done r, f => f r
  | .step op next, f => .step op fun r => (next r).andThen f

/-- Goes on with a result, and stops at a message. -/
def onOk (f : α → Prog Op Res β) : Except String α → Prog Op Res β
  | .ok a => f a
  | .error e => .done (.error e)

instance : Monad (Prog Op Res) where
  pure a := .done (.ok a)
  bind p f := p.andThen (onOk f)

def call (op : Op) : Prog Op Res (Res op) := .step op fun r => .done (.ok r)

def ofExcept (r : Except String α) : Prog Op Res α := .done r

def fail (message : String) : Prog Op Res α := .done (.error message)

def doIf (condition : Bool) (p : Prog Op Res Unit) : Prog Op Res Unit :=
  if condition then p else pure ()

def bailIf (condition : Bool) (message : String) : Prog Op Res Unit := doIf condition (fail message)

/-- A message in front of the one of a failure. -/
def addContext (message : String) (r : Except String α) : Except String α :=
  r.mapError fun e => message ++ ": " ++ e

def context (message : String) (p : Prog Op Res α) : Prog Op Res α :=
  p.andThen fun r => .done (addContext message r)

/-- A failure becomes a value. -/
def attempt (p : Prog Op Res α) : Prog Op Res (Except String α) :=
  p.andThen fun r => .done (.ok r)

/-- Does `cleanup` after `p`, also after a failure, and ignores how it ends. -/
def ensuring (p : Prog Op Res α) (cleanup : Prog Op Res β) : Prog Op Res α :=
  p.andThen fun r => cleanup.andThen fun _ => .done r

/-- Does `cleanup` after a failure of `p`, and ignores how it ends. -/
def onError (p : Prog Op Res α) (cleanup : Prog Op Res β) : Prog Op Res α :=
  p.andThen fun r => match r with
    | .ok a => .done (.ok a)
    | .error e => cleanup.andThen fun _ => .done (.error e)

/-- Does something for every item, up to the first failure. -/
def forEach (f : ι → Prog Op Res Unit) : List ι → Prog Op Res Unit
  | [] => pure ()
  | x :: xs => do
    f x
    forEach f xs

/-! ## Runs -/

/-- The calls a program can make, and what is then left of it. -/
inductive Path : Prog Op Res α → List (Event Op Res) → Prog Op Res α → Prop
  | nil (p : Prog Op Res α) : Path p [] p
  | cons {op : Op} {next : Res op → Prog Op Res α} {es : List (Event Op Res)} {q : Prog Op Res α}
      (r : Res op) : Path (next r) es q → Path (.step op next) (⟨op, r⟩ :: es) q

theorem path_step (op : Op) (next : Res op → Prog Op Res α) (r : Res op) :
    Path (.step op next) [⟨op, r⟩] (next r) :=
  .cons r (.nil _)

theorem Path.andThen {p q : Prog Op Res α} {es : List (Event Op Res)}
    (h : Path p es q) (f : Except String α → Prog Op Res β) :
    Path (p.andThen f) es (q.andThen f) := by
  induction h with
  | nil p => exact .nil _
  | cons r _ ih => exact .cons r ih

theorem Path.append {p q q' : Prog Op Res α} {es es' : List (Event Op Res)} (h : Path p es q)
    (h' : Path q es' q') : Path p (es ++ es') q' := by
  induction h with
  | nil p => exact h'
  | cons r _ ih => exact .cons r (ih h')

theorem Path.split {p q : Prog Op Res α} {es es' : List (Event Op Res)} (h : Path p (es ++ es') q) :
    ∃ m, Path p es m ∧ Path m es' q := by
  induction es generalizing p with
  | nil => exact ⟨p, .nil _, h⟩
  | cons e es ih =>
    rcases h with _ | ⟨r, h⟩
    obtain ⟨m, hm, hq⟩ := ih h
    exact ⟨m, .cons r hm, hq⟩

theorem Path.bind {p : Prog Op Res α} {f : α → Prog Op Res β} {q : Prog Op Res β} {a : α}
    {es es' : List (Event Op Res)} (h : Path p es (.done (.ok a))) (h' : Path (f a) es' q) :
    Path (p >>= f) (es ++ es') q :=
  (h.andThen (onOk f)).append h'

/-- What is left makes no call. -/
theorem Path.bind_done {p : Prog Op Res α} {f : α → Prog Op Res β} {q : Prog Op Res β} {a : α}
    {es : List (Event Op Res)} (h : Path p es (.done (.ok a))) (hf : f a = q) :
    Path (p >>= f) es q := by
  rw [← List.append_nil es]
  exact h.bind (hf ▸ .nil _)

theorem Path.context {p : Prog Op Res α} {a : α} {es : List (Event Op Res)}
    (h : Path p es (.done (.ok a))) (message : String) :
    Path (context message p) es (.done (.ok a)) :=
  h.andThen fun r => .done (addContext message r)

theorem Path.of_done {r : Except String α} {es : List (Event Op Res)} {q : Prog Op Res α}
    (h : Path (.done r) es q) : es = [] ∧ q = .done r := by
  cases h
  exact ⟨rfl, rfl⟩

/-- A run of two programs is a run of the first one, and then a run of the second one. -/
theorem Path.of_andThen {p : Prog Op Res α} {f : Except String α → Prog Op Res β}
    {es : List (Event Op Res)} {r : Except String β} (h : Path (p.andThen f) es (.done r)) :
    ∃ es₁ r₁ es₂, es = es₁ ++ es₂ ∧ Path p es₁ (.done r₁) ∧ Path (f r₁) es₂ (.done r) := by
  induction p generalizing es with
  | done r₁ => exact ⟨[], r₁, es, rfl, .nil _, h⟩
  | step op next ih =>
    rcases h with _ | ⟨answer, h⟩
    obtain ⟨es₁, r₁, es₂, rfl, hp, hf⟩ := ih answer h
    exact ⟨_ :: es₁, r₁, es₂, rfl, .cons answer hp, hf⟩

theorem Path.of_bind {p : Prog Op Res α} {f : α → Prog Op Res β} {es : List (Event Op Res)}
    {r : Except String β} (h : Path (p >>= f) es (.done r)) :
    (∃ e, r = .error e ∧ Path p es (.done (.error e))) ∨
      ∃ es₁ a es₂, es = es₁ ++ es₂ ∧ Path p es₁ (.done (.ok a)) ∧ Path (f a) es₂ (.done r) := by
  obtain ⟨es₁, r₁, es₂, rfl, hp, hf⟩ := Path.of_andThen h
  cases r₁ with
  | error e =>
    obtain ⟨rfl, hdone⟩ := hf.of_done
    cases hdone
    rw [List.append_nil]
    exact .inl ⟨e, rfl, hp⟩
  | ok a => exact .inr ⟨es₁, a, es₂, rfl, hp, hf⟩

theorem Path.of_bind_ok {p : Prog Op Res α} {f : α → Prog Op Res β} {es : List (Event Op Res)}
    {b : β} (h : Path (p >>= f) es (.done (.ok b))) :
    ∃ es₁ a es₂, es = es₁ ++ es₂ ∧ Path p es₁ (.done (.ok a)) ∧ Path (f a) es₂ (.done (.ok b)) := by
  rcases h.of_bind with ⟨e, he, -⟩ | h
  · cases he
  · exact h

theorem Path.of_context {p : Prog Op Res α} {message : String} {es : List (Event Op Res)} {a : α}
    (h : Path (Prog.context message p) es (.done (.ok a))) : Path p es (.done (.ok a)) := by
  obtain ⟨es₁, r, es₂, rfl, hp, hdone⟩ := Path.of_andThen h
  obtain ⟨rfl, hr⟩ := hdone.of_done
  cases r with
  | error e => cases hr
  | ok b =>
    cases hr
    rwa [List.append_nil]

theorem Path.of_attempt {p : Prog Op Res α} {es : List (Event Op Res)}
    {r : Except String (Except String α)} (h : Path (attempt p) es (.done r)) :
    ∃ r', r = .ok r' ∧ Path p es (.done r') := by
  obtain ⟨es₁, r', es₂, rfl, hp, hdone⟩ := Path.of_andThen h
  obtain ⟨rfl, hr⟩ := hdone.of_done
  cases hr
  exact ⟨r', rfl, by rwa [List.append_nil]⟩

theorem Path.of_onError {p : Prog Op Res α} {cleanup : Prog Op Res β} {es : List (Event Op Res)}
    {r : Except String α} (h : Path (onError p cleanup) es (.done r)) :
    (∃ a, r = .ok a ∧ Path p es (.done r)) ∨
      ∃ e es₁ r₂ es₂, r = .error e ∧ es = es₁ ++ es₂ ∧ Path p es₁ (.done r) ∧
        Path cleanup es₂ (.done r₂) := by
  obtain ⟨es₁, r₁, es₂, rfl, hp, hrest⟩ := Path.of_andThen h
  cases r₁ with
  | ok a =>
    obtain ⟨rfl, hdone⟩ := hrest.of_done
    cases hdone
    rw [List.append_nil]
    exact .inl ⟨a, rfl, hp⟩
  | error e =>
    obtain ⟨es₂, r₂, es₃, rfl, hcleanup, hdone⟩ := hrest.of_andThen
    obtain ⟨rfl, hr⟩ := hdone.of_done
    cases hr
    rw [List.append_nil]
    exact .inr ⟨e, es₁, r₂, es₂, rfl, rfl, hp, hcleanup⟩

theorem Path.of_ensuring {p : Prog Op Res α} {cleanup : Prog Op Res β} {es : List (Event Op Res)}
    {r : Except String α} (h : Path (ensuring p cleanup) es (.done r)) :
    ∃ es₁ r₂ es₂, es = es₁ ++ es₂ ∧ Path p es₁ (.done r) ∧ Path cleanup es₂ (.done r₂) := by
  obtain ⟨es₁, r₁, es₂, rfl, hp, hrest⟩ := Path.of_andThen h
  obtain ⟨es₂, r₂, es₃, rfl, hcleanup, hdone⟩ := hrest.of_andThen
  obtain ⟨rfl, hr⟩ := hdone.of_done
  cases hr
  rw [List.append_nil]
  exact ⟨es₁, r₂, es₂, rfl, hp, hcleanup⟩

/-- What a program returns if its calls are the given ones, with their answers. -/
def replay [DecidableEq Op] : Prog Op Res α → List (Event Op Res) → Option (Except String α)
  | .done r, [] => some r
  | .step op next, e :: es => if h : e.op = op then (next (h ▸ e.res)).replay es else none
  | _, _ => none

theorem path_of_replay [DecidableEq Op] {p : Prog Op Res α} {es : List (Event Op Res)}
    {result : Except String α} (h : p.replay es = some result) : Path p es (.done result) := by
  induction p generalizing es with
  | done r =>
    cases es with
    | nil =>
      cases h
      exact .nil _
    | cons e es => cases h
  | step op next ih =>
    cases es with
    | nil => cases h
    | cons e es =>
      obtain ⟨op', r⟩ := e
      rw [replay] at h
      split at h
      · rename_i hop
        cases hop
        exact .cons r (ih r h)
      · cases h

/-- What is left of a program after the given calls. -/
def after [DecidableEq Op] : Prog Op Res α → List (Event Op Res) → Option (Prog Op Res α)
  | p, [] => some p
  | .step op next, e :: es => if h : e.op = op then (next (h ▸ e.res)).after es else none
  | .done _, _ :: _ => none

theorem path_of_after [DecidableEq Op] {p q : Prog Op Res α} {es : List (Event Op Res)}
    (h : p.after es = some q) : Path p es q := by
  induction p generalizing es with
  | done r =>
    cases es with
    | nil =>
      cases h
      exact .nil _
    | cons e es => cases h
  | step op next ih =>
    cases es with
    | nil =>
      cases h
      exact .nil _
    | cons e es =>
      obtain ⟨op', r⟩ := e
      rw [after] at h
      split at h
      · rename_i hop
        cases hop
        exact .cons r (ih r h)
      · cases h

/-- What calls do to a state. -/
inductive Steps (sem : σ → (op : Op) → Res op → σ → Prop) : σ → List (Event Op Res) → σ → Prop
  | nil (s : σ) : Steps sem s [] s
  | cons {s s₁ s' : σ} {e : Event Op Res} {es : List (Event Op Res)} :
      sem s e.op e.res s₁ → Steps sem s₁ es s' → Steps sem s (e :: es) s'

section
variable {sem : σ → (op : Op) → Res op → σ → Prop} {s s' : σ} {es es' : List (Event Op Res)}

theorem steps_nil : Steps sem s [] s' ↔ s' = s := by
  constructor
  · rintro ⟨⟩
    rfl
  · rintro rfl
    exact .nil _

theorem steps_cons {e : Event Op Res} :
    Steps sem s (e :: es) s' ↔ ∃ s₁, sem s e.op e.res s₁ ∧ Steps sem s₁ es s' := by
  constructor
  · rintro (_ | ⟨he, hes⟩)
    exact ⟨_, he, hes⟩
  · rintro ⟨s₁, he, hes⟩
    exact .cons he hes

theorem steps_append :
    Steps sem s (es ++ es') s' ↔ ∃ s₁, Steps sem s es s₁ ∧ Steps sem s₁ es' s' := by
  induction es generalizing s with
  | nil => simp [steps_nil]
  | cons e es ih =>
    simp only [List.cons_append, steps_cons, ih]
    constructor
    · rintro ⟨s₁, he, s₂, hes, hes'⟩
      exact ⟨s₂, ⟨s₁, he, hes⟩, hes'⟩
    · rintro ⟨s₂, ⟨s₁, he, hes⟩, hes'⟩
      exact ⟨s₁, he, s₂, hes, hes'⟩

/-- What each call keeps, all of them keep. -/
theorem Steps.invariant {I : σ → Prop} (h : Steps sem s es s') (hs : I s)
    (hstep : ∀ e ∈ es, ∀ s s', I s → sem s e.op e.res s' → I s') : I s' := by
  induction h with
  | nil => exact hs
  | cons he _ ih =>
    refine ih (hstep _ List.mem_cons_self _ _ hs he) fun e hmem => ?_
    exact hstep e (List.mem_cons_of_mem _ hmem)

theorem steps_concat {e : Event Op Res} :
    Steps sem s (es ++ [e]) s' ↔ ∃ s₁, Steps sem s es s₁ ∧ sem s₁ e.op e.res s' := by
  simp only [steps_append, steps_cons, steps_nil]
  constructor
  · rintro ⟨s₁, hes, s₂, he, rfl⟩
    exact ⟨s₁, hes, he⟩
  · rintro ⟨s₁, hes, he⟩
    exact ⟨s₁, hes, s', he, rfl⟩

/-- What holds in the end has held all the time, or was brought about by a call and has held since
the last such one. -/
theorem Steps.last_change {I : σ → Prop} (h : Steps sem s es s') (hs' : I s') :
    (I s ∧ Steps (fun s op r s' => sem s op r s' ∧ I s ∧ I s') s es s') ∨
      ∃ pre e post s₁ s₂, es = pre ++ e :: post ∧ Steps sem s pre s₁ ∧ ¬I s₁ ∧
        sem s₁ e.op e.res s₂ ∧ I s₂ ∧
        Steps (fun s op r s' => sem s op r s' ∧ I s ∧ I s') s₂ post s' := by
  induction es using List.reverseRecOn generalizing s' with
  | nil =>
    obtain rfl := steps_nil.mp h
    exact .inl ⟨hs', .nil _⟩
  | append_singleton es e ih =>
    obtain ⟨t, hes, he⟩ := steps_concat.mp h
    by_cases ht : I t
    · rcases ih hes ht with ⟨hs, hall⟩ | ⟨pre, e', post, s₁, s₂, rfl, hpre, hs₁, he', hs₂, hpost⟩
      · exact .inl ⟨hs, steps_concat.mpr ⟨t, hall, he, ht, hs'⟩⟩
      · refine .inr ⟨pre, e', post ++ [e], s₁, s₂, by simp, hpre, hs₁, he', hs₂, ?_⟩
        exact steps_concat.mpr ⟨t, hpost, he, ht, hs'⟩
    · exact .inr ⟨es, e, [], t, s', rfl, hes, ht, he, hs', .nil _⟩

/-- Every call takes some state to another one. -/
theorem Steps.mem {e : Event Op Res} (h : Steps sem s es s') (he : e ∈ es) :
    ∃ t t', sem t e.op e.res t' := by
  induction h with
  | nil => cases he
  | cons hstep _ ih =>
    rcases List.mem_cons.mp he with rfl | he
    · exact ⟨_, _, hstep⟩
    · exact ih he

end

/-- Calls that change nothing. -/
theorem steps_self {es : List (Event Op Res)} (h : ∀ e ∈ es, sem s e.op e.res s) :
    Steps sem s es s := by
  induction es with
  | nil => exact .nil _
  | cons e es ih =>
    exact .cons (h e List.mem_cons_self) (ih fun e he => h e (List.mem_cons_of_mem _ he))

/-- Calls with answers that are possible at any time. -/
theorem steps_answers {P : (op : Op) → Res op → Prop} {es : List (Event Op Res)}
    (h : ∀ e ∈ es, P e.op e.res) : Steps (fun (_ : Unit) op r _ => P op r) () es () :=
  steps_self h

/-- A sequence of runs, each of a program for its own input. Every run ends where it ends: its
`rest` need not be `done`. -/
structure Run (Op : Type) (Res : Op → Type) (α ι : Type) where
  input : ι
  events : List (Event Op Res)
  rest : Prog Op Res α

/-- One run after the other. What happens to the state between two of them is `idle`. -/
inductive Runs (prog : ι → Prog Op Res α) (sem : σ → (op : Op) → Res op → σ → Prop)
    (idle : σ → σ → Prop) : σ → List (Run Op Res α ι) → σ → Prop
  | nil (s : σ) : Runs prog sem idle s [] s
  | cons {s s₁ s₂ s' : σ} {run : Run Op Res α ι} {runs : List (Run Op Res α ι)} :
      idle s s₁ → Path (prog run.input) run.events run.rest → Steps sem s₁ run.events s₂ →
      Runs prog sem idle s₂ runs s' → Runs prog sem idle s (run :: runs) s'

section
variable {prog : ι → Prog Op Res α} {sem : σ → (op : Op) → Res op → σ → Prop} {idle : σ → σ → Prop}
  {s s' : σ} {runs runs' : List (Run Op Res α ι)}

theorem runs_append : Runs prog sem idle s (runs ++ runs') s' ↔
    ∃ t, Runs prog sem idle s runs t ∧ Runs prog sem idle t runs' s' := by
  constructor
  · intro h
    induction runs generalizing s with
    | nil => exact ⟨s, .nil _, h⟩
    | cons run runs ih =>
      rcases h with _ | ⟨hidle, hpath, hsteps, hrest⟩
      obtain ⟨t, hruns, hruns'⟩ := ih hrest
      exact ⟨t, .cons hidle hpath hsteps hruns, hruns'⟩
  · rintro ⟨t, hruns, hruns'⟩
    induction hruns with
    | nil => exact hruns'
    | cons hidle hpath hsteps _ ih => exact .cons hidle hpath hsteps (ih hruns')

theorem runs_singleton {run : Run Op Res α ι} : Runs prog sem idle s [run] s' ↔
    ∃ s₁, idle s s₁ ∧ Path (prog run.input) run.events run.rest ∧ Steps sem s₁ run.events s' := by
  constructor
  · rintro (_ | ⟨hidle, hpath, hsteps, _ | _⟩)
    exact ⟨_, hidle, hpath, hsteps⟩
  · rintro ⟨s₁, hidle, hpath, hsteps⟩
    exact .cons hidle hpath hsteps (.nil _)

theorem Runs.mem {run : Run Op Res α ι} (h : Runs prog sem idle s runs s') (hrun : run ∈ runs) :
    Path (prog run.input) run.events run.rest ∧ ∃ s₁ s₂, Steps sem s₁ run.events s₂ := by
  induction h with
  | nil => cases hrun
  | cons _ hpath hsteps _ ih =>
    rcases List.mem_cons.mp hrun with rfl | hrun
    · exact ⟨hpath, _, _, hsteps⟩
    · exact ih hrun

/-- What holds after some runs and not before them was brought about by a call in one of them, and
has held since. -/
theorem Runs.last_change {I : σ → Prop} (h : Runs prog sem idle s runs s')
    (hidle : ∀ s s', idle s s' → I s' → I s) (hs : ¬I s) (hs' : I s') :
    ∃ before run after pre e post s₁ s₂,
      runs = before ++ run :: after ∧ Path (prog run.input) run.events run.rest ∧
      run.events = pre ++ e :: post ∧ sem s₁ e.op e.res s₂ ∧ ¬I s₁ ∧ I s₂ ∧
      ∀ e, (e ∈ post ∨ ∃ later ∈ after, e ∈ later.events) →
        ∃ t t', sem t e.op e.res t' ∧ I t ∧ I t' := by
  induction runs using List.reverseRecOn generalizing s' with
  | nil =>
    rcases h with _ | _
    exact absurd hs' hs
  | append_singleton runs run ih =>
    obtain ⟨t, hruns, hrun⟩ := runs_append.mp h
    obtain ⟨t₁, hidle₁, hpath, hsteps⟩ := runs_singleton.mp hrun
    rcases hsteps.last_change hs' with ⟨ht₁, hall⟩ | ⟨pre, e, post, s₁, s₂, hes, _, hs₁, he, hs₂, hpost⟩
    · -- nothing in the last run
      obtain ⟨before, run', after, pre, e, post, s₁, s₂, rfl, hpath', hes, he, hs₁, hs₂, hsince⟩ :=
        ih hruns (hidle _ _ hidle₁ ht₁)
      refine ⟨before, run', after ++ [run], pre, e, post, s₁, s₂, by simp, hpath', hes, he, hs₁, hs₂,
        ?_⟩
      rintro e' (hmem | ⟨later, hlater, hmem⟩)
      · exact hsince e' (.inl hmem)
      · rcases List.mem_append.mp hlater with hlater | hlater
        · exact hsince e' (.inr ⟨later, hlater, hmem⟩)
        · rw [List.mem_singleton.mp hlater] at hmem
          exact hall.mem hmem
    · refine ⟨runs, run, [], pre, e, post, s₁, s₂, rfl, hpath, hes, he, hs₁, hs₂, ?_⟩
      rintro e' (hmem | ⟨later, hlater, _⟩)
      · exact hpost.mem hmem
      · cases hlater

end

/-- Many programs at once: at every step one of them makes its next call. -/
inductive Interleaved [DecidableEq ι] :
    (ι → Prog Op Res α) → List (ι × Event Op Res) → (ι → Prog Op Res α) → Prop
  | nil (ps : ι → Prog Op Res α) : Interleaved ps [] ps
  | cons {ps qs : ι → Prog Op Res α} {i : ι} {op : Op} {next : Res op → Prog Op Res α}
      {es : List (ι × Event Op Res)} (hi : ps i = .step op next) (r : Res op) :
      Interleaved (Function.update ps i (next r)) es qs → Interleaved ps ((i, ⟨op, r⟩) :: es) qs

/-- The calls of one of the programs. -/
def eventsOf [DecidableEq ι] (i : ι) (es : List (ι × Event Op Res)) : List (Event Op Res) :=
  (es.filter fun e => e.1 = i).map Prod.snd

section
variable [DecidableEq ι] {i : ι} {ps qs qs' : ι → Prog Op Res α} {es es' : List (ι × Event Op Res)}

theorem eventsOf_append : eventsOf i (es ++ es') = eventsOf i es ++ eventsOf i es' := by
  rw [eventsOf, List.filter_append, List.map_append]
  rfl

theorem eventsOf_cons_self {e : Event Op Res} : eventsOf i ((i, e) :: es) = e :: eventsOf i es := by
  rw [eventsOf, List.filter_cons_of_pos (by simp)]
  rfl

theorem mem_eventsOf {e : Event Op Res} : e ∈ eventsOf i es ↔ (i, e) ∈ es := by
  simp [eventsOf]

theorem Interleaved.append (h : Interleaved ps es qs) (h' : Interleaved qs es' qs') :
    Interleaved ps (es ++ es') qs' := by
  induction h with
  | nil ps => exact h'
  | cons hi r _ ih => exact .cons hi r (ih h')

/-- One of the programs goes on while the others wait. -/
theorem Path.interleaved (ps : ι → Prog Op Res α) (i : ι) {q : Prog Op Res α}
    {es : List (Event Op Res)} (h : Path (ps i) es q) :
    Interleaved ps (es.map (i, ·)) (Function.update ps i q) := by
  generalize hp : ps i = p at h
  induction h generalizing ps with
  | nil p =>
    rw [← hp, Function.update_eq_self]
    exact .nil _
  | @cons op next es q r _ ih =>
    have hrest := ih _ (Function.update_self i (next r) ps)
    rw [Function.update_idem] at hrest
    exact .cons hp r hrest

/-- A program that stops is overtaken by another one, and goes on. -/
theorem Path.overtaken (ps : ι → Prog Op Res α) {i j : ι} (hij : i ≠ j) {m q q' : Prog Op Res α}
    {es es' es'' : List (Event Op Res)} (h : Path (ps i) es m) (hj : Path (ps j) es' q')
    (h' : Path m es'' q) :
    ∃ qs, Interleaved ps (es.map (i, ·) ++ (es'.map (j, ·) ++ es''.map (i, ·))) qs := by
  rw [← Function.update_of_ne hij.symm m ps] at hj
  have hfirst := Path.interleaved ps i h
  have hsecond := Path.interleaved _ j hj
  have hthird : Path (Function.update (Function.update ps i m) j q' i) es'' q := by
    rwa [Function.update_of_ne hij, Function.update_self]
  exact ⟨_, hfirst.append (hsecond.append (Path.interleaved _ i hthird))⟩

end

/-- What a program does among others is one of its own runs. -/
theorem Interleaved.path [DecidableEq ι] {ps qs : ι → Prog Op Res α} {es : List (ι × Event Op Res)}
    (h : Interleaved ps es qs) (i : ι) : Path (ps i) (eventsOf i es) (qs i) := by
  induction h with
  | nil ps => exact .nil _
  | @cons ps qs j op next es hj r _ ih =>
    by_cases hij : j = i
    · subst hij
      rw [Function.update_self] at ih
      rw [eventsOf_cons_self, hj]
      exact .cons r ih
    · rw [Function.update_of_ne (Ne.symm hij)] at ih
      rw [eventsOf, List.filter_cons_of_neg (by simpa using hij)]
      exact ih

/-! ## Pre- and postconditions -/

/-- From `s`, `G` holds at every call of the program, and `Q` when it is done. -/
def Safe (sem : σ → (op : Op) → Res op → σ → Prop) (G : σ → Op → Prop)
    (Q : Except String α → σ → Prop) : Prog Op Res α → σ → Prop
  | .done r, s => Q r s
  | .step op next, s => G s op ∧ ∀ r s', sem s op r s' → (next r).Safe sem G Q s'

section
variable {sem : σ → (op : Op) → Res op → σ → Prop} {G : σ → Op → Prop} {s : σ}
  {Q : Except String α → σ → Prop} {p : Prog Op Res α}

/-- **Soundness.** `G` held at every call of a run, and what is left is as safe as the program. -/
theorem Safe.path {q : Prog Op Res α} {es : List (Event Op Res)} {s' : σ}
    (h : p.Safe sem G Q s) (hpath : Path p es q) (hsteps : Steps sem s es s') :
    q.Safe sem G Q s' ∧
      ∀ pre e post, es = pre ++ e :: post → ∃ t, Steps sem s pre t ∧ G t e.op := by
  induction hpath generalizing s with
  | nil p =>
    rw [steps_nil] at hsteps
    subst hsteps
    exact ⟨h, fun pre e post hes => by simp at hes⟩
  | @cons op next es q r hpath ih =>
    obtain ⟨s₁, hop, hsteps⟩ := steps_cons.mp hsteps
    obtain ⟨hrest, hcalls⟩ := ih (h.2 r s₁ hop) hsteps
    refine ⟨hrest, fun pre e post hes => ?_⟩
    cases pre with
    | nil =>
      cases hes
      exact ⟨s, .nil _, h.1⟩
    | cons e' pre =>
      cases hes
      obtain ⟨t, hpre, ht⟩ := hcalls pre e post rfl
      exact ⟨t, .cons hop hpre, ht⟩

/-- What holds at a call, in whatever state it is made. -/
theorem Safe.at_call {q : Prog Op Res α} {e : Event Op Res} {pre post : List (Event Op Res)} {t : σ}
    (h : p.Safe sem G Q s) (hpath : Path p (pre ++ e :: post) q) (hsteps : Steps sem s pre t) :
    G t e.op := by
  obtain ⟨m, hpre, hrest⟩ := hpath.split
  rcases hrest with _ | ⟨r, _⟩
  exact (h.path hpre hsteps).1.1

/-- What every call keeps that may be made, a run keeps, wherever it stops. -/
theorem Safe.invariant {I : σ → Prop} {q : Prog Op Res α} {es : List (Event Op Res)} {s' : σ}
    (h : p.Safe sem G Q s) (hI : ∀ s op r s', G s op → I s → sem s op r s' → I s')
    (hpath : Path p es q) (hsteps : Steps sem s es s') (hs : I s) : I s' := by
  induction hpath generalizing s with
  | nil p =>
    rw [steps_nil.mp hsteps]
    exact hs
  | @cons op next es q r hpath ih =>
    obtain ⟨s₁, hop, hsteps⟩ := steps_cons.mp hsteps
    exact ih (h.2 r s₁ hop) hsteps (hI _ _ _ _ h.1 hs hop)

/-- What holds before every run, and is kept by the calls that may then be made, holds after all of
them. -/
theorem Runs.invariant {prog : ι → Prog Op Res α} {idle : σ → σ → Prop} {I : σ → Prop} {s s' : σ}
    {runs : List (Run Op Res α ι)} (h : Runs prog sem idle s runs s') (hs : I s)
    (hidle : ∀ s s', idle s s' → I s → I s') (hsafe : ∀ i s, I s → (prog i).Safe sem G Q s)
    (hstep : ∀ s op r s', G s op → I s → sem s op r s' → I s') : I s' := by
  induction h with
  | nil => exact hs
  | cons hi hpath hsteps _ ih =>
    have hs₁ := hidle _ _ hi hs
    exact ih ((hsafe _ _ hs₁).invariant hstep hpath hsteps hs₁)

theorem Safe.mono {G' : σ → Op → Prop} {Q' : Except String α → σ → Prop} (h : p.Safe sem G Q s)
    (hG : ∀ s op, G s op → G' s op) (hQ : ∀ r s, Q r s → Q' r s) : p.Safe sem G' Q' s := by
  induction p generalizing s with
  | done r => exact hQ _ _ h
  | step op next ih => exact ⟨hG _ _ h.1, fun r s' hs' => ih r (h.2 r s' hs')⟩

theorem Safe.post {Q' : Except String α → σ → Prop} (h : p.Safe sem G Q s)
    (hQ : ∀ r s, Q r s → Q' r s) : p.Safe sem G Q' s :=
  h.mono (fun _ _ hG => hG) hQ

/-- **Composition.** -/
theorem safe_andThen {Q : Except String β → σ → Prop} {f : Except String α → Prog Op Res β} :
    (p.andThen f).Safe sem G Q s ↔ p.Safe sem G (fun r s => (f r).Safe sem G Q s) s := by
  induction p generalizing s with
  | done r => rfl
  | step op next ih => exact and_congr_right' (forall₃_congr fun r s' _ => ih r)

/-- The rule of sequence, with what holds after a failure. -/
theorem Safe.bind {R : Except String β → σ → Prop} {f : α → Prog Op Res β}
    (hp : p.Safe sem G Q s) (hok : ∀ a s', Q (.ok a) s' → (f a).Safe sem G R s')
    (herror : ∀ e s', Q (.error e) s' → R (.error e) s') : (p >>= f).Safe sem G R s := by
  refine safe_andThen.mpr (hp.post fun r s' hr => ?_)
  cases r with
  | ok a => exact hok a s' hr
  | error e => exact herror e s' hr

/-- Two postconditions hold together. -/
theorem Safe.and {Q' : Except String α → σ → Prop} (h : p.Safe sem G Q s)
    (h' : p.Safe sem G Q' s) : p.Safe sem G (fun r s => Q r s ∧ Q' r s) s := by
  induction p generalizing s with
  | done r => exact ⟨h, h'⟩
  | step op next ih => exact ⟨h.1, fun r s' hs' => ih r (h.2 r s' hs') (h'.2 r s' hs')⟩

theorem Safe.context {message : String} {R : Except String α → σ → Prop}
    (hp : p.Safe sem G Q s) (hQ : ∀ r s', Q r s' → R (addContext message r) s') :
    (context message p).Safe sem G R s :=
  safe_andThen.mpr (hp.post hQ)

end

/-- `Safe`, with a postcondition for success. -/
def Ensures (sem : σ → (op : Op) → Res op → σ → Prop) (G : σ → Op → Prop) (Q : α → σ → Prop)
    (p : Prog Op Res α) (s : σ) : Prop :=
  p.Safe sem G (fun r s => ∀ a, r = .ok a → Q a s) s

section
variable {sem : σ → (op : Op) → Res op → σ → Prop} {G : σ → Op → Prop} {s : σ}
  {Q : α → σ → Prop} {p : Prog Op Res α}

theorem ensures_pure {a : α} : (pure a : Prog Op Res α).Ensures sem G Q s ↔ Q a s := by
  constructor
  · intro h
    exact h a rfl
  · rintro h _ ⟨⟩
    exact h

theorem ensures_fail {message : String} : (fail message : Prog Op Res α).Ensures sem G Q s := by
  rintro a ⟨⟩

theorem Ensures.doIf {condition : Bool} {p : Prog Op Res Unit} {Q : Unit → σ → Prop}
    (htrue : condition = true → p.Ensures sem G Q s) (hfalse : condition = false → Q () s) :
    (doIf condition p).Ensures sem G Q s := by
  cases condition with
  | false => exact ensures_pure.mpr (hfalse rfl)
  | true => exact htrue rfl

theorem Ensures.bailIf {condition : Bool} {message : String} {Q : Unit → σ → Prop}
    (h : condition = false → Q () s) : (bailIf condition message).Ensures sem G Q s :=
  .doIf (fun _ => ensures_fail) h

/-- The rule of sequence. -/
theorem Ensures.bind {R : β → σ → Prop} {f : α → Prog Op Res β} (hp : p.Ensures sem G Q s)
    (hf : ∀ a s', Q a s' → (f a).Ensures sem G R s') : (p >>= f).Ensures sem G R s := by
  refine safe_andThen.mpr (hp.post fun r s' hr => ?_)
  cases r with
  | ok a => exact hf a s' (hr a rfl)
  | error e => exact ensures_fail

theorem Ensures.mono {Q' : α → σ → Prop} (hp : p.Ensures sem G Q s)
    (hQ : ∀ a s', Q a s' → Q' a s') : p.Ensures sem G Q' s :=
  hp.post fun _ _ hr a ha => hQ a _ (hr a ha)

theorem Ensures.context {message : String} (hp : p.Ensures sem G Q s) :
    (context message p).Ensures sem G Q s := by
  refine safe_andThen.mpr (hp.post fun r s' hr => ?_)
  cases r with
  | ok a => exact hr
  | error e => exact ensures_fail

/-- What holds in the end holds of the failure as well, as a value. -/
theorem Safe.attempt {Q : Except String α → σ → Prop} (hp : p.Safe sem G Q s) :
    (attempt p).Ensures sem G Q s :=
  safe_andThen.mpr (hp.post fun _ _ hr => ensures_pure.mpr hr)

theorem Ensures.attempt (hp : p.Ensures sem G Q s) :
    (attempt p).Ensures sem G (fun r s => ∀ a, r = .ok a → Q a s) s :=
  safe_andThen.mpr (hp.post fun _ _ hr => ensures_pure.mpr hr)

end

/-! ## Frames -/

/-- All operations that the program can call have a property. -/
def Calls (P : Op → Prop) : Prog Op Res α → Prop
  | .done _ => True
  | .step op next => P op ∧ ∀ r, (next r).Calls P

section
variable {P : Op → Prop} {p : Prog Op Res α}

theorem calls_done {r : Except String α} : (done r : Prog Op Res α).Calls P := trivial

theorem Calls.doIf {condition : Bool} {p : Prog Op Res Unit} (hp : condition = true → p.Calls P) :
    (doIf condition p).Calls P := by
  cases condition with
  | false => exact calls_done
  | true => exact hp rfl

theorem calls_bailIf {condition : Bool} {message : String} :
    (bailIf condition message : Prog Op Res Unit).Calls P :=
  .doIf fun _ => calls_done

theorem Calls.mono {P' : Op → Prop} (h : p.Calls P) (hP : ∀ op, P op → P' op) : p.Calls P' := by
  induction p with
  | done r => exact calls_done
  | step op next ih => exact ⟨hP op h.1, fun r => ih r (h.2 r)⟩

theorem Calls.andThen {f : Except String α → Prog Op Res β} (hp : p.Calls P)
    (hf : ∀ r, (f r).Calls P) : (p.andThen f).Calls P := by
  induction p with
  | done r => exact hf r
  | step op next ih => exact ⟨hp.1, fun r => ih r (hp.2 r)⟩

theorem Calls.bind {f : α → Prog Op Res β} (hp : p.Calls P) (hf : ∀ a, (f a).Calls P) :
    (p >>= f).Calls P := by
  refine hp.andThen fun r => ?_
  cases r with
  | ok a => exact hf a
  | error e => exact calls_done

theorem Calls.context {message : String} (hp : p.Calls P) : (context message p).Calls P :=
  hp.andThen fun _ => calls_done

theorem Calls.attempt (hp : p.Calls P) : (attempt p).Calls P :=
  hp.andThen fun _ => calls_done

theorem Calls.ensuring {q : Prog Op Res β} (hp : p.Calls P) (hq : q.Calls P) :
    (ensuring p q).Calls P :=
  hp.andThen fun _ => hq.andThen fun _ => calls_done

theorem Calls.onError {q : Prog Op Res β} (hp : p.Calls P) (hq : q.Calls P) :
    (onError p q).Calls P := by
  refine hp.andThen fun r => ?_
  cases r with
  | ok a => exact calls_done
  | error e => exact hq.andThen fun _ => calls_done

theorem Calls.forEach {f : ι → Prog Op Res Unit} {xs : List ι} (hf : ∀ x ∈ xs, (f x).Calls P) :
    (forEach f xs).Calls P := by
  induction xs with
  | nil => exact calls_done
  | cons x xs ih =>
    obtain ⟨hx, hxs⟩ := List.forall_mem_cons.mp hf
    exact .bind hx fun _ => ih hxs

theorem calls_true : p.Calls fun _ => True := by
  induction p with
  | done r => exact calls_done
  | step op next ih => exact ⟨trivial, ih⟩

theorem Calls.path {q : Prog Op Res α} {es : List (Event Op Res)} (h : p.Calls P)
    (hpath : Path p es q) : ∀ e ∈ es, P e.op := by
  induction hpath with
  | nil p =>
    intro e he
    cases he
  | cons r _ ih =>
    intro e he
    rcases List.mem_cons.mp he with rfl | he
    · exact h.1
    · exact ih (h.2 r) e he

/-- **The frame rule.** What is kept by the operations a program calls is kept by the program. -/
theorem Calls.safe {sem : σ → (op : Op) → Res op → σ → Prop} {G : σ → Op → Prop} {I : σ → Prop}
    {s : σ} (h : p.Calls P) (hkeep : ∀ s op r s', P op → I s → sem s op r s' → I s')
    (hG : ∀ s op, P op → I s → G s op) (hs : I s) : p.Safe sem G (fun _ s => I s) s := by
  induction p generalizing s with
  | done r => exact hs
  | step op next ih =>
    refine ⟨hG s op h.1 hs, fun r s' hs' => ?_⟩
    exact ih r (h.2 r) (hkeep s op r s' h.1 hs hs')

theorem Calls.ensures {sem : σ → (op : Op) → Res op → σ → Prop} {G : σ → Op → Prop} {I : σ → Prop}
    {s : σ} (h : p.Calls P) (hkeep : ∀ s op r s', P op → I s → sem s op r s' → I s')
    (hG : ∀ s op, P op → I s → G s op) (hs : I s) : p.Ensures sem G (fun _ s => I s) s :=
  (h.safe hkeep hG hs).post fun _ _ hI _ _ => hI

/-- A program that only calls what may be called at any time. -/
theorem Calls.ensures_true {sem : σ → (op : Op) → Res op → σ → Prop} {G : σ → Op → Prop} {s : σ}
    (h : p.Calls P) (hG : ∀ s op, P op → G s op) : p.Ensures sem G (fun _ _ => True) s :=
  h.ensures (fun _ _ _ _ _ _ _ => trivial) (fun s op hop _ => hG s op hop) trivial

/-- What is known of all calls is known at each of them. -/
theorem Safe.calls {sem : σ → (op : Op) → Res op → σ → Prop} {G : σ → Op → Prop}
    {Q : Except String α → σ → Prop} {s : σ} (h : p.Safe sem G Q s) (hp : p.Calls P) :
    p.Safe sem (fun s op => G s op ∧ P op) Q s := by
  induction p generalizing s with
  | done r => exact h
  | step op next ih => exact ⟨⟨h.1, hp.1⟩, fun r s' hs' => ih r (h.2 r s' hs') (hp.2 r)⟩

/-- A loop keeps what each pass keeps. -/
theorem Safe.forEach {sem : σ → (op : Op) → Res op → σ → Prop} {G : σ → Op → Prop} {I : σ → Prop}
    {s : σ} {f : ι → Prog Op Res Unit} {xs : List ι}
    (hf : ∀ x ∈ xs, ∀ s, I s → (f x).Safe sem G (fun _ s => I s) s) (hs : I s) :
    (forEach f xs).Safe sem G (fun _ s => I s) s := by
  induction xs generalizing s with
  | nil => exact hs
  | cons x xs ih =>
    obtain ⟨hx, hxs⟩ := List.forall_mem_cons.mp hf
    exact .bind (hx s hs) (fun _ s' hs' => ih hxs hs') fun _ _ hs' => hs'

/-- A cleanup that keeps what was reached. -/
theorem Ensures.ensuring {sem : σ → (op : Op) → Res op → σ → Prop} {G : σ → Op → Prop} {s : σ}
    {Q : α → σ → Prop} {q : Prog Op Res β} (hp : p.Ensures sem G Q s) (hq : q.Calls P)
    (hkeep : ∀ a s op r s', P op → Q a s → sem s op r s' → Q a s')
    (hG : ∀ s op, P op → G s op) : (ensuring p q).Ensures sem G Q s := by
  refine safe_andThen.mpr (hp.post fun r s' hr => safe_andThen.mpr ?_)
  cases r with
  | ok a =>
    have hclean := hq.safe (I := Q a) (hkeep a) (fun s op hop _ => hG s op hop) (hr a rfl)
    exact hclean.post fun _ _ hQ => ensures_pure.mpr hQ
  | error e =>
    exact (hq.ensures_true hG).post fun _ _ _ => ensures_fail

end

/-! ## Traces

The calls made so far are a state as well. -/

/-- The operations are recorded, and can answer anything. -/
def record (past : List (Event Op Res)) (op : Op) (r : Res op) (past' : List (Event Op Res)) :
    Prop :=
  past' = past ++ [⟨op, r⟩]

theorem steps_record (past es : List (Event Op Res)) : Steps record past es (past ++ es) := by
  induction es generalizing past with
  | nil =>
    rw [List.append_nil]
    exact .nil _
  | cons e es ih =>
    rw [List.append_cons]
    exact .cons rfl (ih _)

theorem Steps.eq_append {past es past' : List (Event Op Res)} (h : Steps record past es past') :
    past' = past ++ es := by
  induction h with
  | nil => exact (List.append_nil _).symm
  | cons he _ ih =>
    rw [ih, he, List.append_assoc]
    rfl

/-- What a program is shown to have done before a call, it has done in every run. -/
theorem Safe.trace {G : List (Event Op Res) → Op → Prop}
    {Q : Except String α → List (Event Op Res) → Prop} {p q : Prog Op Res α}
    {es : List (Event Op Res)} (h : p.Safe record G Q []) (hpath : Path p es q) :
    q.Safe record G Q es ∧ ∀ pre e post, es = pre ++ e :: post → G pre e.op := by
  obtain ⟨hrest, hcalls⟩ := h.path hpath (steps_record [] es)
  refine ⟨hrest, fun pre e post hes => ?_⟩
  obtain ⟨t, hpre, ht⟩ := hcalls pre e post hes
  rw [hpre.eq_append, List.nil_append] at ht
  exact ht

end Prog

end CryptPilot.Data
