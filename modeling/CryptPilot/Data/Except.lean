import Mathlib.Data.List.Basic

/-!
# Results of code that can fail

How computations in `Except` and `ExceptT ε Option` came to succeed, and when a loop in `Option`
follows another one.
-/

namespace CryptPilot.Data

variable {ε ε' α β : Type}

@[simp] theorem ok_bind (a : α) (f : α → Except ε β) : (Except.ok a >>= f) = f a := rfl

@[simp] theorem error_bind (e : ε) (f : α → Except ε β) : (Except.error e >>= f) = .error e := rfl

@[simp] theorem mapError_ok (f : ε → ε') (a : α) : (Except.ok a).mapError f = .ok a := rfl

theorem bind_eq_ok {x : Except ε α} {f : α → Except ε β} {b : β} (h : (x >>= f) = .ok b) :
    ∃ a, x = .ok a ∧ f a = .ok b := by
  cases x with
  | error e => cases h
  | ok a => exact ⟨a, rfl, h⟩

/-- What is only done to a result does not fail. -/
theorem exists_bind_pure_iff {x : Except ε α} {f : α → β} :
    (∃ b, (x >>= fun a => pure (f a)) = .ok b) ↔ ∃ a, x = .ok a := by
  constructor
  · rintro ⟨b, hb⟩
    obtain ⟨a, ha, -⟩ := bind_eq_ok hb
    exact ⟨a, ha⟩
  · rintro ⟨a, rfl⟩
    exact ⟨f a, rfl⟩

theorem map_eq_ok {f : α → β} {x : Except ε α} {b : β} (h : x.map f = .ok b) :
    ∃ a, x = .ok a ∧ f a = b := by
  cases x with
  | error e => cases h
  | ok a => exact ⟨a, rfl, Except.ok.inj h⟩

theorem mapError_eq_ok {f : ε → ε'} {x : Except ε α} {a : α} (h : x.mapError f = .ok a) :
    x = .ok a := by
  cases x with
  | error e => cases h
  | ok a => cases h; rfl

theorem toOption_eq_some {x : Except ε α} {a : α} (h : x.toOption = some a) : x = .ok a := by
  cases x with
  | error e => cases h
  | ok a => cases h; rfl

/-- Whatever went into a loop that collects has a result. -/
theorem exists_mem_of_forall₂ {R : α → β → Prop} {xs : List α} {ys : List β}
    (h : List.Forall₂ R xs ys) {x : α} (hx : x ∈ xs) : ∃ y ∈ ys, R x y := by
  induction h with
  | nil => cases hx
  | @cons a b _ _ hab _ ih =>
    rcases List.mem_cons.mp hx with rfl | hx
    · exact ⟨b, List.mem_cons_self, hab⟩
    · obtain ⟨y, hy, hR⟩ := ih hx
      exact ⟨y, List.mem_cons_of_mem _ hy, hR⟩

theorem map_eq_map_of_forall₂ {γ : Type} {f : α → γ} {g : β → γ} {xs : List α} {ys : List β}
    (h : List.Forall₂ (fun x y => f x = g y) xs ys) : xs.map f = ys.map g := by
  induction h with
  | nil => rfl
  | cons hxy _ ih => rw [List.map_cons, List.map_cons, hxy, ih]

/-- A loop that collects results: one for every element, in order. -/
theorem mapM_eq_ok {f : α → Except ε β} {xs : List α} {ys : List β} (h : xs.mapM f = .ok ys) :
    List.Forall₂ (fun x y => f x = .ok y) xs ys := by
  induction xs generalizing ys with
  | nil => cases h; exact .nil
  | cons x xs ih =>
    rw [List.mapM_cons] at h
    obtain ⟨y, hy, h⟩ := bind_eq_ok h
    obtain ⟨rest, hrest, h⟩ := bind_eq_ok h
    cases h
    exact .cons hy (ih hrest)

/-- It succeeds where every step does. -/
theorem exists_mapM_eq_ok_iff {f : α → Except ε β} {xs : List α} :
    (∃ ys, xs.mapM f = .ok ys) ↔ ∀ x ∈ xs, ∃ y, f x = .ok y := by
  constructor
  · rintro ⟨ys, hys⟩ x hx
    obtain ⟨y, -, hy⟩ := exists_mem_of_forall₂ (mapM_eq_ok hys) hx
    exact ⟨y, hy⟩
  · intro h
    induction xs with
    | nil => exact ⟨[], rfl⟩
    | cons x xs ih =>
      obtain ⟨y, hy⟩ := h x List.mem_cons_self
      obtain ⟨ys, hys⟩ := ih fun x hx => h x (List.mem_cons_of_mem _ hx)
      exact ⟨y :: ys, by rw [List.mapM_cons, hy, ok_bind, hys]; rfl⟩

theorem mapM_of_ok {f : α → Except ε β} {g : α → β} {xs : List α}
    (h : ∀ x ∈ xs, f x = .ok (g x)) : xs.mapM f = .ok (xs.map g) := by
  induction xs with
  | nil => rfl
  | cons x xs ih =>
    rw [List.mapM_cons, h x List.mem_cons_self, ok_bind,
      ih fun x hx => h x (List.mem_cons_of_mem _ hx)]
    rfl

/-! ## Errors and panics

`ExceptT ε Option` is for code that returns a result or an error, and can also panic (`none`). -/

section
variable {x : ExceptT ε Option α} {f : α → ExceptT ε Option β}

theorem run_bind_eq_ok {b : β} (h : (x >>= f).run = some (.ok b)) :
    ∃ a, x.run = some (.ok a) ∧ (f a).run = some (.ok b) := by
  rw [ExceptT.run_bind] at h
  obtain ⟨r, hr, h⟩ := Option.bind_eq_some_iff.mp h
  cases r with
  | error e => cases h
  | ok a => exact ⟨a, hr, h⟩

theorem run_bind_of_ok {a : α} (h : x.run = some (.ok a)) : (x >>= f).run = (f a).run := by
  rw [ExceptT.run_bind, h]
  rfl

theorem run_lift_some {x : Option α} {a : α} (hx : x = some a) :
    (liftM x : ExceptT ε Option α).run = some (.ok a) := by
  rw [hx]
  rfl

/-- The same for a loop that can panic. -/
theorem run_mapM_eq_ok {xs : List α} {ys : List β} (h : (xs.mapM f).run = some (.ok ys)) :
    List.Forall₂ (fun x y => (f x).run = some (.ok y)) xs ys := by
  induction xs generalizing ys with
  | nil => cases h; exact .nil
  | cons x xs ih =>
    rw [List.mapM_cons] at h
    obtain ⟨y, hy, h⟩ := run_bind_eq_ok h
    obtain ⟨rest, hrest, h⟩ := run_bind_eq_ok h
    cases h
    exact .cons hy (ih hrest)

theorem run_mapM_of_forall₂ {xs : List α} {ys : List β}
    (h : List.Forall₂ (fun x y => (f x).run = some (.ok y)) xs ys) :
    (xs.mapM f).run = some (.ok ys) := by
  induction h with
  | nil => rfl
  | cons hxy _ ih =>
    rw [List.mapM_cons, run_bind_of_ok hxy, run_bind_of_ok ih]
    rfl

theorem run_mapM_of_ok {g : α → β} {xs : List α}
    (h : ∀ x ∈ xs, (f x).run = some (.ok (g x))) : (xs.mapM f).run = some (.ok (xs.map g)) := by
  induction xs with
  | nil => rfl
  | cons x xs ih =>
    rw [List.mapM_cons, run_bind_of_ok (h x List.mem_cons_self),
      run_bind_of_ok (ih fun x hx => h x (List.mem_cons_of_mem _ hx))]
    rfl

/-- A loop panics at one element, after a result for every element before it. -/
theorem run_mapM_eq_none_iff {xs : List α} :
    (xs.mapM f).run = none ↔ ∃ before x after, xs = before ++ x :: after ∧
      (∀ y ∈ before, ∃ b, (f y).run = some (.ok b)) ∧ (f x).run = none := by
  induction xs with
  | nil =>
    refine iff_of_false (fun h => nomatch h) ?_
    rintro ⟨before, x, after, h, -, -⟩
    exact absurd h (by simp)
  | cons x xs ih =>
    rw [List.mapM_cons]
    constructor
    · intro h
      match hx : (f x).run with
      | none => exact ⟨[], x, xs, rfl, by simp, hx⟩
      | some (.error e) =>
        rw [ExceptT.run_bind, hx] at h
        cases h
      | some (.ok b) =>
        rw [run_bind_of_ok hx, ExceptT.run_bind] at h
        match hxs : (xs.mapM f).run with
        | some (.error e) => rw [hxs] at h; cases h
        | some (.ok bs) => rw [hxs] at h; cases h
        | none =>
          obtain ⟨before, y, after, rfl, hbefore, hy⟩ := ih.mp hxs
          refine ⟨x :: before, y, after, rfl, ?_, hy⟩
          simpa [hx] using hbefore
    · rintro ⟨_ | ⟨z, before⟩, y, after, hsplit, hbefore, hy⟩
      · cases hsplit
        rw [ExceptT.run_bind, hy]
        rfl
      · cases hsplit
        obtain ⟨b, hb⟩ := hbefore x List.mem_cons_self
        have hrest := ih.mpr ⟨before, y, after, rfl,
          fun z hz => hbefore z (List.mem_cons_of_mem _ hz), hy⟩
        rw [run_bind_of_ok hb, ExceptT.run_bind, hrest]
        rfl

/-- A loop of checks. -/
theorem run_forM_eq_ok {f : α → ExceptT ε Option Unit} {xs : List α} {u : Unit}
    (h : (xs.forM f).run = some (.ok u)) : ∀ x ∈ xs, (f x).run = some (.ok ()) := by
  induction xs with
  | nil => intro x hx; cases hx
  | cons x xs ih =>
    change (f x >>= fun _ => xs.forM f).run = some (.ok u) at h
    obtain ⟨_, hx, h⟩ := run_bind_eq_ok h
    intro y hy
    rcases List.mem_cons.mp hy with rfl | hy
    · exact hx
    · exact ih h y hy

theorem run_forM_of_ok {f : α → ExceptT ε Option Unit} {xs : List α}
    (h : ∀ x ∈ xs, (f x).run = some (.ok ())) : (xs.forM f).run = some (.ok ()) := by
  induction xs with
  | nil => rfl
  | cons x xs ih =>
    change (f x >>= fun _ => xs.forM f).run = some (.ok ())
    rw [run_bind_of_ok (h x List.mem_cons_self)]
    exact ih fun x hx => h x (List.mem_cons_of_mem _ hx)

end

/-! ## Loops -/

/-- A loop succeeds where every step does, whatever it starts from. -/
theorem exists_foldlM_eq_ok_iff {σ : Type} {f : σ → α → Except ε σ} {P : α → Prop}
    (hstep : ∀ s x, (∃ s', f s x = .ok s') ↔ P x) {xs : List α} {s : σ} :
    (∃ s', xs.foldlM f s = .ok s') ↔ ∀ x ∈ xs, P x := by
  induction xs generalizing s with
  | nil => exact iff_of_true ⟨s, rfl⟩ (by simp)
  | cons x xs ih =>
    rw [List.foldlM_cons, List.forall_mem_cons, ← hstep s]
    constructor
    · rintro ⟨s', hs'⟩
      obtain ⟨s₁, hs₁, hs'⟩ := bind_eq_ok hs'
      exact ⟨⟨s₁, hs₁⟩, ih.mp ⟨s', hs'⟩⟩
    · rintro ⟨⟨s₁, hs₁⟩, hxs⟩
      rw [hs₁, ok_bind]
      exact ih.mpr hxs

/-- A loop that follows another one step by step, as long as that one succeeds. -/
theorem foldlM_simulates {σ τ : Type} {f : σ → α → Option σ} {g : τ → α → Option τ} {e : σ → τ}
    {xs : List α} (hstep : ∀ x ∈ xs, ∀ s s', f s x = some s' → g (e s) x = some (e s')) {s s' : σ}
    (h : xs.foldlM f s = some s') : xs.foldlM g (e s) = some (e s') := by
  induction xs generalizing s with
  | nil => cases h; rfl
  | cons x xs ih =>
    rw [List.foldlM_cons] at h ⊢
    obtain ⟨s₁, hs₁, h⟩ := Option.bind_eq_some_iff.mp h
    rw [hstep x List.mem_cons_self s s₁ hs₁]
    exact ih (fun x hx => hstep x (List.mem_cons_of_mem _ hx)) h

end CryptPilot.Data
