import CryptPilot.Data.Prog

/-!
# Programs among others

A protocol says what each of many programs may call, and what it can rely on: whatever the others do
between two of its calls takes the state along a relation. What one program may call is within what
the others rely on, so programs that keep to a protocol one by one keep to it together
(`Interleaved.follows`).
-/

namespace CryptPilot.Data.Prog

variable {Op : Type} {Res : Op → Type} {α β σ ι : Type}

/-- What the operations do, an invariant, what a program can rely on, and what it may call. -/
structure Protocol (Op : Type) (Res : Op → Type) (σ ι : Type) where
  sem : σ → (op : Op) → Res op → σ → Prop
  inv : σ → Prop
  rely : ι → σ → σ → Prop
  allowed : ι → σ → Op → Prop
  rely_refl : ∀ i s, rely i s s
  rely_trans : ∀ {i a b c}, rely i a b → rely i b c → rely i a c
  keeps : ∀ {i s op r s'}, allowed i s op → inv s → sem s op r s' → inv s'
  guarantee : ∀ {i j s op r s'}, i ≠ j → allowed i s op → sem s op r s' → rely j s s'

/-- From `s`, the program `i` calls what it may, and `Q` holds when it is done, whatever the others do
before each call and in the end. -/
def Follows (P : Protocol Op Res σ ι) (i : ι) (Q : Except String α → σ → Prop) :
    Prog Op Res α → σ → Prop
  | .done r, s => ∀ s', P.rely i s s' → P.inv s' → Q r s'
  | .step op next, s => ∀ t, P.rely i s t → P.inv t →
    P.allowed i t op ∧ ∀ r s', P.sem t op r s' → (next r).Follows P i Q s'

section
variable {P : Protocol Op Res σ ι} {i : ι} {Q : Except String α → σ → Prop} {p : Prog Op Res α}
  {s s' : σ}

/-- The others can not break it. -/
theorem Follows.stable (h : p.Follows P i Q s) (hs : P.rely i s s') : p.Follows P i Q s' := by
  cases p with
  | done r => exact fun t ht => h t (P.rely_trans hs ht)
  | step op next => exact fun t ht => h t (P.rely_trans hs ht)

/-- **Composition.** -/
theorem Follows.andThen {R : Except String β → σ → Prop} {f : Except String α → Prog Op Res β}
    (h : p.Follows P i Q s) (hf : ∀ r s', P.inv s' → Q r s' → (f r).Follows P i R s') :
    (p.andThen f).Follows P i R s := by
  induction p generalizing s with
  | done r =>
    -- whatever is done first is done after the others
    have hnow (t : σ) (ht : P.rely i s t) (hinv : P.inv t) : (f r).Follows P i R t :=
      hf r t hinv (h t ht hinv)
    show (f r).Follows P i R s
    revert hnow
    cases f r with
    | done r' => exact fun hnow t ht hinv => hnow t ht hinv t (P.rely_refl i t) hinv
    | step op next => exact fun hnow t ht hinv => hnow t ht hinv t (P.rely_refl i t) hinv
  | step op next ih =>
    intro t ht hinv
    obtain ⟨hallowed, hnext⟩ := h t ht hinv
    exact ⟨hallowed, fun r s' hr => ih r (hnext r s' hr)⟩

end

/-- **The rule for many programs.** Programs that keep to a protocol do so together. -/
theorem Interleaved.follows [DecidableEq ι] {P : Protocol Op Res σ ι}
    {Q : ι → Except String α → σ → Prop} {ps qs : ι → Prog Op Res α}
    {es : List (ι × Event Op Res)} {s s' : σ} (h : Interleaved ps es qs)
    (hsteps : Steps P.sem s (es.map Prod.snd) s') (hinv : P.inv s)
    (hps : ∀ i, (ps i).Follows P i (Q i) s) :
    P.inv s' ∧ ∀ i, (qs i).Follows P i (Q i) s' := by
  induction h generalizing s with
  | nil ps =>
    rw [steps_nil.mp hsteps]
    exact ⟨hinv, hps⟩
  | @cons ps qs i op next es hi r _ ih =>
    obtain ⟨t, hop, hsteps⟩ := steps_cons.mp hsteps
    -- one program makes its call, and the others bear it
    have hcall := hps i
    rw [hi] at hcall
    obtain ⟨hallowed, hnext⟩ := hcall s (P.rely_refl i s) hinv
    refine ih hsteps (P.keeps hallowed hinv hop) fun j => ?_
    by_cases hij : j = i
    · subst hij
      rw [Function.update_self]
      exact hnext r t hop
    · rw [Function.update_of_ne hij]
      exact (hps j).stable (P.guarantee (Ne.symm hij) hallowed hop)

end CryptPilot.Data.Prog
