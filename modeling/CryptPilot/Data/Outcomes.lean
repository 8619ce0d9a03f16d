import CryptPilot.Data.Prog

/-!
# How programs end

`Ends` is about the result of a program, whatever the answers are. A program that does not fail is
`Total`.

Of two programs that make the same checks, one stops at the first failure and the other one goes on
and fails in the end. `Lenient` relates them: they make the same calls up to the first failure. So
they succeed in the same runs (`Lenient.ok`, `Lenient.good`), and after a failure of the strict one
the lenient one can not succeed any more (`Lenient.failed`).
-/

namespace CryptPilot.Data.Prog

variable {Op : Type} {Res : Op → Type} {α β ι : Type}

/-! ## Results -/

/-- Whatever the answers are, `Q` holds of the result. -/
def Ends (Q : Except String α → Prop) : Prog Op Res α → Prop
  | .done r => Q r
  | .step _ next => ∀ r, (next r).Ends Q

section
variable {p : Prog Op Res α} {Q : Except String α → Prop}

theorem Ends.andThen {R : Except String β → Prop} {f : Except String α → Prog Op Res β}
    (hp : p.Ends Q) (hf : ∀ r, Q r → (f r).Ends R) : (p.andThen f).Ends R := by
  induction p with
  | done r => exact hf r hp
  | step op next ih => exact fun r => ih r (hp r)

theorem ends_true : p.Ends fun _ => True := by
  induction p with
  | done r => trivial
  | step op next ih => exact ih

theorem Ends.path {es : List (Event Op Res)} {r : Except String α} (h : p.Ends Q)
    (hpath : Path p es (.done r)) : Q r := by
  induction p generalizing es with
  | done r' =>
    obtain ⟨-, hr⟩ := hpath.of_done
    cases hr
    exact h
  | step op next ih =>
    rcases hpath with _ | ⟨answer, hpath⟩
    exact ih answer (h answer) hpath

end

/-! ## Programs that do not fail -/

def Total (p : Prog Op Res α) : Prop := p.Ends fun r => ∃ a, r = .ok a

section
variable {p : Prog Op Res α}

theorem total_pure {a : α} : (pure a : Prog Op Res α).Total := ⟨a, rfl⟩

theorem total_call {op : Op} : (call op : Prog Op Res (Res op)).Total := fun r => ⟨r, rfl⟩

theorem Total.bind {f : α → Prog Op Res β} (hp : p.Total) (hf : ∀ a, (f a).Total) :
    (p >>= f).Total := by
  refine Ends.andThen hp ?_
  rintro _ ⟨a, rfl⟩
  exact hf a

/-- A failure is a result too. -/
theorem total_attempt : (attempt p).Total := Ends.andThen ends_true fun r _ => ⟨r, rfl⟩

theorem Total.forEach {f : ι → Prog Op Res Unit} {xs : List ι} (hf : ∀ x, (f x).Total) :
    (forEach f xs).Total := by
  induction xs with
  | nil => exact total_pure
  | cons x xs ih => exact (hf x).bind fun _ => ih

theorem Total.path {es : List (Event Op Res)} {r : Except String α} (h : p.Total)
    (hpath : Path p es (.done r)) : ∃ a, r = .ok a :=
  Ends.path h hpath

end

/-! ## Programs that go on -/

/-- The first program goes on where the second one stops with a failure, and ends badly then. -/
inductive Lenient (bad : Except String α → Prop) : Prog Op Res α → Prog Op Res α → Prop
  | same {r : Except String α} : ¬bad r → Lenient bad (.done r) (.done r)
  | step {op : Op} {next next' : Res op → Prog Op Res α} :
      (∀ r, Lenient bad (next r) (next' r)) → Lenient bad (.step op next) (.step op next')
  | stop {p : Prog Op Res α} (e : String) : p.Ends bad → Lenient bad p (.done (.error e))

section
variable {bad : Except String α → Prop} {p q : Prog Op Res α} {es : List (Event Op Res)}

theorem Lenient.andThen {bad' : Except String β → Prop} {f g : Except String α → Prog Op Res β}
    (h : Lenient bad p q) (hfg : ∀ r, ¬bad r → Lenient bad' (f r) (g r))
    (hf : ∀ r, bad r → (f r).Ends bad') (hg : ∀ e, ∃ e', g (.error e) = .done (.error e')) :
    Lenient bad' (p.andThen f) (q.andThen g) := by
  induction h with
  | same hr => exact hfg _ hr
  | step _ ih => exact .step ih
  | @stop p e hp =>
    obtain ⟨e', he'⟩ := hg e
    show Lenient bad' (p.andThen f) (g (.error e))
    rw [he']
    exact .stop e' (hp.andThen hf)

/-- Both try the same, and look at what comes of it. -/
theorem lenient_attempt {bad' : Except String β → Prop} {f g : Except String α → Prog Op Res β}
    (h : ∀ r, Lenient bad' (f r) (g r)) : Lenient bad' (attempt p >>= f) (attempt p >>= g) := by
  induction p with
  | done r => exact h r
  | step op next ih => exact .step ih

/-- Where the strict one succeeds the lenient one does too. -/
theorem Lenient.ok (h : Lenient bad p q) {a : α} (hq : Path q es (.done (.ok a))) :
    Path p es (.done (.ok a)) ∧ ¬bad (.ok a) := by
  induction h generalizing es with
  | same hr =>
    obtain ⟨rfl, hdone⟩ := hq.of_done
    cases hdone
    exact ⟨.nil _, hr⟩
  | step _ ih =>
    rcases hq with _ | ⟨answer, hq⟩
    obtain ⟨hp, ha⟩ := ih answer hq
    exact ⟨.cons answer hp, ha⟩
  | stop e _ =>
    obtain ⟨-, hdone⟩ := hq.of_done
    cases hdone

/-- Where the lenient one ends well the strict one ends the same. -/
theorem Lenient.good (h : Lenient bad p q) {r : Except String α} (hp : Path p es (.done r))
    (hr : ¬bad r) : Path q es (.done r) := by
  induction h generalizing es with
  | same _ => exact hp
  | step _ ih =>
    rcases hp with _ | ⟨answer, hp⟩
    exact .cons answer (ih answer hp)
  | stop e hbad => exact (hr (hbad.path hp)).elim

/-- Where the lenient one ends badly the strict one has stopped. -/
theorem Lenient.stopped (h : Lenient bad p q) {r : Except String α} (hp : Path p es (.done r))
    (hr : bad r) : ∃ pre e, pre <+: es ∧ Path q pre (.done (.error e)) := by
  induction h generalizing es with
  | same hgood =>
    obtain ⟨-, hdone⟩ := hp.of_done
    cases hdone
    exact (hgood hr).elim
  | step _ ih =>
    rcases hp with _ | ⟨answer, hp⟩
    obtain ⟨pre, e, hprefix, hq⟩ := ih answer hp
    exact ⟨_ :: pre, e, List.cons_prefix_cons.mpr ⟨rfl, hprefix⟩, .cons answer hq⟩
  | stop e _ => exact ⟨[], e, List.nil_prefix, .nil _⟩

/-- Once the strict one has stopped the lenient one ends badly. -/
theorem Lenient.failed (h : Lenient bad p q) (herror : ∀ e, bad (.error e)) {e : String}
    (hq : Path q es (.done (.error e))) {es' : List (Event Op Res)} {r : Except String α}
    (hp : Path p (es ++ es') (.done r)) : bad r := by
  induction h generalizing es with
  | same _ =>
    obtain ⟨rfl, hdone⟩ := hq.of_done
    cases hdone
    obtain ⟨-, hdone⟩ := hp.of_done
    cases hdone
    exact herror e
  | step _ ih =>
    rcases hq with _ | ⟨answer, hq⟩
    rcases hp with _ | ⟨_, hp⟩
    exact ih answer hq hp
  | stop _ hbad => exact hbad.path hp

end

end CryptPilot.Data.Prog
