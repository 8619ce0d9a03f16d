import CryptPilot.Data.Prog
import Mathlib.Data.List.Chain

/-!
# Histories

Runs of programs one after the other, as in `Prog.Runs`, but with the states in which each of them
begins and stops. A run can stop anywhere.

If something holds when the last run begins, and not when the first one does, there is a run after
which it has held at every beginning (`IsHistory.exists_last_without`). What is kept from there on is
kept up to the last run (`IsHistory.carried`).
-/

namespace CryptPilot.Data.Prog

variable {Op : Type} {Res : Op → Type} {α σ ι : Type}

/-- A run, with its states. -/
structure Episode (Op : Type) (Res : Op → Type) (α ι σ : Type) extends Run Op Res α ι where
  start : σ
  stop : σ

/-- What happens between two runs is `idle`. -/
structure IsHistory (prog : ι → Prog Op Res α) (sem : σ → (op : Op) → Res op → σ → Prop)
    (idle : σ → σ → Prop) (initial : σ → Prop) (episodes : List (Episode Op Res α ι σ)) : Prop where
  path : ∀ e ∈ episodes, Path (prog e.input) e.events e.rest
  steps : ∀ e ∈ episodes, Steps sem e.start e.events e.stop
  first : ∀ e ∈ episodes.head?, initial e.start
  chain : episodes.IsChain fun e e' => idle e.stop e'.start

/-- The last element without a property. -/
theorem exists_last_of_mem {β : Type} {p : β → Prop} {l : List β} (h : ∃ b ∈ l, ¬p b) :
    ∃ pre b post, l = pre ++ b :: post ∧ ¬p b ∧ ∀ b' ∈ post, p b' := by
  induction l with
  | nil =>
    obtain ⟨b, hb, -⟩ := h
    cases hb
  | cons a l ih =>
    by_cases hl : ∃ b ∈ l, ¬p b
    · obtain ⟨pre, b, post, rfl, hb, hpost⟩ := ih hl
      exact ⟨a :: pre, b, post, rfl, hb, hpost⟩
    · have hall : ∀ b ∈ l, p b := fun b hb => by_contra fun hp => hl ⟨b, hb, hp⟩
      obtain ⟨b, hb, hp⟩ := h
      rcases List.mem_cons.mp hb with rfl | hb
      · exact ⟨[], b, l, rfl, hp, hall⟩
      · exact absurd (hall b hb) hp

section
variable {prog : ι → Prog Op Res α} {sem : σ → (op : Op) → Res op → σ → Prop} {idle : σ → σ → Prop}
  {initial : σ → Prop} {earlier between : List (Episode Op Res α ι σ)}
  {first last : Episode Op Res α ι σ} {p : σ → Prop}

theorem IsHistory.exists_last_without (h : IsHistory prog sem idle initial (earlier ++ [last]))
    (hinitial : ∀ s, initial s → ¬p s) (hlast : p last.start) :
    ∃ before first between, earlier = before ++ first :: between ∧ ¬p first.start ∧
      ∀ e ∈ between, p e.start := by
  cases earlier with
  | nil => exact absurd hlast (hinitial _ (h.first last rfl))
  | cons e earlier =>
    exact exists_last_of_mem (p := fun e => p e.start)
      ⟨e, List.mem_cons_self, hinitial _ (h.first e rfl)⟩

/-- By induction on the runs between. -/
theorem IsHistory.carried {R : σ → σ → Prop}
    (htrans : ∀ s s' s'', R s s' → R s' s'' → R s s'')
    (hidle : ∀ s s', idle s s' → p s' → R s s')
    (hrun : ∀ e ∈ between, p e.start → R e.start e.stop)
    (hstart : ∀ e ∈ between ++ [last], p e.start)
    (hchain : (first :: (between ++ [last])).IsChain fun e e' => idle e.stop e'.start) :
    R first.stop last.start := by
  induction between generalizing first with
  | nil =>
    obtain ⟨hnext, -⟩ := List.isChain_cons_cons.mp hchain
    exact hidle _ _ hnext (hstart last List.mem_cons_self)
  | cons e between ih =>
    obtain ⟨hnext, hchain⟩ := List.isChain_cons_cons.mp hchain
    have hp : p e.start := hstart e List.mem_cons_self
    have hrest : R e.stop last.start :=
      ih (fun e he => hrun e (List.mem_cons_of_mem _ he))
        (fun e he => hstart e (List.mem_cons_of_mem _ he)) hchain
    exact htrans _ _ _ (hidle _ _ hnext hp)
      (htrans _ _ _ (hrun e List.mem_cons_self hp) hrest)

end

end CryptPilot.Data.Prog
