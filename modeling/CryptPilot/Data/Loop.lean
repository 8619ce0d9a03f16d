import Mathlib.Data.Set.Finite.Lattice
import Mathlib.Logic.Relation

/-!
# Loops without a counter

A loop goes from one state to the next until there is a result. It may not end, so it is run with a
number of steps that it is allowed.

If every run that never comes back to a state comes again and again to a finite set, then there is no
such run, and a loop ends exactly if it does not come back to a state (`ends_iff_acyclic`).
-/

namespace CryptPilot.Data

variable {σ ρ : Type}

def loop (step : σ → σ ⊕ ρ) : Nat → σ → Option ρ
  | 0, _ => none
  | fuel + 1, s =>
    match step s with
    | .inl s' => loop step fuel s'
    | .inr result => some result

/-- One step of a loop. -/
def Leads (step : σ → σ ⊕ ρ) (s s' : σ) : Prop := step s = .inl s'

/-- With enough steps, there is a result. -/
def Ends (step : σ → σ ⊕ ρ) (s : σ) : Prop := ∃ fuel result, loop step fuel s = some result

section
variable {step : σ → σ ⊕ ρ} {s s' : σ} {fuel : Nat} {result : ρ}

theorem loop_of_leads (h : Leads step s s') : loop step (fuel + 1) s = loop step fuel s' := by
  rw [loop, h]

theorem loop_of_result (h : step s = .inr result) : loop step (fuel + 1) s = some result := by
  rw [loop, h]

/-- A result does not depend on the number of steps. -/
theorem loop_unique {fuel' : Nat} {result' : ρ} (h : loop step fuel s = some result)
    (h' : loop step fuel' s = some result') : result' = result := by
  induction fuel generalizing fuel' s with
  | zero => cases h
  | succ fuel ih =>
    cases fuel' with
    | zero => cases h'
    | succ fuel' =>
      cases hstep : step s with
      | inl next =>
        rw [loop_of_leads hstep] at h h'
        exact ih h h'
      | inr found =>
        rw [loop_of_result hstep] at h h'
        rw [← Option.some.inj h, ← Option.some.inj h']

theorem Ends.of_leads (h : Ends step s) (hleads : Leads step s s') : Ends step s' := by
  obtain ⟨fuel, result, h⟩ := h
  cases fuel with
  | zero => cases h
  | succ fuel =>
    rw [loop_of_leads hleads] at h
    exact ⟨fuel, result, h⟩

theorem Ends.reaches (h : Ends step s) (hreach : Relation.ReflTransGen (Leads step) s s') :
    Ends step s' := by
  induction hreach with
  | refl => exact h
  | tail _ hleads ih => exact ih.of_leads hleads

/-- A loop that ends does not come back. -/
theorem Ends.acyclic (h : Ends step s) : ¬Relation.TransGen (Leads step) s s := by
  obtain ⟨fuel, result, h⟩ := h
  induction fuel generalizing s with
  | zero => cases h
  | succ fuel ih =>
    intro hcycle
    obtain ⟨s', hleads, hback⟩ := Relation.TransGen.head'_iff.mp hcycle
    rw [loop_of_leads hleads] at h
    exact ih h (Relation.TransGen.tail' hback hleads)

theorem exists_leads_of_not_ends (h : ¬Ends step s) : ∃ s', Leads step s s' ∧ ¬Ends step s' := by
  cases hstep : step s with
  | inl s' =>
    refine ⟨s', hstep, ?_⟩
    rintro ⟨fuel, result, hresult⟩
    exact h ⟨fuel + 1, result, by rw [loop_of_leads hstep, hresult]⟩
  | inr result => exact absurd ⟨1, result, loop_of_result hstep⟩ h

/-- A loop that does not end goes through infinitely many steps. -/
theorem exists_chain_of_not_ends (h : ¬Ends step s) :
    ∃ chain : Nat → σ, chain 0 = s ∧ ∀ i, Leads step (chain i) (chain (i + 1)) := by
  choose next hnext using fun t : {t // ¬Ends step t} => exists_leads_of_not_ends t.2
  let chain : Nat → {t // ¬Ends step t} := fun i => i.rec ⟨s, h⟩ fun _ t => ⟨next t, (hnext t).2⟩
  exact ⟨fun i => (chain i).1, rfl, fun i => (hnext (chain i)).1⟩

theorem reflTransGen_of_chain {chain : Nat → σ} (h : ∀ i, Leads step (chain i) (chain (i + 1)))
    (i j : Nat) : Relation.ReflTransGen (Leads step) (chain i) (chain (i + j)) := by
  induction j with
  | zero => exact .refl
  | succ j ih => exact ih.tail (h (i + j))

/-- **When a loop ends.** -/
theorem ends_iff_acyclic {returns : Set σ} (hfinite : returns.Finite)
    (hreturns : ∀ chain : Nat → σ, (∀ i, Leads step (chain i) (chain (i + 1))) →
      Function.Injective chain → ∀ i, ∃ j, i ≤ j ∧ chain j ∈ returns) :
    Ends step s ↔ ∀ s', Relation.ReflTransGen (Leads step) s s' →
      ¬Relation.TransGen (Leads step) s' s' := by
  refine ⟨fun h s' hreach => (h.reaches hreach).acyclic, fun hacyclic => ?_⟩
  by_contra hnot
  obtain ⟨chain, rfl, hchain⟩ := exists_chain_of_not_ends hnot
  have hne : ∀ i j, i < j → chain i ≠ chain j := by
    intro i j hlt heq
    have hreach := reflTransGen_of_chain hchain 0 i
    have hback := reflTransGen_of_chain hchain (i + 1) (j - (i + 1))
    rw [Nat.zero_add] at hreach
    rw [Nat.add_sub_cancel' hlt, ← heq] at hback
    exact hacyclic (chain i) hreach (Relation.TransGen.head' (hchain i) hback)
  have hinjective : Function.Injective chain := by
    intro i j heq
    rcases Nat.lt_trichotomy i j with hlt | rfl | hgt
    · exact absurd heq (hne i j hlt)
    · rfl
    · exact absurd heq.symm (hne j i hgt)
  have hbounded : {i | chain i ∈ returns}.Finite := hfinite.preimage hinjective.injOn
  obtain ⟨bound, hbound⟩ := hbounded.bddAbove
  obtain ⟨j, hle, hj⟩ := hreturns chain hchain hinjective (bound + 1)
  have hle' : j ≤ bound := hbound hj
  omega

end

end CryptPilot.Data
