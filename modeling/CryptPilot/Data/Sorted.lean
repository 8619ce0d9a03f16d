import Mathlib.Data.List.Nodup
import Mathlib.Order.Basic
import Std.Data.ExtTreeMap

/-!
# Sorted lists and maps

A list whose keys are distinct has one arrangement that is sorted by key, whatever the algorithm,
stable or not. So a document made from the sorted list does not depend on the order of the list. A
map is such a list, and is rebuilt from it.
-/

namespace CryptPilot.Data

section
variable {α β : Type} [LE β] {key : α → β} {l l₁ l₂ : List α}

/-- Stable sort by key. -/
def sortByKey [DecidableLE β] (key : α → β) (l : List α) : List α :=
  l.mergeSort fun a b => decide (key a ≤ key b)

theorem sortByKey_perm [DecidableLE β] (key : α → β) (l : List α) : (sortByKey key l).Perm l :=
  List.mergeSort_perm _ _

variable [Std.IsLinearOrder β]

theorem sortByKey_sorted [DecidableLE β] (key : α → β) (l : List α) :
    (sortByKey key l).Pairwise fun a b => key a ≤ key b := by
  have htrans : ∀ a b c : α, decide (key a ≤ key b) = true → decide (key b ≤ key c) = true →
      decide (key a ≤ key c) = true := by
    intro a b c hab hbc
    exact decide_eq_true (Std.le_trans (of_decide_eq_true hab) (of_decide_eq_true hbc))
  have htotal : ∀ a b : α, (decide (key a ≤ key b) || decide (key b ≤ key a)) = true := by
    intro a b
    simpa using Std.le_total
  have hsorted := List.pairwise_mergeSort htrans htotal l
  exact hsorted.imp fun hab => of_decide_eq_true hab

/-- The sorted arrangement of a list with distinct keys is unique. -/
theorem sorted_unique (hnodup : (l.map key).Nodup) (hp₁ : l₁.Perm l) (hp₂ : l₂.Perm l)
    (hs₁ : l₁.Pairwise fun a b => key a ≤ key b) (hs₂ : l₂.Pairwise fun a b => key a ≤ key b) :
    l₁ = l₂ := by
  refine List.Perm.eq_of_pairwise ?_ hs₁ hs₂ (hp₁.trans hp₂.symm)
  intro a b ha hb hab hba
  exact List.inj_on_of_nodup_map hnodup (hp₁.mem_iff.mp ha) (hp₂.mem_iff.mp hb)
    (Std.le_antisymm hab hba)

/-- Lists with distinct keys are sorted to one list when they have the same elements. -/
theorem sortByKey_eq_iff [DecidableLE β] (hn₁ : (l₁.map key).Nodup) (hn₂ : (l₂.map key).Nodup) :
    sortByKey key l₁ = sortByKey key l₂ ↔ ∀ a, a ∈ l₁ ↔ a ∈ l₂ := by
  have hp₁ := sortByKey_perm key l₁
  have hp₂ := sortByKey_perm key l₂
  constructor
  · intro heq a
    rw [← hp₁.mem_iff, heq, hp₂.mem_iff]
  · intro hsame
    have hperm : l₁.Perm l₂ :=
      (List.perm_ext_iff_of_nodup (hn₁.of_map _) (hn₂.of_map _)).mpr hsame
    exact sorted_unique hn₂ (hp₁.trans hperm) hp₂ (sortByKey_sorted key l₁) (sortByKey_sorted key l₂)

end

/-- Distinct keys that are sorted are strictly sorted. -/
theorem pairwise_lt_of_sorted {α β : Type} [PartialOrder β] {key : α → β} {l : List α}
    (hnodup : (l.map key).Nodup) (hsorted : l.Pairwise fun a b => key a ≤ key b) :
    l.Pairwise fun a b => key a < key b := by
  have hne : l.Pairwise fun a b => key a ≠ key b := List.pairwise_map.mp hnodup
  exact hsorted.imp₂ (fun a b hab hne => lt_of_le_of_ne hab hne) hne

/-! ## Maps -/

section
variable {κ ν : Type} [DecidableEq κ] [Ord κ] [Std.TransOrd κ] [Std.LawfulEqOrd κ]

/-- A map that is built from entries with distinct keys holds these entries. -/
theorem getElem?_foldl_insert {l : List (κ × ν)} (hnodup : (l.map Prod.fst).Nodup) (k : κ) (v : ν) :
    (l.foldl (fun (m : Std.ExtTreeMap κ ν) entry => m.insert entry.1 entry.2) ∅)[k]? = some v ↔
      (k, v) ∈ l := by
  have hdistinct : l.Pairwise fun a b => ¬ compare a.1 b.1 = .eq :=
    (List.pairwise_map.mp hnodup).imp fun hne heq => hne (Std.LawfulEqOrd.eq_of_compare heq)
  rw [← Std.ExtTreeMap.ofList_eq_foldl]
  constructor
  · intro hk
    have hcontains : (l.map Prod.fst).contains k = true := by
      by_contra hnot
      rw [Std.ExtTreeMap.getElem?_ofList_of_contains_eq_false (by simpa using hnot)] at hk
      cases hk
    obtain ⟨⟨k', v'⟩, hmem, rfl⟩ := List.mem_map.mp (List.contains_iff_mem.mp hcontains)
    rw [Std.ExtTreeMap.getElem?_ofList_of_mem Std.ReflCmp.compare_self hdistinct hmem,
      Option.some.injEq] at hk
    rwa [← hk]
  · exact Std.ExtTreeMap.getElem?_ofList_of_mem Std.ReflCmp.compare_self hdistinct

omit [DecidableEq κ] in
theorem nodup_map_fst_toList (m : Std.ExtTreeMap κ ν) : (m.toList.map Prod.fst).Nodup := by
  refine List.pairwise_map.mpr (m.distinct_keys_toList.imp fun hne heq => hne ?_)
  rw [heq]
  exact Std.ReflCmp.compare_self

/-- A map that is built from the entries of a map. -/
theorem foldl_insert_toList (m : Std.ExtTreeMap κ ν) :
    m.toList.foldl (fun m entry => m.insert entry.1 entry.2) ∅ = m := by
  refine Std.ExtTreeMap.ext_getElem? fun k => Option.ext fun v => ?_
  rw [getElem?_foldl_insert (nodup_map_fst_toList m)]
  exact Std.ExtTreeMap.mem_toList_iff_getElem?_eq_some

end

end CryptPilot.Data
