import Mathlib.Data.List.Nodup

/-!
# A least-recently-used cache

At most `cap` entries with different keys, the most recently used one first. Looking a key up moves
its entry to the front; inserting drops the last entry when there is no room.

Whatever happens to be evicted, an entry got into the cache by an insertion (`mem_entries_put`), and
a lookup keeps the entries (`get_eq_some`). So a property that holds of everything inserted holds
of all entries, and of what is found.
-/

namespace CryptPilot.Data

variable {κ ν : Type*} [DecidableEq κ]

structure Lru (κ ν : Type*) where
  cap : Nat
  entries : List (κ × ν)
  cap_pos : 0 < cap
  nodup : (entries.map Prod.fst).Nodup
  length_le : entries.length ≤ cap

namespace Lru

/-- An empty cache. -/
def new (cap : Nat) (h : 0 < cap) : Lru κ ν := ⟨cap, [], h, List.nodup_nil, Nat.zero_le _⟩

/-- The entries with another key. -/
def others (self : Lru κ ν) (k : κ) : List (κ × ν) := self.entries.filter fun e => e.1 ≠ k

theorem mem_others {self : Lru κ ν} {k : κ} {e : κ × ν} :
    e ∈ self.others k ↔ e ∈ self.entries ∧ e.1 ≠ k := by
  simp [others]

theorem nodup_cons_others (self : Lru κ ν) (k : κ) (v : ν) :
    (((k, v) :: self.others k).map Prod.fst).Nodup := by
  rw [List.map_cons, List.nodup_cons]
  constructor
  · intro hmem
    obtain ⟨e, he, hk⟩ := List.mem_map.mp hmem
    exact (mem_others.mp he).2 hk
  · exact self.nodup.sublist (List.filter_sublist.map Prod.fst)

/-- An entry with key `k` is not among the others. -/
theorem length_others_lt {self : Lru κ ν} {k : κ} {v : ν} (h : (k, v) ∈ self.entries) :
    (self.others k).length < self.entries.length := by
  apply List.length_filter_lt_length_iff_exists.mpr
  exact ⟨(k, v), h, by simp⟩

/-- The value of a key; a hit makes it the most recent one. -/
def get (self : Lru κ ν) (k : κ) : Option ν × Lru κ ν :=
  match h : self.entries.find? fun e => e.1 = k with
  | none => (none, self)
  | some e =>
    (some e.2, ⟨self.cap, (k, e.2) :: self.others k, self.cap_pos, self.nodup_cons_others k e.2, by
      have hk : e.1 = k := by simpa using List.find?_some h
      have hmem : (k, e.2) ∈ self.entries := hk ▸ List.mem_of_find?_eq_some h
      exact Nat.le_trans (length_others_lt hmem) self.length_le⟩)

/-- Inserts a value or replaces it; the last entry makes room. -/
def put (self : Lru κ ν) (k : κ) (v : ν) : Lru κ ν :=
  ⟨self.cap, ((k, v) :: self.others k).take self.cap, self.cap_pos,
    (self.nodup_cons_others k v).sublist ((List.take_sublist _ _).map Prod.fst),
    List.length_take_le _ _⟩

/-- A hit is an entry, and the lookup keeps the entries. -/
theorem get_eq_some {self c : Lru κ ν} {k : κ} {v : ν} (h : self.get k = (some v, c)) :
    (k, v) ∈ self.entries ∧ ∀ e, e ∈ c.entries ↔ e ∈ self.entries := by
  unfold get at h
  split at h
  · cases h
  · next e hfind =>
    have hk : e.1 = k := by simpa using List.find?_some hfind
    have hmem : (k, e.2) ∈ self.entries := hk ▸ List.mem_of_find?_eq_some hfind
    cases h
    refine ⟨hmem, fun e' => ?_⟩
    rw [List.mem_cons, mem_others]
    constructor
    · rintro (rfl | ⟨he', -⟩)
      · exact hmem
      · exact he'
    · intro he'
      by_cases hk' : e'.1 = k
      · -- keys are different, so this is the entry found
        left
        exact List.inj_on_of_nodup_map self.nodup he' hmem hk'
      · exact Or.inr ⟨he', hk'⟩

theorem get_eq_none {self c : Lru κ ν} {k : κ} (h : self.get k = (none, c)) : c = self := by
  unfold get at h
  split at h
  · cases h; rfl
  · cases h

theorem mem_entries_put {self : Lru κ ν} {k : κ} {v : ν} {e : κ × ν}
    (h : e ∈ (self.put k v).entries) : e = (k, v) ∨ e ∈ self.entries := by
  rcases List.mem_cons.mp (List.mem_of_mem_take h) with he | he
  · exact Or.inl he
  · exact Or.inr (mem_others.mp he).1

end Lru

end CryptPilot.Data
