import CryptPilot.Data.Chunks

/-!
# Hash trees of bounded fan-out, and their streaming accumulator

A tree over a list of digests is built bottom up: group the digests into nodes of `c` children,
replace every group by its digest, and repeat until one digest is left. `root` is that recursion.
The digest type and the node function are arbitrary.

A streaming builder sees the digests one at a time and keeps only the group that is still open on
every level. Here that state is a *function* of the digests seen so far, `frontier`, and the three
facts a builder needs are

* `push_frontier` — pushing one more digest moves from `frontier hs` to `frontier (hs ++ [h])`;
* `flush_frontier` — closing every open group, bottom up, ends at `root (hs ++ [h])`;
* `weight_frontier` — the digests can be counted from the open groups alone.

The last section is about binding: two equally long lists of digests with one root are equal, or
two different groups, both hashed on the way, have one digest (`root_inj`).
-/

namespace CryptPilot.Data

variable {α β δ : Type*}

/-- An explicit collision of `f`: two different arguments, one from each list, with one value. -/
def Collides (f : α → β) (xs ys : List α) : Prop :=
  ∃ x ∈ xs, ∃ y ∈ ys, x ≠ y ∧ f x = f y

instance [DecidableEq α] [DecidableEq β] (f : α → β) (xs ys : List α) :
    Decidable (Collides f xs ys) :=
  inferInstanceAs (Decidable (∃ x ∈ xs, ∃ y ∈ ys, x ≠ y ∧ f x = f y))

theorem Collides.mono {f : α → β} {xs xs' ys ys' : List α} (h : Collides f xs ys)
    (hx : xs ⊆ xs') (hy : ys ⊆ ys') : Collides f xs' ys' := by
  obtain ⟨x, hxs, y, hys, hne, heq⟩ := h
  exact ⟨x, hx hxs, y, hy hys, hne, heq⟩

/-- Equal values come from equal arguments, or are a collision. -/
theorem eq_or_collides {f : α → β} {xs ys : List α} {x y : α} (hx : x ∈ xs) (hy : y ∈ ys)
    (h : f x = f y) : x = y ∨ Collides f xs ys := by
  by_cases hxy : x = y
  · exact Or.inl hxy
  · exact Or.inr ⟨x, hx, y, hy, hxy, h⟩

/-! ## The tree -/

section
variable (c : Nat) (node : List δ → δ)

/-- The digests of the groups of `c`, in order. -/
def parents (hs : List δ) : List δ := (chunks c hs).map node

/-- The single digest that is left after grouping `c` at a time; `z` stands for no digest at all. -/
def root (z : δ) (hs : List δ) : δ :=
  if _h : 2 ≤ hs.length ∧ 2 ≤ c then root z (parents c node hs) else hs.headD z
termination_by hs.length
decreasing_by
  rw [parents, List.length_map]
  exact length_chunks_lt _h.2 _h.1

/-- The groups that are still open after the digests `hs`, lowest level first. A level exists as
soon as a digest has reached it, and may be empty. -/
def frontier (hs : List δ) : List (List δ) :=
  if _h : hs ≠ [] ∧ 2 ≤ c then
    hs.drop (c * (hs.length / c)) :: frontier (parents c node (hs.take (c * (hs.length / c))))
  else []
termination_by hs.length
decreasing_by
  have hpos := List.length_pos_of_ne_nil _h.1
  have hlt := Nat.div_lt_self hpos (by omega : 1 < c)
  rw [parents, List.length_map, length_chunks (by omega), List.length_take,
    Nat.min_eq_left (Nat.mul_div_le hs.length c)]
  apply (Nat.div_lt_iff_lt_mul (by omega)).mpr
  have := Nat.mul_le_mul_right c hlt
  rw [Nat.succ_mul, Nat.mul_comm] at this
  omega

/-- One more digest for the lowest level. A group that becomes full is closed: its digest moves up
and the level starts again. -/
def push (h : δ) : List (List δ) → List (List δ)
  | [] => [[h]]
  | p :: ps => if p.length + 1 < c then (p ++ [h]) :: ps else [] :: push (node (p ++ [h])) ps

/-- Close every level, carrying the digest of each into the next. -/
def flush (h : δ) : List (List δ) → δ
  | [] => h
  | p :: ps => flush (node (p ++ [h])) ps

/-- The number of digests behind open groups, a digest on the lowest level counting `s`. -/
def weight (s : Nat) : List (List δ) → Nat
  | [] => 0
  | p :: ps => s * p.length + weight (s * c) ps

/-- The groups that are hashed when the root of `hs` is computed. -/
def inputs (hs : List δ) : List (List δ) :=
  if _h : 2 ≤ hs.length ∧ 2 ≤ c then chunks c hs ++ inputs (parents c node hs) else []
termination_by hs.length
decreasing_by
  rw [parents, List.length_map]
  exact length_chunks_lt _h.2 _h.1

end

/-! ## Unfolding -/

section
variable {c : Nat} {node : List δ → δ}

theorem length_parents (hc : 0 < c) (hs : List δ) :
    (parents c node hs).length = (hs.length + c - 1) / c := by
  rw [parents, List.length_map, length_chunks hc]

@[simp] theorem root_nil (z : δ) : root c node z [] = z := by
  rw [root]; simp

@[simp] theorem root_singleton (z h : δ) : root c node z [h] = h := by
  rw [root]; simp

theorem root_step (hc : 2 ≤ c) (z : δ) {hs : List δ} (h : 2 ≤ hs.length) :
    root c node z hs = root c node z (parents c node hs) := by
  rw [root, dif_pos ⟨h, hc⟩]

@[simp] theorem frontier_nil : frontier c node ([] : List δ) = [] := by
  rw [frontier]; simp

theorem frontier_of_ne_nil (hc : 2 ≤ c) {hs : List δ} (h : hs ≠ []) :
    frontier c node hs = hs.drop (c * (hs.length / c)) ::
      frontier c node (parents c node (hs.take (c * (hs.length / c)))) := by
  rw [frontier, dif_pos ⟨h, hc⟩]

theorem inputs_step (hc : 2 ≤ c) {hs : List δ} (h : 2 ≤ hs.length) :
    inputs c node hs = chunks c hs ++ inputs c node (parents c node hs) := by
  rw [inputs, dif_pos ⟨h, hc⟩]

theorem inputs_of_length_le_one {hs : List δ} (h : hs.length ≤ 1) : inputs c node hs = [] := by
  rw [inputs, dif_neg (by omega)]

/-- The closed groups of `hs` number `|hs| / c`. -/
theorem length_parents_take (hc : 0 < c) (hs : List δ) :
    (parents c node (hs.take (c * (hs.length / c)))).length = hs.length / c := by
  rw [length_parents hc, List.length_take, Nat.min_eq_left (Nat.mul_div_le hs.length c),
    Nat.add_sub_assoc hc, Nat.mul_add_div hc, Nat.div_eq_of_lt (show c - 1 < c by omega),
    Nat.add_zero]

theorem length_drop_frontier (hs : List δ) :
    (hs.drop (c * (hs.length / c))).length = hs.length % c := by
  rw [List.length_drop]
  have := Nat.div_add_mod hs.length c
  omega

/-- Grouping splits at the last group boundary: the closed groups, then the open one. -/
theorem parents_append_open (hc : 0 < c) (hs tail : List δ)
    (hne : tail ≠ []) (hle : hs.length % c + tail.length ≤ c) :
    parents c node (hs ++ tail) =
      parents c node (hs.take (c * (hs.length / c))) ++
        [node (hs.drop (c * (hs.length / c)) ++ tail)] := by
  have hsplit : hs ++ tail =
      hs.take (c * (hs.length / c)) ++ (hs.drop (c * (hs.length / c)) ++ tail) := by
    rw [← List.append_assoc, List.take_append_drop]
  have hdvd : c ∣ (hs.take (c * (hs.length / c))).length := by
    rw [List.length_take, Nat.min_eq_left (Nat.mul_div_le hs.length c)]
    exact Nat.dvd_mul_right c _
  have hopen : chunks c (hs.drop (c * (hs.length / c)) ++ tail) =
      [hs.drop (c * (hs.length / c)) ++ tail] := by
    apply chunks_of_length_le
    · simp [hne]
    · rw [List.length_append, length_drop_frontier]; exact hle
  rw [hsplit, parents, chunks_append hc _ _ hdvd, List.map_append, hopen, List.map_singleton]
  rfl

/-! ## The streaming builder -/

/-- Pushing a digest on the open groups of `hs` leaves the open groups of `hs ++ [h]`. -/
theorem push_frontier (hc : 2 ≤ c) (h : δ) (hs : List δ) :
    push c node h (frontier c node hs) = frontier c node (hs ++ [h]) := by
  induction hk : hs.length using Nat.strongRecOn generalizing h hs with
  | ind k ih =>
    have hne : hs ++ [h] ≠ [] := by simp
    by_cases hnil : hs = []
    · subst hnil
      rw [frontier_nil, frontier_of_ne_nil hc hne]
      have h1 : 1 / c = 0 := Nat.div_eq_of_lt (by omega)
      simp [push, parents, h1]
    · rw [frontier_of_ne_nil hc hnil, push, length_drop_frontier]
      have hdm := Nat.div_add_mod hs.length c
      have hmod := Nat.mod_lt hs.length (by omega : 0 < c)
      rw [frontier_of_ne_nil hc hne]
      split
      · next hroom =>
        -- the lowest group stays open, so no level above it moves
        have hdiv : (hs ++ [h]).length / c = hs.length / c := by
          rw [List.length_append, List.length_singleton, ← hdm, Nat.add_assoc,
            Nat.mul_add_div (by omega), Nat.div_eq_of_lt hroom, Nat.mul_add_div (by omega),
            Nat.div_eq_of_lt hmod]
        have hle : c * (hs.length / c) ≤ hs.length := Nat.mul_div_le _ _
        rw [hdiv, List.drop_append_of_le_length hle, List.take_append_of_le_length hle]
      · next hfull =>
        -- the lowest group is complete, and its digest is pushed one level up
        have hlen : (hs ++ [h]).length = c * (hs.length / c + 1) := by
          rw [List.length_append, List.length_singleton, Nat.mul_succ]; omega
        have hdiv : (hs ++ [h]).length / c = hs.length / c + 1 := by
          rw [hlen, Nat.mul_div_cancel_left _ (by omega)]
        rw [hdiv, ← hlen, List.drop_length, List.take_length,
          parents_append_open (by omega) hs [h] (by simp) (by simp; omega)]
        congr 1
        apply ih (hs.length / c) _ _ _ (length_parents_take (by omega) hs)
        rw [← hk]
        exact Nat.div_lt_self (List.length_pos_of_ne_nil hnil) (by omega)

/-- Closing the open groups of `hs` with a last digest gives the root of all of them. -/
theorem flush_frontier (hc : 2 ≤ c) (z h : δ) (hs : List δ) :
    flush node h (frontier c node hs) = root c node z (hs ++ [h]) := by
  induction hk : hs.length using Nat.strongRecOn generalizing h hs with
  | ind k ih =>
    by_cases hnil : hs = []
    · subst hnil
      simp [flush]
    · have hpos := List.length_pos_of_ne_nil hnil
      have hmod := Nat.mod_lt hs.length (by omega : 0 < c)
      rw [frontier_of_ne_nil hc hnil, flush, root_step hc z (by simp; omega),
        parents_append_open (by omega) hs [h] (by simp) (by simp; omega)]
      apply ih (hs.length / c) _ _ _ (length_parents_take (by omega) hs)
      rw [← hk]
      exact Nat.div_lt_self hpos (by omega)

/-- The open groups count the digests: each level counts `c` times the one below. -/
theorem weight_frontier (hc : 2 ≤ c) (hs : List δ) :
    ∀ s, weight c s (frontier c node hs) = s * hs.length := by
  induction hk : hs.length using Nat.strongRecOn generalizing hs with
  | ind k ih =>
    intro s
    by_cases hnil : hs = []
    · subst hnil
      simp [weight, ← hk]
    · have hlt : hs.length / c < k := by
        rw [← hk]
        exact Nat.div_lt_self (List.length_pos_of_ne_nil hnil) (by omega)
      rw [frontier_of_ne_nil hc hnil, weight, length_drop_frontier,
        ih _ hlt _ (length_parents_take (by omega) hs), ← hk, Nat.mul_assoc, ← Nat.mul_add,
        Nat.add_comm, Nat.div_add_mod]

/-- No open group is full. -/
theorem length_lt_of_mem_frontier (hc : 2 ≤ c) (hs : List δ) :
    ∀ p ∈ frontier c node hs, p.length < c := by
  induction hk : hs.length using Nat.strongRecOn generalizing hs with
  | ind k ih =>
    by_cases hnil : hs = []
    · subst hnil; simp
    · have hlt : hs.length / c < k := by
        rw [← hk]
        exact Nat.div_lt_self (List.length_pos_of_ne_nil hnil) (by omega)
      rw [frontier_of_ne_nil hc hnil]
      intro p hp
      rcases List.mem_cons.mp hp with rfl | hp
      · rw [length_drop_frontier]
        exact Nat.mod_lt _ (by omega)
      · exact ih _ hlt _ (length_parents_take (by omega) hs) p hp

/-- `k` levels are enough exactly for fewer than `c ^ k` digests. -/
theorem length_frontier_le_iff (hc : 2 ≤ c) (k : Nat) :
    ∀ hs : List δ, (frontier c node hs).length ≤ k ↔ hs.length < c ^ k := by
  induction k with
  | zero =>
    intro hs
    by_cases hnil : hs = []
    · subst hnil; simp
    · have hpos := List.length_pos_of_ne_nil hnil
      rw [frontier_of_ne_nil hc hnil, List.length_cons, Nat.pow_zero]
      omega
  | succ k ih =>
    intro hs
    by_cases hnil : hs = []
    · subst hnil
      simp only [frontier_nil, List.length_nil, Nat.zero_le, true_iff]
      exact Nat.pow_pos (by omega)
    · rw [frontier_of_ne_nil hc hnil, List.length_cons, Nat.add_le_add_iff_right, ih,
        length_parents_take (by omega), Nat.pow_succ]
      exact Nat.div_lt_iff_lt_mul (by omega)

/-- The open groups are the digits of the number of digests, to the base `c`. -/
theorem length_of_getElem?_frontier (hc : 2 ≤ c) {k : Nat} {g : List δ} :
    ∀ {hs : List δ}, (frontier c node hs)[k]? = some g → g.length = hs.length / c ^ k % c := by
  induction k with
  | zero =>
    intro hs hg
    by_cases hnil : hs = []
    · simp [hnil] at hg
    · rw [frontier_of_ne_nil hc hnil, List.getElem?_cons_zero, Option.some.injEq] at hg
      rw [← hg, length_drop_frontier, Nat.pow_zero, Nat.div_one]
  | succ k ih =>
    intro hs hg
    by_cases hnil : hs = []
    · simp [hnil] at hg
    · rw [frontier_of_ne_nil hc hnil, List.getElem?_cons_succ] at hg
      rw [ih hg, length_parents_take (by omega), Nat.div_div_eq_div_mul, Nat.pow_succ', Nat.mul_comm]

/-! ## Binding -/

/-- Equally long lists with one root are equal, or two different groups that were hashed on the
way have one digest. The shape of the tree depends only on the length, so the two groups are
equally long as well. -/
theorem root_inj (hc : 2 ≤ c) (z : δ) (xs : List δ) :
    ∀ ys : List δ, xs.length = ys.length → root c node z xs = root c node z ys →
      xs = ys ∨ ∃ g ∈ inputs c node xs, ∃ g' ∈ inputs c node ys,
        g ≠ g' ∧ g.length = g'.length ∧ node g = node g' := by
  induction hk : xs.length using Nat.strongRecOn generalizing xs with
  | ind k ih =>
    intro ys hlen hroot
    rcases Nat.lt_or_ge k 2 with hsmall | hbig
    · -- at most one digest: it is its own root
      left
      match xs, ys, hk, hlen with
      | [], [], _, _ => rfl
      | [x], [y], _, _ => simpa using hroot
      | [], _ :: _, hk, hlen => rw [List.length_nil] at hk; simp [← hk] at hlen
      | _ :: _, [], hk, hlen => rw [List.length_cons] at hk; simp [← hk] at hlen
      | [_], _ :: _ :: _, hk, hlen =>
        simp only [List.length_cons, List.length_nil] at hk hlen; omega
      | _ :: _ :: _, _, hk, _ => simp only [List.length_cons] at hk; omega
    · rw [root_step hc z (by omega), root_step hc z (by omega : 2 ≤ ys.length)] at hroot
      rw [inputs_step hc (by omega), inputs_step hc (by omega : 2 ≤ ys.length)]
      have hlt : (parents c node xs).length < k := by
        rw [parents, List.length_map, ← hk]
        exact length_chunks_lt hc (by omega)
      have hplen : (parents c node xs).length = (parents c node ys).length := by
        rw [length_parents (by omega), length_parents (by omega), hk, hlen]
      rcases ih _ hlt _ rfl (parents c node ys) hplen hroot with heq | ⟨g, hg, g', hg', hcol⟩
      · rcases eq_or_of_map_chunks_eq (by omega) node xs ys (by omega) heq with
          hxy | ⟨g, hg, g', hg', hcol⟩
        · exact Or.inl hxy
        · exact Or.inr ⟨g, List.mem_append_left _ hg, g', List.mem_append_left _ hg', hcol⟩
      · exact Or.inr ⟨g, List.mem_append_right _ hg, g', List.mem_append_right _ hg', hcol⟩

end

end CryptPilot.Data
