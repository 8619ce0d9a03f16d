import Mathlib.Data.List.Basic
import Mathlib.Tactic.Ring
import Mathlib.Tactic.Linarith

/-!
# Cutting a list into pieces of a fixed length

`chunks n xs` cuts `xs` into consecutive pieces of length `n`; only the last piece may be shorter,
and there is no empty piece. This is the iteration order of a slice's `chunks`, and it is used
twice below: for cutting bytes into blocks and for grouping digests. Nothing here is about either.

The definition recurses on a length bound, so that it computes on closed terms. The two facts
everything else rests on are `chunks_of_ne_nil` (peel one piece off the front) and
`chunks_append` (a cut on a piece boundary splits the pieces).
-/

namespace CryptPilot.Data

variable {α β : Type*}

/-- The recursion of `chunks`, on a bound for the number of elements left. -/
def chunksAux (n : Nat) : Nat → List α → List (List α)
  | _, [] => []
  | 0, _ :: _ => []
  | k + 1, x :: xs => (x :: xs).take n :: chunksAux n k ((x :: xs).drop n)

/-- Consecutive pieces of length `n`, the last one possibly shorter. -/
def chunks (n : Nat) (xs : List α) : List (List α) := chunksAux n xs.length xs

/-! ## Unfolding -/

/-- Any large enough bound gives the same pieces. -/
theorem chunksAux_eq {n : Nat} (hn : 0 < n) :
    ∀ (k : Nat) (xs : List α), xs.length ≤ k → chunksAux n k xs = chunks n xs := by
  intro k
  induction k using Nat.strongRecOn with
  | ind k ih =>
    intro xs hk
    cases xs with
    | nil => cases k <;> rfl
    | cons x xs =>
      cases k with
      | zero => simp at hk
      | succ k =>
        simp only [List.length_cons] at hk
        have hdrop : ((x :: xs).drop n).length ≤ xs.length := by
          simp only [List.length_drop, List.length_cons]; omega
        show (x :: xs).take n :: chunksAux n k ((x :: xs).drop n) =
          (x :: xs).take n :: chunksAux n xs.length ((x :: xs).drop n)
        rw [ih k (by omega) _ (by omega)]
        rcases Nat.lt_or_ge xs.length (k + 1) with hlt | hge
        · rw [ih xs.length hlt _ hdrop]
        · omega

@[simp] theorem chunks_nil (n : Nat) : chunks n ([] : List α) = [] := rfl

/-- The first piece, and the pieces of the rest. -/
theorem chunks_of_ne_nil {n : Nat} (hn : 0 < n) {xs : List α} (h : xs ≠ []) :
    chunks n xs = xs.take n :: chunks n (xs.drop n) := by
  cases xs with
  | nil => exact absurd rfl h
  | cons x xs =>
    show (x :: xs).take n :: chunksAux n xs.length ((x :: xs).drop n) = _
    rw [chunksAux_eq hn]
    simp only [List.length_drop, List.length_cons]
    omega

/-- A non-empty list that fits in one piece is that piece. -/
theorem chunks_of_length_le {n : Nat} {xs : List α} (h : xs ≠ []) (hle : xs.length ≤ n) :
    chunks n xs = [xs] := by
  have hn : 0 < n := Nat.lt_of_lt_of_le (List.length_pos_of_ne_nil h) hle
  rw [chunks_of_ne_nil hn h, List.take_of_length_le hle, List.drop_eq_nil_of_le hle, chunks_nil]

/-- Induction along the pieces: the empty list, then one piece in front. -/
theorem chunks_induction {n : Nat} (hn : 0 < n) {motive : List α → Prop}
    (nil : motive [])
    (step : ∀ xs : List α, xs ≠ [] → motive (xs.drop n) → motive xs) (xs : List α) :
    motive xs := by
  induction hk : xs.length using Nat.strongRecOn generalizing xs with
  | ind k ih =>
    by_cases h : xs = []
    · rw [h]; exact nil
    · have hpos := List.length_pos_of_ne_nil h
      apply step xs h
      apply ih (xs.drop n).length _ _ rfl
      rw [List.length_drop]; omega

/-! ## Lengths and contents -/

theorem length_le_of_mem_chunks {n : Nat} (hn : 0 < n) (xs : List α) :
    ∀ g ∈ chunks n xs, g.length ≤ n := by
  induction xs using chunks_induction hn with
  | nil => simp
  | step xs h ih =>
    rw [chunks_of_ne_nil hn h]
    intro g hg
    rcases List.mem_cons.mp hg with rfl | hg
    · exact List.length_take_le n xs
    · exact ih g hg

theorem ne_nil_of_mem_chunks {n : Nat} (hn : 0 < n) (xs : List α) :
    ∀ g ∈ chunks n xs, g ≠ [] := by
  induction xs using chunks_induction hn with
  | nil => simp
  | step xs h ih =>
    rw [chunks_of_ne_nil hn h]
    intro g hg
    rcases List.mem_cons.mp hg with rfl | hg
    · intro htake
      have hpos := List.length_pos_of_ne_nil h
      have hlen := congrArg List.length htake
      simp only [List.length_take, List.length_nil] at hlen
      omega
    · exact ih g hg

/-- There are `⌈|xs| / n⌉` pieces. -/
theorem length_chunks {n : Nat} (hn : 0 < n) (xs : List α) :
    (chunks n xs).length = (xs.length + n - 1) / n := by
  induction xs using chunks_induction hn with
  | nil =>
    rw [chunks_nil, List.length_nil, List.length_nil, Nat.zero_add]
    exact (Nat.div_eq_of_lt (by omega)).symm
  | step xs h ih =>
    have hpos := List.length_pos_of_ne_nil h
    rw [chunks_of_ne_nil hn h, List.length_cons, ih, List.length_drop]
    rcases Nat.lt_or_ge xs.length n with hlt | hge
    · rw [show xs.length - n + n - 1 = n - 1 by omega, Nat.div_eq_of_lt (by omega),
        show xs.length + n - 1 = n + (xs.length - 1) by omega, Nat.add_div_left _ hn,
        Nat.div_eq_of_lt (by omega)]
    · rw [show xs.length + n - 1 = n + (xs.length - n + n - 1) by omega, Nat.add_div_left _ hn]

theorem length_chunks_le_iff {n : Nat} (hn : 0 < n) {xs : List α} {k : Nat} :
    (chunks n xs).length ≤ n ^ k ↔ xs.length ≤ n ^ (k + 1) := by
  have hpow : n ^ (k + 1) = n ^ k * n := Nat.pow_succ n k
  rw [length_chunks hn, ← Nat.lt_succ_iff, Nat.div_lt_iff_lt_mul hn, Nat.succ_mul]
  omega

/-- Cutting into pieces of at least two elements shortens a list of at least two elements. -/
theorem length_chunks_lt {n : Nat} (hn : 2 ≤ n) {xs : List α} (h : 2 ≤ xs.length) :
    (chunks n xs).length < xs.length := by
  rw [length_chunks (by omega)]
  apply (Nat.div_lt_iff_lt_mul (by omega)).mpr
  have hmul : n + (xs.length - 1) * 2 ≤ n + (xs.length - 1) * n :=
    Nat.add_le_add_left (Nat.mul_le_mul_left _ hn) n
  have hsucc : n + (xs.length - 1) * n = xs.length * n := by
    obtain ⟨m, hm⟩ : ∃ m, xs.length = m + 1 := ⟨xs.length - 1, by omega⟩
    rw [hm, Nat.add_sub_cancel, Nat.succ_mul, Nat.add_comm]
  omega

/-- The `i`-th piece. -/
theorem getElem?_chunks {n : Nat} (hn : 0 < n) (xs : List α) :
    ∀ i, i * n < xs.length → (chunks n xs)[i]? = some ((xs.drop (i * n)).take n) := by
  induction xs using chunks_induction hn with
  | nil => intro i hi; simp at hi
  | step xs h ih =>
    intro i hi
    rw [chunks_of_ne_nil hn h]
    cases i with
    | zero => simp
    | succ i =>
      rw [Nat.succ_mul] at hi
      rw [List.getElem?_cons_succ, ih i (by rw [List.length_drop]; omega), List.drop_drop,
        Nat.succ_mul, Nat.add_comm]

/-- Past the last piece there is nothing. -/
theorem getElem?_chunks_none {n : Nat} (hn : 0 < n) (xs : List α) {i : Nat}
    (h : xs.length ≤ i * n) : (chunks n xs)[i]? = none := by
  rw [List.getElem?_eq_none_iff, length_chunks hn]
  apply Nat.le_of_lt_succ
  apply (Nat.div_lt_iff_lt_mul hn).mpr
  rw [Nat.succ_mul]
  omega

/-! ## Appending on a piece boundary -/

/-- Cutting commutes with appending when the left part consists of whole pieces. -/
theorem chunks_append {n : Nat} (hn : 0 < n) (ys : List α) (xs : List α) :
    n ∣ xs.length → chunks n (xs ++ ys) = chunks n xs ++ chunks n ys := by
  induction xs using chunks_induction hn with
  | nil => intro _; simp
  | step xs h ih =>
    intro hdvd
    have hle : n ≤ xs.length := Nat.le_of_dvd (List.length_pos_of_ne_nil h) hdvd
    have hne : xs ++ ys ≠ [] := by simp [h]
    rw [chunks_of_ne_nil hn hne, chunks_of_ne_nil hn h, List.take_append_of_le_length hle,
      List.drop_append_of_le_length hle, ih, List.cons_append]
    rw [List.length_drop]
    exact Nat.dvd_sub hdvd (Nat.dvd_refl n)

/-- The pieces put together again. -/
theorem flatten_chunks {n : Nat} (hn : 0 < n) (xs : List α) : (chunks n xs).flatten = xs := by
  induction xs using chunks_induction hn with
  | nil => rfl
  | step xs h ih => rw [chunks_of_ne_nil hn h, List.flatten_cons, ih, List.take_append_drop]

/-- Pieces of one length that were joined are cut again. -/
theorem chunks_flatten {n : Nat} (hn : 0 < n) {pieces : List (List α)}
    (h : ∀ piece ∈ pieces, piece.length = n) : chunks n pieces.flatten = pieces := by
  induction pieces with
  | nil => rfl
  | cons piece pieces ih =>
    have hlen := h piece List.mem_cons_self
    have hne : piece ≠ [] := List.ne_nil_of_length_pos (by omega)
    rw [List.flatten_cons, chunks_append hn _ _ (by rw [hlen]),
      chunks_of_length_le hne (by omega), ih fun p hp => h p (List.mem_cons_of_mem _ hp)]
    rfl

/-- Equally long lists are cut at the same places, so a map that identifies their pieces
identifies the lists, or identifies two different pieces of the same length. -/
theorem eq_or_of_map_chunks_eq {n : Nat} (hn : 0 < n) (f : List α → β) (xs : List α) :
    ∀ ys : List α, xs.length = ys.length →
      (chunks n xs).map f = (chunks n ys).map f →
      xs = ys ∨ ∃ g ∈ chunks n xs, ∃ g' ∈ chunks n ys,
        g ≠ g' ∧ g.length = g'.length ∧ f g = f g' := by
  induction xs using chunks_induction hn with
  | nil =>
    intro ys hlen _
    exact Or.inl (List.length_eq_zero_iff.mp hlen.symm).symm
  | step xs h ih =>
    intro ys hlen hmap
    have hy : ys ≠ [] := by
      intro hy
      rw [hy] at hlen
      exact h (List.length_eq_zero_iff.mp hlen)
    rw [chunks_of_ne_nil hn h, chunks_of_ne_nil hn hy] at hmap ⊢
    simp only [List.map_cons, List.cons.injEq] at hmap
    by_cases hhead : xs.take n = ys.take n
    · -- the first pieces agree: the difference, if any, is further on
      rcases ih (ys.drop n) (by simp [hlen]) hmap.2 with heq | ⟨g, hg, g', hg', hne, hl, hf⟩
      · left
        rw [← List.take_append_drop n xs, ← List.take_append_drop n ys, hhead, heq]
      · exact Or.inr ⟨g, List.mem_cons_of_mem _ hg, g', List.mem_cons_of_mem _ hg', hne, hl, hf⟩
    · exact Or.inr ⟨xs.take n, List.mem_cons_self, ys.take n, List.mem_cons_self, hhead,
        by simp [hlen], hmap.1⟩

/-! ## Slices -/

/-- The elements from index `lo` up to, not including, index `hi`. -/
def slice (lo hi : Nat) (xs : List α) : List α := (xs.take hi).drop lo

theorem slice_eq_nil {lo hi : Nat} (h : hi ≤ lo) (xs : List α) : slice lo hi xs = [] :=
  List.drop_eq_nil_of_le (Nat.le_trans (List.length_take_le _ _) h)

theorem slice_append {a b c : Nat} (hab : a ≤ b) (hbc : b ≤ c) (xs : List α) :
    slice a b xs ++ slice b c xs = slice a c xs := by
  obtain ⟨k, rfl⟩ := Nat.exists_eq_add_of_le hab
  have htake : xs.take (a + k) = (xs.take c).take (a + k) := by
    rw [List.take_take, Nat.min_eq_left hbc]
  rw [slice, slice, slice, htake, List.drop_take, Nat.add_sub_cancel_left, ← List.drop_drop,
    List.take_append_drop]

/-- A slice that ends past the end of the list. -/
theorem slice_min_length (lo hi : Nat) (xs : List α) :
    slice lo (min hi xs.length) xs = slice lo hi xs := by
  rw [slice, slice, ← List.take_take, List.take_length]

/-- A slice inside one piece. -/
theorem slice_piece {n i lo hi : Nat} (hlo : i * n ≤ lo) (hhi : hi ≤ i * n + n) (xs : List α) :
    slice (lo - i * n) (hi - i * n) ((xs.drop (i * n)).take n) = slice lo hi xs := by
  rw [slice, slice, List.take_take, Nat.min_eq_left (by omega), ← List.drop_take, List.drop_drop,
    Nat.add_sub_of_le hlo]

/-- Going through the pieces that overlap a range, one piece further. -/
theorem slice_step {n i lo hi : Nat} (hi_lt : i * n < hi) (xs : List α) :
    slice lo (min hi (i * n)) xs ++ slice (max lo (i * n)) (min hi (i * n + n)) xs =
      slice lo (min hi (i * n + n)) xs := by
  rcases Nat.le_total (i * n) lo with hle | hle
  · rw [slice_eq_nil (by omega), List.nil_append, Nat.max_eq_left hle]
  · rw [Nat.max_eq_right hle, Nat.min_eq_right (Nat.le_of_lt hi_lt)]
    exact slice_append hle (by omega) xs

end CryptPilot.Data
