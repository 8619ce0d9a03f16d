import Mathlib.Algebra.Order.Ring.Nat
import Mathlib.Data.List.Infix

/-!
# Reading a stream that arrives bit by bit

A channel is the list of what it answers to one read after the other. An answer is a piece of the
stream, and the empty piece is an end of file for now: there is nothing to be read yet. After the
last answer there is nothing any more. A read may ask for less than a piece, then the rest of the
piece is left for the next one.

`readExact` reads until it has as much as it wants, or until there is nothing to be read. In the
second case what it has read is lost. `gaps` says where in the stream that can happen.
-/

namespace CryptPilot.Data.Arrivals

variable {α : Type} {pieces rest : List (List α)} {n : Nat}

/-- Reads `n` elements, in as many reads as needed. -/
def readExact (n : Nat) : List (List α) → Option (List α) × List (List α)
  | [] => if n = 0 then (some [], []) else (none, [])
  | piece :: pieces =>
    if n = 0 then (some [], piece :: pieces)
    else if piece.isEmpty then (none, pieces)
    else if n < piece.length then (some (piece.take n), piece.drop n :: pieces)
    else
      let (got, rest) := readExact (n - piece.length) pieces
      (got.map (piece ++ ·), rest)

/-- The positions in the stream at which nothing can be read for a while. -/
def gaps : List (List α) → List Nat
  | [] => []
  | piece :: pieces =>
    (if piece.isEmpty then [0] else []) ++ (gaps pieces).map (piece.length + ·)

/-- What is left of a channel to be read, and to be answered. -/
def size (pieces : List (List α)) : Nat := pieces.flatten.length + pieces.length

theorem gaps_empty (pieces : List (List α)) : gaps ([] :: pieces) = 0 :: gaps pieces := by
  simp [gaps]

theorem gaps_cons {piece : List α} (h : piece ≠ []) (pieces : List (List α)) :
    gaps (piece :: pieces) = (gaps pieces).map (piece.length + ·) := by
  simp [gaps, h]

/-- A gap is an empty answer. -/
theorem exists_of_mem_gaps {gap : Nat} (h : gap ∈ gaps pieces) :
    ∃ before after, pieces = before ++ [] :: after ∧ gap = before.flatten.length := by
  induction pieces generalizing gap with
  | nil => cases h
  | cons piece pieces ih =>
    rcases List.mem_append.mp h with h | h
    · split_ifs at h with hpiece
      · rw [List.isEmpty_iff.mp hpiece]
        exact ⟨[], pieces, rfl, List.mem_singleton.mp h⟩
      · cases h
    · obtain ⟨gap, hgap, rfl⟩ := List.mem_map.mp h
      obtain ⟨before, after, rfl, rfl⟩ := ih hgap
      exact ⟨piece :: before, after, rfl, by rw [List.flatten_cons, List.length_append]⟩

@[simp] theorem readExact_zero (pieces : List (List α)) : readExact 0 pieces = (some [], pieces) := by
  cases pieces <;> rfl

theorem readExact_empty (hn : n ≠ 0) (pieces : List (List α)) :
    readExact n ([] :: pieces) = (none, pieces) := by
  simp [readExact, hn]

theorem readExact_of_lt {piece : List α} (hn : n ≠ 0) (hpiece : piece ≠ []) (h : n < piece.length)
    (pieces : List (List α)) :
    readExact n (piece :: pieces) = (some (piece.take n), piece.drop n :: pieces) := by
  simp [readExact, hn, hpiece, h]

theorem readExact_of_le {piece : List α} (hn : n ≠ 0) (hpiece : piece ≠ []) (h : piece.length ≤ n)
    (pieces : List (List α)) :
    readExact n (piece :: pieces) =
      ((readExact (n - piece.length) pieces).1.map (piece ++ ·),
        (readExact (n - piece.length) pieces).2) := by
  simp [readExact, hn, hpiece, Nat.not_lt.mpr h]

/-- What a read can do with the first answer. -/
theorem readExact_induction {P : Nat → List (List α) → Prop} (zero : ∀ pieces, P 0 pieces)
    (nil : ∀ n, n ≠ 0 → P n []) (empty : ∀ n pieces, n ≠ 0 → P n ([] :: pieces))
    (lt : ∀ n piece pieces, n ≠ 0 → piece ≠ [] → n < piece.length → P n (piece :: pieces))
    (le : ∀ n piece pieces, n ≠ 0 → piece ≠ [] → piece.length ≤ n →
      P (n - piece.length) pieces → P n (piece :: pieces))
    (n : Nat) (pieces : List (List α)) : P n pieces := by
  induction pieces generalizing n with
  | nil =>
    by_cases hn : n = 0
    · exact hn ▸ zero []
    · exact nil n hn
  | cons piece pieces ih =>
    by_cases hn : n = 0
    · exact hn ▸ zero (piece :: pieces)
    · by_cases hpiece : piece = []
      · exact hpiece ▸ empty n pieces hn
      · rcases Nat.lt_or_ge n piece.length with h | h
        · exact lt n piece pieces hn hpiece h
        · exact le n piece pieces hn hpiece h (ih _)

/-- Nothing is read twice, and nothing is left out. -/
theorem append_flatten_of_readExact {got : List α} (h : readExact n pieces = (some got, rest)) :
    got.length = n ∧ got ++ rest.flatten = pieces.flatten := by
  induction n, pieces using readExact_induction generalizing got with
  | zero pieces =>
    rw [readExact_zero] at h
    cases h
    simp
  | nil n hn => simp [readExact, hn] at h
  | empty n pieces hn => simp [readExact_empty hn] at h
  | lt n piece pieces hn hpiece hlt =>
    rw [readExact_of_lt hn hpiece hlt] at h
    cases h
    refine ⟨by simp [Nat.min_eq_left hlt.le], ?_⟩
    rw [List.flatten_cons, List.flatten_cons, ← List.append_assoc, List.take_append_drop]
  | le n piece pieces hn hpiece hle ih =>
    rw [readExact_of_le hn hpiece hle] at h
    obtain ⟨hmap, rfl⟩ := Prod.mk.inj h
    obtain ⟨got, hgot, rfl⟩ := Option.map_eq_some_iff.mp hmap
    obtain ⟨hlen, happend⟩ := ih (Prod.ext hgot rfl)
    rw [List.length_append, hlen, List.append_assoc, happend, List.flatten_cons]
    exact ⟨by omega, rfl⟩

/-- At a gap, what was read before it is lost. -/
theorem exists_append_flatten_of_readExact (h : readExact n pieces = (none, rest)) :
    ∃ lost, lost.length < n ∧ lost ++ rest.flatten = pieces.flatten := by
  induction n, pieces using readExact_induction with
  | zero pieces =>
    rw [readExact_zero] at h
    cases h
  | nil n hn =>
    simp only [readExact, if_neg hn] at h
    cases h
    exact ⟨[], Nat.pos_of_ne_zero hn, rfl⟩
  | empty n pieces hn =>
    rw [readExact_empty hn] at h
    cases h
    exact ⟨[], Nat.pos_of_ne_zero hn, rfl⟩
  | lt n piece pieces hn hpiece hlt =>
    rw [readExact_of_lt hn hpiece hlt] at h
    cases h
  | le n piece pieces hn hpiece hle ih =>
    rw [readExact_of_le hn hpiece hle] at h
    obtain ⟨hgot, rfl⟩ := Prod.mk.inj h
    obtain ⟨lost, hlen, happend⟩ := ih (Prod.ext (Option.map_eq_none_iff.mp hgot) rfl)
    refine ⟨piece ++ lost, ?_, by rw [List.append_assoc, happend, List.flatten_cons]⟩
    rw [List.length_append]
    omega

/-- Something is lost at a gap unless the channel begins with it. -/
theorem length_flatten_lt_of_readExact {piece : List α} (hpiece : piece ≠ [])
    (h : readExact n (piece :: pieces) = (none, rest)) :
    rest.flatten.length < (piece :: pieces).flatten.length := by
  have hn : n ≠ 0 := by
    rintro rfl
    rw [readExact_zero] at h
    cases h
  have hpos := List.length_pos_of_ne_nil hpiece
  rw [List.flatten_cons, List.length_append]
  rcases Nat.lt_or_ge n piece.length with hlt | hle
  · rw [readExact_of_lt hn hpiece hlt] at h
    cases h
  · rw [readExact_of_le hn hpiece hle] at h
    obtain ⟨hmap, rfl⟩ := Prod.mk.inj h
    obtain ⟨lost, -, hlost⟩ := exists_append_flatten_of_readExact
      (show readExact (n - piece.length) pieces = (none, (readExact (n - piece.length) pieces).2)
        from Prod.ext (Option.map_eq_none_iff.mp hmap) rfl)
    rw [← hlost, List.length_append]
    omega

/-- What is left are answers that were there before, but for the rest of one. -/
theorem exists_append_of_readExact {before after : List (List α)}
    (h : (readExact n pieces).2 = before ++ [] :: after) :
    ∃ before', pieces = before' ++ [] :: after := by
  induction n, pieces using readExact_induction generalizing before with
  | zero pieces =>
    rw [readExact_zero] at h
    exact ⟨before, h⟩
  | nil n hn => simp [readExact, hn] at h
  | empty n pieces hn =>
    rw [readExact_empty hn] at h
    exact ⟨[] :: before, by rw [List.cons_append, ← h]⟩
  | lt n piece pieces hn hpiece hlt =>
    rw [readExact_of_lt hn hpiece hlt] at h
    cases before with
    | nil =>
      have hdrop : piece.drop n = [] := (List.cons.inj h).1
      rw [List.drop_eq_nil_iff] at hdrop
      omega
    | cons first before =>
      have hpieces : pieces = before ++ [] :: after := (List.cons.inj h).2
      exact ⟨piece :: before, by rw [hpieces, List.cons_append]⟩
  | le n piece pieces hn hpiece hle ih =>
    rw [readExact_of_le hn hpiece hle] at h
    obtain ⟨before', hbefore⟩ := ih h
    exact ⟨piece :: before', by rw [hbefore, List.cons_append]⟩

theorem size_cons (piece : List α) (pieces : List (List α)) :
    size (piece :: pieces) = piece.length + size pieces + 1 := by
  simp only [size, List.flatten_cons, List.length_append, List.length_cons]
  omega

theorem size_readExact_le (n : Nat) (pieces : List (List α)) :
    size (readExact n pieces).2 ≤ size pieces := by
  induction n, pieces using readExact_induction with
  | zero pieces => rw [readExact_zero]
  | nil n hn => simp [readExact, hn]
  | empty n pieces hn =>
    rw [readExact_empty hn, size_cons]
    dsimp only
    omega
  | lt n piece pieces hn hpiece hlt =>
    rw [readExact_of_lt hn hpiece hlt, size_cons, size_cons, List.length_drop]
    omega
  | le n piece pieces hn hpiece hle ih =>
    rw [readExact_of_le hn hpiece hle, size_cons]
    dsimp only
    omega

/-- A read leaves less to be done, if there is something to be done. -/
theorem size_readExact_lt (hn : n ≠ 0) (hpieces : pieces ≠ []) :
    size (readExact n pieces).2 < size pieces := by
  obtain ⟨piece, pieces, rfl⟩ := List.exists_cons_of_ne_nil hpieces
  rw [size_cons]
  by_cases hpiece : piece = []
  · rw [hpiece, readExact_empty hn]
    dsimp only
    omega
  · rcases Nat.lt_or_ge n piece.length with h | h
    · rw [readExact_of_lt hn hpiece h, size_cons, List.length_drop]
      omega
    · have hle := size_readExact_le (n - piece.length) pieces
      rw [readExact_of_le hn hpiece h]
      dsimp only
      omega

/-- **With no gap before it,** what is wanted is read, and the gaps behind it stay where they are. -/
theorem readExact_of_forall_le (hn : n ≤ pieces.flatten.length)
    (hgaps : ∀ gap ∈ gaps pieces, n ≤ gap) :
    ∃ rest, readExact n pieces = (some (pieces.flatten.take n), rest) ∧
      rest.flatten = pieces.flatten.drop n ∧ gaps pieces = (gaps rest).map (n + ·) := by
  induction n, pieces using readExact_induction with
  | zero pieces => exact ⟨pieces, by simp, rfl, by simp⟩
  | nil n hn' => exact absurd (Nat.le_zero.mp hn) hn'
  | empty n pieces hn' =>
    have hzero := hgaps 0 (by simp [gaps_empty])
    omega
  | lt n piece pieces hn' hpiece hlt =>
    have hdrop : piece.drop n ≠ [] := by simpa using hlt
    refine ⟨piece.drop n :: pieces, ?_, ?_, ?_⟩
    · rw [readExact_of_lt hn' hpiece hlt, List.flatten_cons, List.take_append_of_le_length hlt.le]
    · rw [List.flatten_cons, List.flatten_cons, List.drop_append_of_le_length hlt.le]
    · rw [gaps_cons hpiece, gaps_cons hdrop, List.map_map, List.length_drop]
      congr 1
      funext gap
      simp only [Function.comp_apply]
      omega
  | le n piece pieces hn' hpiece hle ih =>
    rw [List.flatten_cons, List.length_append] at hn
    rw [gaps_cons hpiece, List.forall_mem_map] at hgaps
    obtain ⟨rest, hread, hflatten, hrest⟩ := ih (by omega) fun gap hgap => by
      have := hgaps gap hgap
      omega
    have hsplit : n = piece.length + (n - piece.length) := by omega
    refine ⟨rest, ?_, ?_, ?_⟩
    · rw [readExact_of_le hn' hpiece hle, hread, Option.map_some, List.flatten_cons, hsplit,
        List.take_length_add_append, ← hsplit]
    · rw [hflatten, List.flatten_cons, hsplit, List.drop_length_add_append, ← hsplit]
    · rw [gaps_cons hpiece, hrest, List.map_map]
      congr 1
      funext gap
      simp only [Function.comp_apply]
      omega

/-- With a gap before its end, nothing is read. -/
theorem readExact_of_mem_gaps {gap : Nat} (hgap : gap ∈ gaps pieces) (h : gap < n) :
    (readExact n pieces).1 = none := by
  induction n, pieces using readExact_induction generalizing gap with
  | zero pieces => cases h
  | nil n hn => cases hgap
  | empty n pieces hn => rw [readExact_empty hn]
  | lt n piece pieces hn hpiece hlt =>
    rw [gaps_cons hpiece] at hgap
    obtain ⟨gap, -, rfl⟩ := List.mem_map.mp hgap
    omega
  | le n piece pieces hn hpiece hle ih =>
    rw [gaps_cons hpiece] at hgap
    obtain ⟨gap, hmem, rfl⟩ := List.mem_map.mp hgap
    have hlt : gap < n - piece.length := by omega
    rw [readExact_of_le hn hpiece hle, ih hmem hlt]
    rfl

end CryptPilot.Data.Arrivals
