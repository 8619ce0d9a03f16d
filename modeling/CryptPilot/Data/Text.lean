import Mathlib.Data.List.DropRight
import Mathlib.Data.List.Infix

/-!
# Searching in text

A text is a list of characters of any kind. `find` and `trim` are those of a string library: the
place of the first occurrence of a pattern, and a text without what is blank around it.

A pattern that ends with a mark can only be found where there is a mark (`find_marked`). So looking
for it goes from mark to mark.
-/

namespace CryptPilot.Data.Text

variable {α : Type}

/-! ## Blanks -/

/-- `White_Space` of Unicode. -/
def isWhitespace (c : Char) : Bool :=
  let n := c.toNat
  (9 ≤ n && n ≤ 13) || n = 0x20 || n = 0x85 || n = 0xA0 || n = 0x1680 ||
    (0x2000 ≤ n && n ≤ 0x200A) || n = 0x2028 || n = 0x2029 || n = 0x202F || n = 0x205F || n = 0x3000

/-- A text without what is blank at its ends. -/
def trim (blank : α → Bool) (text : List α) : List α := (text.dropWhile blank).rdropWhile blank

section
variable {blank : α → Bool}

theorem dropWhile_append_of_not {c : α} (hc : blank c = false) (x y : List α) :
    (x ++ c :: y).dropWhile blank = x.dropWhile blank ++ c :: y := by
  induction x with
  | nil => simp [hc]
  | cons a x ih =>
    rw [List.cons_append, List.dropWhile_cons, List.dropWhile_cons, ih]
    split_ifs <;> rfl

theorem rdropWhile_append_of_all {x : List α} (hx : ∀ c ∈ x, blank c = true) (y : List α) :
    (y ++ x).rdropWhile blank = y.rdropWhile blank := by
  induction x using List.reverseRecOn with
  | nil => rw [List.append_nil]
  | append_singleton x c ih =>
    have hc : blank c = true := hx c (by simp)
    rw [← List.append_assoc, List.rdropWhile_concat_pos blank _ c hc]
    exact ih fun a ha => hx a (List.mem_append_left _ ha)

/-- What is taken off are blanks. -/
theorem exists_trim (blank : α → Bool) (text : List α) : ∃ x y,
    (∀ c ∈ x, blank c = true) ∧ (∀ c ∈ y, blank c = true) ∧ text = x ++ trim blank text ++ y := by
  refine ⟨text.takeWhile blank, (text.dropWhile blank).rtakeWhile blank,
    fun c hc => List.mem_takeWhile_imp hc, fun c hc => List.mem_rtakeWhile_imp hc, ?_⟩
  rw [trim, List.append_assoc, List.rdropWhile_append_rtakeWhile, List.takeWhile_append_dropWhile]

theorem trim_append_of_all {x y : List α} (hx : ∀ c ∈ x, blank c = true)
    (hy : ∀ c ∈ y, blank c = true) (text : List α) :
    trim blank (x ++ text ++ y) = trim blank text := by
  have hleft : trim blank (x ++ text ++ y) = trim blank (text ++ y) := by
    rw [List.append_assoc, trim, List.dropWhile_append_of_pos hx]
    rfl
  rw [hleft]
  clear hleft
  induction text with
  | nil =>
    rw [List.nil_append, trim, List.dropWhile_eq_nil_iff.mpr hy]
    rfl
  | cons c text ih =>
    cases hc : blank c with
    | true =>
      rw [List.cons_append, trim, List.dropWhile_cons_of_pos hc, trim,
        List.dropWhile_cons_of_pos hc]
      exact ih
    | false =>
      have hc' : ¬blank c = true := by simp [hc]
      rw [trim, List.cons_append, List.dropWhile_cons_of_neg hc', trim,
        List.dropWhile_cons_of_neg hc', ← List.cons_append, rdropWhile_append_of_all hy]

theorem trim_trim (blank : α → Bool) (text : List α) :
    trim blank (trim blank text) = trim blank text := by
  obtain ⟨x, y, hx, hy, htext⟩ := exists_trim blank text
  conv_rhs => rw [htext, trim_append_of_all hx hy]

theorem trim_eq_self_iff {text : List α} : trim blank text = text ↔
    (∀ c ∈ text.head?, blank c = false) ∧ ∀ c ∈ text.getLast?, blank c = false := by
  have hleft : text.dropWhile blank = text ↔ ∀ c ∈ text.head?, blank c = false := by
    cases text <;> simp [List.dropWhile_eq_self_iff]
  have hright : text.rdropWhile blank = text ↔ ∀ c ∈ text.getLast?, blank c = false := by
    cases text <;> simp [List.rdropWhile_eq_self_iff, List.getLast?_eq_some_getLast]
  rw [← hleft, ← hright]
  refine ⟨fun h => ?_, fun h => by rw [trim, h.1, h.2]⟩
  have hdrop : text.dropWhile blank = text := by
    refine (List.dropWhile_suffix blank).eq_of_length_le ?_
    have hle := (List.rdropWhile_prefix blank (text.dropWhile blank)).length_le
    rwa [show (text.dropWhile blank).rdropWhile blank = text from h] at hle
  rw [trim, hdrop] at h
  exact ⟨hdrop, h⟩

end

/-! ## Where a text begins -/

section
variable [BEq α] [LawfulBEq α]

theorem dropPrefix?_append_self (start rest : List α) :
    (start ++ rest).dropPrefix? start = some rest :=
  List.dropPrefix?_eq_some_iff.mpr ⟨start, rfl, beq_self_eq_true start⟩

theorem dropPrefix?_of_not_begins {start text : List α} (h : ¬start <+: text) :
    text.dropPrefix? start = none := by
  rw [Option.eq_none_iff_forall_ne_some]
  intro rest hrest
  obtain ⟨start', htext, hstart⟩ := List.dropPrefix?_eq_some_iff.mp hrest
  rw [eq_of_beq hstart] at htext
  exact h ⟨rest, htext.symm⟩

end

/-! ## The first occurrence -/

/-- Of two texts up to their first marks, one begins with the other only if they are the same. -/
theorem prefix_marked_iff {mark : α} {x y rest : List α} (hx : mark ∉ x) (hy : mark ∉ y) :
    x ++ [mark] <+: y ++ mark :: rest ↔ x = y := by
  induction x generalizing y with
  | nil =>
    cases y with
    | nil => simp
    | cons c y =>
      have hne : mark ≠ c := fun h => hy (h ▸ List.mem_cons_self)
      simp [hne]
  | cons a x ih =>
    rw [List.mem_cons, not_or] at hx
    cases y with
    | nil => simp [Ne.symm hx.1]
    | cons c y =>
      rw [List.mem_cons, not_or] at hy
      rw [List.cons_append, List.cons_append, List.cons_prefix_cons, ih hx.2 hy.2, List.cons.injEq]

theorem prefix_append_cons_of_not_mem {c : α} {p : List α} (hc : c ∉ p) (x y : List α) :
    p <+: x ++ c :: y ↔ p <+: x := by
  refine ⟨fun h => ?_, fun h => h.trans (List.prefix_append _ _)⟩
  rcases List.prefix_or_prefix_of_prefix h (List.prefix_append x (c :: y)) with h' | ⟨t, rfl⟩
  · exact h'
  · rw [List.prefix_append_right_inj] at h
    cases t with
    | nil => rw [List.append_nil]
    | cons d t =>
      obtain ⟨rfl, -⟩ := List.cons_prefix_cons.mp h
      exact absurd (by simp) hc

/-- A pattern does not reach over a character that can only be its first one. -/
theorem prefix_append_cons_iff {pattern : List α} {c : α} (hc : c ∉ pattern.tail) (a : α)
    (x y : List α) :
    pattern <+: a :: (x ++ c :: y) ↔ pattern <+: a :: x := by
  cases pattern with
  | nil => simp
  | cons p ps =>
    have hc : c ∉ ps := hc
    rw [List.cons_prefix_cons, List.cons_prefix_cons, prefix_append_cons_of_not_mem hc]

variable [DecidableEq α]

/-- Where a pattern occurs first. -/
def find (pattern : List α) : List α → Option Nat
  | [] => if pattern = [] then some 0 else none
  | c :: cs => if pattern <+: c :: cs then some 0 else (find pattern cs).map (· + 1)

/-- **A pattern that ends with a mark** is found at the first mark, or behind it. -/
theorem find_marked {mark : α} {x y rest : List α} (hx : mark ∉ x) (hy : mark ∉ y) :
    find (x ++ [mark]) (y ++ mark :: rest) =
      if x <:+ y then some (y.length - x.length)
      else (find (x ++ [mark]) rest).map (· + (y.length + 1)) := by
  induction y with
  | nil =>
    have hpre : x ++ [mark] <+: mark :: rest ↔ x = [] := prefix_marked_iff hx List.not_mem_nil
    rw [List.nil_append, find]
    simp only [hpre, List.suffix_nil]
    split_ifs with h
    · rw [h]
      rfl
    · rfl
  | cons c y ih =>
    have hpre : x ++ [mark] <+: c :: (y ++ mark :: rest) ↔ x = c :: y := prefix_marked_iff hx hy
    rw [List.mem_cons, not_or] at hy
    rw [List.cons_append, find, ih hy.2]
    simp only [hpre, List.suffix_cons_iff]
    by_cases hwhole : x = c :: y
    · simp [hwhole]
    · by_cases hsuffix : x <:+ y
      · have hle := hsuffix.length_le
        simp only [hwhole, hsuffix, or_true, if_true, if_false, Option.map_some, List.length_cons]
        congr 1
        omega
      · simp only [hwhole, hsuffix, or_self, if_false, Option.map_map, List.length_cons]
        congr 1

/-- It is not found where there is no mark. -/
theorem find_marked_eq_none {mark : α} {x y : List α} (hy : mark ∉ y) :
    find (x ++ [mark]) y = none := by
  induction y with
  | nil => simp [find]
  | cons c y ih =>
    rw [List.mem_cons, not_or] at hy
    have hpre : ¬x ++ [mark] <+: c :: y := by
      intro h
      have hmem : mark ∈ c :: y := h.subset (by simp)
      rcases List.mem_cons.mp hmem with h | h
      · exact hy.1 h
      · exact hy.2 h
    rw [find, if_neg hpre, ih hy.2]
    rfl

/-- What stands behind the first occurrence of a pattern. -/
def behind (pattern text : List α) : Option (List α) :=
  (find pattern text).map fun n => text.drop (n + pattern.length)

theorem behind_marked {mark : α} {x y rest : List α} (hx : mark ∉ x) (hy : mark ∉ y) :
    behind (x ++ [mark]) (y ++ mark :: rest) =
      if x <:+ y then some rest else behind (x ++ [mark]) rest := by
  have hsplit : y ++ mark :: rest = (y ++ [mark]) ++ rest := by simp
  have hlen : (x ++ [mark]).length = x.length + 1 := by simp
  have hdrop (n : Nat) : (y ++ mark :: rest).drop ((y ++ [mark]).length + n) = rest.drop n := by
    rw [hsplit, List.drop_length_add_append]
  rw [behind, find_marked hx hy]
  split_ifs with hsuffix
  · have hle := hsuffix.length_le
    have hn : y.length - x.length + (x ++ [mark]).length = (y ++ [mark]).length + 0 := by
      simp only [hlen, List.length_append, List.length_singleton]
      omega
    rw [Option.map_some, hn, hdrop, List.drop_zero]
  · rw [behind, Option.map_map]
    congr 1
    funext n
    have hn : n + (y.length + 1) + (x ++ [mark]).length =
        (y ++ [mark]).length + (n + (x ++ [mark]).length) := by
      simp only [hlen, List.length_append, List.length_singleton]
      omega
    rw [Function.comp_apply, hn, hdrop]

theorem behind_marked_eq_none {mark : α} {x y : List α} (hy : mark ∉ y) :
    behind (x ++ [mark]) y = none := by
  rw [behind, find_marked_eq_none hy]
  rfl

/-! ## Replacing -/

/-- Replaces occurrences of a pattern, after leaving out some characters. -/
def replaceFrom (pattern new : List α) : Nat → List α → List α
  | _, [] => []
  | n + 1, _ :: cs => replaceFrom pattern new n cs
  | 0, c :: cs =>
    if pattern <+: c :: cs then new ++ replaceFrom pattern new (pattern.length - 1) cs
    else c :: replaceFrom pattern new 0 cs

/-- All occurrences of a pattern, from left to right. The pattern is not empty. -/
def replace (pattern new text : List α) : List α := replaceFrom pattern new 0 text

/-- How often a pattern occurs. -/
def occurrences (pattern : List α) : List α → Nat
  | [] => 0
  | c :: cs => occurrences pattern cs + if pattern <+: c :: cs then 1 else 0

section
variable {pattern new : List α}

theorem replaceFrom_eq_replace (n : Nat) (text : List α) :
    replaceFrom pattern new n text = replace pattern new (text.drop n) := by
  induction n generalizing text with
  | zero => rfl
  | succ n ih =>
    cases text with
    | nil => rfl
    | cons c cs => exact ih cs

@[simp] theorem replace_nil : replace pattern new [] = [] := rfl

theorem replace_of_not_begins {c : α} {cs : List α} (h : ¬pattern <+: c :: cs) :
    replace pattern new (c :: cs) = c :: replace pattern new cs := by
  rw [replace, replaceFrom, if_neg h]
  rfl

theorem replace_append (hpattern : pattern ≠ []) (text : List α) :
    replace pattern new (pattern ++ text) = new ++ replace pattern new text := by
  obtain ⟨c, cs, rfl⟩ := List.exists_cons_of_ne_nil hpattern
  have hprefix : c :: cs <+: c :: (cs ++ text) := List.prefix_append (c :: cs) text
  rw [List.cons_append, replace, replaceFrom, if_pos hprefix, replaceFrom_eq_replace]
  simp

theorem replace_self (hpattern : pattern ≠ []) (text : List α) :
    replace pattern pattern text = text := by
  have hfrom (n : Nat) : replaceFrom pattern pattern n text = text.drop n := by
    induction text generalizing n with
    | nil => cases n <;> rfl
    | cons c cs ih =>
      cases n with
      | succ n => exact ih n
      | zero =>
        rw [replaceFrom]
        split_ifs with h
        · obtain ⟨d, ds, rfl⟩ := List.exists_cons_of_ne_nil hpattern
          obtain ⟨rest, hrest⟩ := h
          obtain ⟨rfl, rfl⟩ := List.cons.inj hrest
          rw [ih]
          simp
        · rw [ih]
          rfl
  exact hfrom 0

/-- The text before a character that can only be the first one of the pattern, and the text from
there on, are replaced separately. -/
theorem replace_append_cons {c : α} (hc : c ∉ pattern.tail) (x y : List α) :
    replace pattern new (x ++ c :: y) = replace pattern new x ++ replace pattern new (c :: y) := by
  have hfrom (n : Nat) (hn : n ≤ x.length) : replaceFrom pattern new n (x ++ c :: y) =
      replaceFrom pattern new n x ++ replace pattern new (c :: y) := by
    induction x generalizing n with
    | nil =>
      obtain rfl : n = 0 := Nat.le_zero.mp hn
      rfl
    | cons a x ih =>
      cases n with
      | succ n => exact ih n (Nat.le_of_succ_le_succ hn)
      | zero =>
        rw [List.cons_append, replaceFrom, replaceFrom]
        simp only [prefix_append_cons_iff hc]
        split_ifs with h
        · have hle : pattern.length - 1 ≤ x.length := by
            have := h.length_le
            rw [List.length_cons] at this
            omega
          rw [ih _ hle, List.append_assoc]
        · rw [ih 0 (Nat.zero_le _), List.cons_append]
  exact hfrom 0 (Nat.zero_le _)

theorem occurrences_append_cons {c : α} (hc : c ∉ pattern.tail) (x y : List α) :
    occurrences pattern (x ++ c :: y) = occurrences pattern x + occurrences pattern (c :: y) := by
  induction x with
  | nil => simp [occurrences]
  | cons a x ih =>
    simp only [List.cons_append, occurrences, ih, prefix_append_cons_iff hc]
    omega

end

end CryptPilot.Data.Text
