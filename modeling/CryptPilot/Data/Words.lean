import CryptPilot.Data.Text

/-!
# Lines, words and blanks

`words` are the parts of a text between blanks, `unwords` puts them together again with one blank
between two of them. `squeeze` is one pass that makes one blank out of two, so it does not get far
where there are three.

`trim_squeeze_iff` says when one such pass, with what is blank at the ends taken off, gives the
words of a text with one blank between them.
-/

namespace CryptPilot.Data.Text

variable {α : Type}

/-! ## Lines -/

/-- The lines of a text, the first of which has begun. A line feed ends a line, with a carriage
return before it; there is no empty line at the end. -/
def linesFrom (line : List Char) : List Char → List (List Char)
  | [] => if line.isEmpty then [] else [line]
  | c :: cs =>
    if c = '\n' then
      (if line.getLast? = some '\r' then line.dropLast else line) :: linesFrom [] cs
    else linesFrom (line ++ [c]) cs

def lines (text : List Char) : List (List Char) := linesFrom [] text

/-! ## Words -/

/-- The words of a text, the first of which has begun. -/
def wordsFrom (blank : α → Bool) (word : List α) : List α → List (List α)
  | [] => if word.isEmpty then [] else [word]
  | c :: cs =>
    if blank c then
      if word.isEmpty then wordsFrom blank [] cs else word :: wordsFrom blank [] cs
    else wordsFrom blank (word ++ [c]) cs

def words (blank : α → Bool) (text : List α) : List (List α) := wordsFrom blank [] text

/-- Words with one blank between them. -/
def unwords (space : α) (ws : List (List α)) : List α := [space].intercalate ws

section
variable {blank : α → Bool} {word : List α} {c : α}

theorem wordsFrom_of_blank (hc : blank c = true) (cs : List α) :
    wordsFrom blank word (c :: cs) =
      if word.isEmpty then words blank cs else word :: words blank cs := by
  rw [wordsFrom, if_pos hc]
  rfl

theorem wordsFrom_of_not_blank (hc : blank c = false) (cs : List α) :
    wordsFrom blank word (c :: cs) = wordsFrom blank (word ++ [c]) cs := by
  rw [wordsFrom, hc]
  rfl

theorem words_of_blank (hc : blank c = true) (cs : List α) :
    words blank (c :: cs) = words blank cs :=
  wordsFrom_of_blank hc cs

/-- Words are not empty, and have no blanks. -/
theorem mem_wordsFrom {text w : List α} (hword : ∀ c ∈ word, blank c = false)
    (hw : w ∈ wordsFrom blank word text) : w ≠ [] ∧ ∀ c ∈ w, blank c = false := by
  induction text generalizing word with
  | nil =>
    cases word with
    | nil => cases hw
    | cons d word =>
      obtain rfl : w = d :: word := by simpa [wordsFrom] using hw
      exact ⟨List.cons_ne_nil _ _, hword⟩
  | cons d text ih =>
    cases hd : blank d with
    | true =>
      rw [wordsFrom_of_blank hd] at hw
      cases word with
      | nil => exact ih (by simp) hw
      | cons e word =>
        rcases List.mem_cons.mp hw with rfl | hw
        · exact ⟨List.cons_ne_nil _ _, hword⟩
        · exact ih (by simp) hw
    | false =>
      rw [wordsFrom_of_not_blank hd] at hw
      refine ih (fun c hc => ?_) hw
      rcases List.mem_append.mp hc with hc | hc
      · exact hword c hc
      · rw [List.mem_singleton.mp hc]
        exact hd

theorem words_append_of_all {x : List α} (hx : ∀ c ∈ x, blank c = true) (text : List α) :
    words blank (x ++ text) = words blank text := by
  induction x with
  | nil => rfl
  | cons c x ih =>
    rw [List.forall_mem_cons] at hx
    rw [List.cons_append, words_of_blank hx.1, ih hx.2]

theorem wordsFrom_append_of_all {y : List α} (hy : ∀ c ∈ y, blank c = true) (word text : List α) :
    wordsFrom blank word (text ++ y) = wordsFrom blank word text := by
  induction text generalizing word with
  | nil =>
    cases y with
    | nil => rfl
    | cons c y =>
      rw [List.forall_mem_cons] at hy
      have hnil : words blank y = [] := by
        rw [← List.append_nil y, words_append_of_all hy.2]
        rfl
      rw [List.nil_append, wordsFrom_of_blank hy.1, hnil]
      rfl
  | cons c text ih => simp only [List.cons_append, wordsFrom, ih]

/-- A blank ends a word. -/
theorem wordsFrom_append_blank (hc : blank c = true) (word text rest : List α) :
    wordsFrom blank word (text ++ c :: rest) = wordsFrom blank word text ++ words blank rest := by
  induction text generalizing word with
  | nil =>
    rw [List.nil_append, wordsFrom_of_blank hc]
    cases word with
    | nil => rfl
    | cons d word => rfl
  | cons d text ih =>
    cases hd : blank d with
    | true =>
      rw [List.cons_append, wordsFrom_of_blank hd, wordsFrom_of_blank hd, words, ih]
      cases word with
      | nil => rfl
      | cons e word => rfl
    | false => rw [List.cons_append, wordsFrom_of_not_blank hd, wordsFrom_of_not_blank hd, ih]

/-- Blanks around a text do not change its words. -/
theorem words_trim (text : List α) : words blank (trim blank text) = words blank text := by
  obtain ⟨x, y, hx, hy, htext⟩ := exists_trim blank text
  conv_rhs => rw [htext, List.append_assoc, words_append_of_all hx, words,
    wordsFrom_append_of_all hy]
  rfl

theorem wordsFrom_append_word {w : List α} (hw : ∀ c ∈ w, blank c = false) (word text : List α) :
    wordsFrom blank word (w ++ text) = wordsFrom blank (word ++ w) text := by
  induction w generalizing word with
  | nil => simp
  | cons c w ih =>
    rw [List.forall_mem_cons] at hw
    rw [List.cons_append, wordsFrom_of_not_blank hw.1, ih hw.2, List.append_assoc,
      List.singleton_append]

end

/-! ## Words that are put together -/

section
variable {space : α}

theorem unwords_singleton (w : List α) : unwords space [w] = w := List.intercalate_singleton

theorem unwords_cons_of_ne_nil (w : List α) {ws : List (List α)} (h : ws ≠ []) :
    unwords space (w :: ws) = w ++ space :: unwords space ws := by
  rw [unwords, List.intercalate_cons_of_ne_nil h, List.append_assoc]
  rfl

/-- Words begin and end with characters that are not blank. -/
theorem ends_unwords (space : α) {blank : α → Bool} {ws : List (List α)}
    (hws : ∀ w ∈ ws, w ≠ [] ∧ ∀ c ∈ w, blank c = false) (hne : ws ≠ []) :
    (∃ c, (unwords space ws).head? = some c ∧ blank c = false) ∧
      ∃ c, (unwords space ws).getLast? = some c ∧ blank c = false := by
  induction ws with
  | nil => exact absurd rfl hne
  | cons w ws ih =>
    rw [List.forall_mem_cons] at hws
    obtain ⟨⟨hw, hblank⟩, hws⟩ := hws
    have hhead (rest : List α) : (w ++ rest).head? = some (w.head hw) := by
      rw [List.head?_append, List.head?_eq_some_head hw]
      rfl
    cases ws with
    | nil =>
      refine ⟨⟨w.head hw, ?_, hblank _ (List.head_mem hw)⟩,
        w.getLast hw, ?_, hblank _ (List.getLast_mem hw)⟩
      · rw [unwords_singleton, List.head?_eq_some_head hw]
      · rw [unwords_singleton, List.getLast?_eq_some_getLast hw]
    | cons v ws =>
      obtain ⟨-, c, hlast, hc⟩ := ih hws (List.cons_ne_nil v ws)
      rw [unwords_cons_of_ne_nil w (List.cons_ne_nil v ws)]
      refine ⟨⟨w.head hw, hhead _, hblank _ (List.head_mem hw)⟩, c, ?_, hc⟩
      rw [List.getLast?_append, List.getLast?_cons, hlast]
      rfl

theorem not_mem_unwords {c : α} (hc : c ≠ space) {ws : List (List α)} (hws : ∀ w ∈ ws, c ∉ w) :
    c ∉ unwords space ws := by
  induction ws with
  | nil => exact List.not_mem_nil
  | cons w ws ih =>
    rw [List.forall_mem_cons] at hws
    by_cases hnil : ws = []
    · rw [hnil, unwords_singleton]
      exact hws.1
    · rw [unwords_cons_of_ne_nil w hnil]
      simp [hws.1, hc, ih hws.2]

theorem words_unwords {blank : α → Bool} (hblank : blank space = true) {ws : List (List α)}
    (hws : ∀ w ∈ ws, w ≠ [] ∧ ∀ c ∈ w, blank c = false) :
    words blank (unwords space ws) = ws := by
  induction ws with
  | nil => rfl
  | cons w ws ih =>
    rw [List.forall_mem_cons] at hws
    obtain ⟨⟨hw, hspace⟩, hws⟩ := hws
    have hempty : w.isEmpty = false := by simpa using hw
    by_cases hnil : ws = []
    · rw [hnil, unwords_singleton, words, ← List.append_nil w, wordsFrom_append_word hspace]
      simp [wordsFrom, hempty]
    · rw [unwords_cons_of_ne_nil w hnil, words, wordsFrom_append_word hspace,
        wordsFrom_of_blank hblank, ih hws, List.nil_append, hempty]
      rfl

end

/-- What stands between a word and the words after it. -/
def gap (space : α) (word : List α) (ws : List (List α)) : List α :=
  if word.isEmpty || ws.isEmpty then [] else [space]

section
variable [DecidableEq α] {space : α} {word text : List α}

theorem unwords_wordsFrom_cons_space (word text : List α) :
    unwords space (wordsFrom (· = space) word (space :: text)) =
      word ++ (gap space word (words (· = space) text) ++
        unwords space (words (· = space) text)) := by
  rw [wordsFrom_of_blank (by simp), gap]
  cases word with
  | nil => rfl
  | cons d word =>
    cases hws : words (· = space) text with
    | nil => simp [unwords]
    | cons w ws => exact unwords_cons_of_ne_nil _ (List.cons_ne_nil w ws)

/-- A text and its words have the same characters, but for blanks. -/
theorem filter_unwords_wordsFrom (word text : List α) :
    (unwords space (wordsFrom (· = space) word text)).filter (· ≠ space) =
      (word ++ text).filter (· ≠ space) := by
  induction text generalizing word with
  | nil =>
    cases word with
    | nil => rfl
    | cons d word => simp [wordsFrom, unwords_singleton]
  | cons c text ih =>
    by_cases hc : c = space
    · subst hc
      have hrest : (unwords c (words (· = c) text)).filter (· ≠ c) = text.filter (· ≠ c) := ih []
      have hgap : (gap c word (words (· = c) text)).filter (· ≠ c) = [] := by
        unfold gap
        split_ifs <;> simp
      have hspace : (c :: text).filter (· ≠ c) = text.filter (· ≠ c) := by simp
      rw [unwords_wordsFrom_cons_space, List.filter_append, List.filter_append, hgap, hrest,
        List.filter_append, hspace, List.nil_append]
    · rw [wordsFrom_of_not_blank (by simpa using hc), ih, List.append_assoc, List.singleton_append]

theorem length_unwords_wordsFrom_le (word text : List α) :
    (unwords space (wordsFrom (· = space) word text)).length ≤ word.length + text.length := by
  induction text generalizing word with
  | nil =>
    cases word with
    | nil => exact Nat.le_refl 0
    | cons d word => simp [wordsFrom, unwords_singleton]
  | cons c text ih =>
    by_cases hc : c = space
    · subst hc
      have hrest : (unwords c (words (· = c) text)).length ≤ 0 + text.length := ih []
      have hgap : (gap c word (words (· = c) text)).length ≤ 1 := by
        unfold gap
        split_ifs <;> simp
      rw [unwords_wordsFrom_cons_space, List.length_append, List.length_append, List.length_cons]
      omega
    · have hrest := ih (word ++ [c])
      rw [wordsFrom_of_not_blank (by simpa using hc)]
      rw [List.length_append, List.length_singleton] at hrest
      rw [List.length_cons]
      omega

/-- A text that is its words with one blank between them does not begin with a blank. -/
theorem head?_ne_of_unwords_eq (h : unwords space (words (· = space) text) = text) :
    text.head? ≠ some space := by
  cases text with
  | nil => simp
  | cons c text =>
    intro hhead
    obtain rfl : c = space := by simpa using hhead
    have hlen : (unwords c (words (· = c) text)).length ≤ 0 + text.length :=
      length_unwords_wordsFrom_le [] text
    rw [words_of_blank (by simp)] at h
    rw [h, List.length_cons] at hlen
    omega

/-- Nor does it have two blanks in a row. -/
theorem not_double_of_unwords_eq
    (h : unwords space (wordsFrom (· = space) word text) = word ++ text) :
    ¬[space, space] <:+: text := by
  induction text generalizing word with
  | nil => simp
  | cons c text ih =>
    rw [List.infix_cons_iff, not_or]
    by_cases hc : c = space
    · subst hc
      have hlen : (unwords c (words (· = c) text)).length ≤ 0 + text.length :=
        length_unwords_wordsFrom_le [] text
      rw [unwords_wordsFrom_cons_space, List.append_cancel_left_eq, gap] at h
      split_ifs at h with hgap
      · -- without a blank between them, the words are too short
        rw [List.nil_append] at h
        rw [h, List.length_cons] at hlen
        omega
      · have hrest : unwords c (words (· = c) text) = text := (List.cons.inj h).2
        refine ⟨fun hprefix => ?_, @ih [] hrest⟩
        obtain ⟨rest, hrest'⟩ := (List.cons_prefix_cons.mp hprefix).2
        exact head?_ne_of_unwords_eq hrest (by rw [← hrest']; rfl)
    · refine ⟨fun hprefix => hc (List.cons_prefix_cons.mp hprefix).1.symm,
        @ih (word ++ [c]) ?_⟩
      rw [wordsFrom_of_not_blank (by simpa using hc)] at h
      rw [h, List.append_assoc, List.singleton_append]

/-- A text without two blanks in a row, or one at its ends, is its words with one blank between
them. -/
theorem unwords_wordsFrom_eq (hdouble : ¬[space, space] <:+: text)
    (hlast : text.getLast? ≠ some space) (hhead : word = [] → text.head? ≠ some space) :
    unwords space (wordsFrom (· = space) word text) = word ++ text := by
  induction text generalizing word with
  | nil =>
    cases word with
    | nil => rfl
    | cons d word => simp [wordsFrom, unwords_singleton]
  | cons c text ih =>
    rw [List.infix_cons_iff, not_or] at hdouble
    have hlast' : text.getLast? ≠ some space := by
      cases text with
      | nil => simp
      | cons d text => rwa [List.getLast?_cons_cons] at hlast
    by_cases hc : c = space
    · -- the blank stands between two words: neither it nor the next character is at an end
      subst hc
      have htext : text ≠ [] := by
        rintro rfl
        exact hlast rfl
      have hrest : unwords c (words (· = c) text) = text := by
        refine ih hdouble.2 hlast' fun _ hhead => hdouble.1 ?_
        obtain ⟨rest, rfl⟩ := List.head?_eq_some_iff.mp hhead
        exact List.prefix_append [c, c] rest
      have hwords : words (· = c) text ≠ [] := by
        intro h
        rw [h] at hrest
        exact htext hrest.symm
      have hword : word ≠ [] := fun h => hhead h rfl
      rw [unwords_wordsFrom_cons_space, hrest, gap]
      simp [hwords, hword]
    · rw [wordsFrom_of_not_blank (by simpa using hc), ih hdouble.2 hlast' (by simp),
        List.append_assoc, List.singleton_append]

end

/-! ## One pass that takes away blanks -/

section
variable [DecidableEq α]

/-- One blank for two. -/
def squeeze (space : α) (text : List α) : List α := replace [space, space] [space] text

variable {space c : α} {text : List α}

@[simp] theorem squeeze_nil : squeeze space [] = [] := rfl

theorem squeeze_double (text : List α) :
    squeeze space (space :: space :: text) = space :: squeeze space text :=
  replace_append (List.cons_ne_nil space [space]) text

theorem squeeze_of_not_double (h : ¬[space, space] <+: c :: text) :
    squeeze space (c :: text) = c :: squeeze space text :=
  replace_of_not_begins h

theorem squeeze_cons_of_ne (h : c ≠ space) (text : List α) :
    squeeze space (c :: text) = c :: squeeze space text :=
  squeeze_of_not_double fun hprefix => h (List.cons_prefix_cons.mp hprefix).1.symm

/-- The texts that one pass goes through: two blanks, or a character that they do not begin at. -/
theorem squeeze_induction (space : α) {P : List α → Prop} (hnil : P [])
    (hdouble : ∀ text, P text → P (space :: space :: text))
    (hcons : ∀ c text, ¬[space, space] <+: c :: text → P text → P (c :: text)) (text : List α) :
    P text := by
  induction hn : text.length using Nat.strong_induction_on generalizing text with
  | _ n ih =>
    subst hn
    cases text with
    | nil => exact hnil
    | cons c text =>
      by_cases h : [space, space] <+: c :: text
      · obtain ⟨rest, hrest⟩ := h
        rw [← hrest]
        have hlt : rest.length < (c :: text).length := by
          rw [← hrest, List.length_append]
          simp
        exact hdouble rest (ih rest.length hlt rest rfl)
      · exact hcons c text h (ih text.length (by simp) text rfl)

theorem mem_of_mem_squeeze (h : c ∈ squeeze space text) : c ∈ text := by
  induction text using squeeze_induction space with
  | hnil => exact h
  | hdouble text ih =>
    rw [squeeze_double, List.mem_cons] at h
    rcases h with rfl | h
    · exact List.mem_cons_self
    · exact List.mem_cons_of_mem _ (List.mem_cons_of_mem _ (ih h))
  | hcons d text hd ih =>
    rw [squeeze_of_not_double hd, List.mem_cons] at h
    rcases h with rfl | h
    · exact List.mem_cons_self
    · exact List.mem_cons_of_mem _ (ih h)

theorem wordsFrom_squeeze (word text : List α) :
    wordsFrom (· = space) word (squeeze space text) = wordsFrom (· = space) word text := by
  induction text using squeeze_induction space generalizing word with
  | hnil => rfl
  | hdouble text ih =>
    have hrest : words (· = space) (squeeze space text) = words (· = space) text := ih []
    rw [squeeze_double, wordsFrom_of_blank (by simp), wordsFrom_of_blank (by simp),
      words_of_blank (by simp), hrest]
  | hcons c text hc ih =>
    rw [squeeze_of_not_double hc]
    by_cases hspace : c = space
    · have hrest : words (· = space) (squeeze space text) = words (· = space) text := ih []
      rw [wordsFrom_of_blank (by simpa using hspace), wordsFrom_of_blank (by simpa using hspace),
        hrest]
    · rw [wordsFrom_of_not_blank (by simpa using hspace),
        wordsFrom_of_not_blank (by simpa using hspace), ih]

/-- A pass does not change whether a text begins with a blank. -/
theorem head?_squeeze (text : List α) : (squeeze space text).head? = text.head? := by
  induction text using squeeze_induction space with
  | hnil => rfl
  | hdouble text ih => rw [squeeze_double]; rfl
  | hcons c text hc ih => rw [squeeze_of_not_double hc]; rfl

omit [DecidableEq α] in
theorem space_prefix_iff : [space] <+: text ↔ text.head? = some space := by
  cases text with
  | nil => simp
  | cons c text => simp [eq_comm]

/-- Two blanks are left where there were three. -/
theorem double_squeeze_iff :
    [space, space] <:+: squeeze space text ↔ [space, space, space] <:+: text := by
  induction text using squeeze_induction space with
  | hnil => simp
  | hdouble text ih =>
    -- the blank that is left has another one behind it exactly if a third one followed
    have hhead : [space, space] <+: text → text.head? = some space := fun h =>
      space_prefix_iff.mp ((List.prefix_append [space] [space]).trans h)
    rw [squeeze_double]
    simp only [List.infix_cons_iff, List.cons_prefix_cons, true_and, space_prefix_iff,
      head?_squeeze, ih]
    tauto
  | hcons c text hc ih =>
    have hsqueeze : ¬[space, space] <+: c :: squeeze space text := by
      rwa [List.cons_prefix_cons, space_prefix_iff, head?_squeeze, ← space_prefix_iff,
        ← List.cons_prefix_cons]
    have hthree : ¬[space, space, space] <+: c :: text := fun h =>
      hc ((List.prefix_append [space, space] [space]).trans h)
    rw [squeeze_of_not_double hc, List.infix_cons_iff, List.infix_cons_iff, ih]
    simp only [hsqueeze, hthree, false_or]

theorem getLast?_squeeze (text : List α) : (squeeze space text).getLast? = text.getLast? := by
  induction text using squeeze_induction space with
  | hnil => rfl
  | hdouble text ih =>
    rw [squeeze_double, List.getLast?_cons, ih, List.getLast?_cons, List.getLast?_cons,
      Option.getD_some]
  | hcons c text hc ih => rw [squeeze_of_not_double hc, List.getLast?_cons, ih, List.getLast?_cons]

theorem squeeze_append_of_head {y : List α} (hy : y.head? ≠ some space) (x : List α) :
    squeeze space (x ++ y) = squeeze space x ++ squeeze space y := by
  cases y with
  | nil => simp
  | cons c y =>
    have hc : c ∉ [space] := by simpa using hy
    exact replace_append_cons hc x y

theorem squeeze_append_of_getLast {x : List α} (hx : x.getLast? ≠ some space) (y : List α) :
    squeeze space (x ++ y) = squeeze space x ++ squeeze space y := by
  induction x using List.reverseRecOn with
  | nil => rfl
  | append_singleton x c ih =>
    have hc : c ≠ space := by simpa using hx
    have hhead (y : List α) : (c :: y).head? ≠ some space := by simpa using hc
    rw [List.append_assoc, List.singleton_append, squeeze_append_of_head (hhead y),
      squeeze_append_of_head (hhead []), squeeze_cons_of_ne hc, squeeze_cons_of_ne hc]
    simp

/-- Blanks around a text stay around it. -/
theorem exists_squeeze (space : α) (text : List α) : ∃ x y,
    (∀ c ∈ x, c = space) ∧ (∀ c ∈ y, c = space) ∧
      squeeze space text = x ++ squeeze space (trim (· = space) text) ++ y := by
  obtain ⟨x, y, hx, hy, htext⟩ := exists_trim (· = space) text
  have hblank {z : List α} (hz : ∀ c ∈ z, decide (c = space) = true) :
      ∀ c ∈ squeeze space z, c = space := fun c hc =>
    of_decide_eq_true (hz c (mem_of_mem_squeeze hc))
  obtain ⟨hhead, hlast⟩ := trim_eq_self_iff.mp (trim_trim (· = space) text)
  generalize trim (· = space) text = middle at htext hhead hlast
  subst htext
  cases middle with
  | nil =>
    -- a text of blanks only: there is nothing for them to be around
    refine ⟨squeeze space (x ++ y), [], hblank fun c hc => ?_, by simp, by simp⟩
    rcases List.mem_append.mp hc with hc | hc
    · exact hx c hc
    · exact hy c hc
  | cons c middle =>
    have hhead' : (c :: middle ++ y).head? ≠ some space := by simpa using hhead
    have hlast' : (c :: middle).getLast? ≠ some space := fun h => by simpa using hlast space h
    refine ⟨squeeze space x, squeeze space y, hblank hx, hblank hy, ?_⟩
    rw [List.append_assoc, squeeze_append_of_head hhead', squeeze_append_of_getLast hlast',
      List.append_assoc]

/-- If a text that has no blank of one kind at its ends keeps all but those when blanks are taken
off, it keeps all. -/
theorem trim_eq_self_of_filter {blank : α → Bool} (hhead : text.head? ≠ some space)
    (hlast : text.getLast? ≠ some space)
    (h : (trim blank text).filter (· ≠ space) = text.filter (· ≠ space)) :
    trim blank text = text := by
  obtain ⟨x, y, -, -, htext⟩ := exists_trim blank text
  generalize trim blank text = middle at htext h
  subst htext
  have hlen := congrArg List.length h
  simp only [List.filter_append, List.length_append] at hlen
  have hx : x = [] := by
    cases x with
    | nil => rfl
    | cons c x =>
      have hc : c ≠ space := by simpa using hhead
      simp [hc] at hlen
      omega
  have hy : y = [] := by
    induction y using List.reverseRecOn with
    | nil => rfl
    | append_singleton y c _ =>
      have hc : c ≠ space := fun h => hlast (by simp [h])
      simp [hc] at hlen
      omega
  rw [hx, hy, List.nil_append, List.append_nil]

/-- **One pass is enough** for a text with only blanks taken off its ends, and no three blanks in a
row between them. -/
theorem trim_squeeze_iff {blank : α → Bool} (hspace : blank space = true) (text : List α) :
    trim blank (squeeze space text) = unwords space (words (· = space) text) ↔
      trim blank text = trim (· = space) text ∧
        ¬[space, space, space] <:+: trim (· = space) text := by
  have hall {z : List α} (hz : ∀ c ∈ z, c = space) : ∀ c ∈ z, blank c = true := fun c hc =>
    hz c hc ▸ hspace
  have htrim : trim blank text = trim blank (trim (· = space) text) := by
    obtain ⟨x, y, hx, hy, htext⟩ := exists_trim (· = space) text
    conv_lhs => rw [htext, trim_append_of_all (hall fun c hc => of_decide_eq_true (hx c hc))
      (hall fun c hc => of_decide_eq_true (hy c hc))]
  have hsqueeze : trim blank (squeeze space text) =
      trim blank (squeeze space (trim (· = space) text)) := by
    obtain ⟨x, y, hx, hy, htext⟩ := exists_squeeze space text
    rw [htext, trim_append_of_all (hall hx) (hall hy)]
  obtain ⟨hhead, hlast⟩ := trim_eq_self_iff.mp (trim_trim (· = space) text)
  rw [htrim, hsqueeze, ← words_trim]
  generalize trim (· = space) text = text at hhead hlast
  -- from here on, the text has no blanks at its ends, and one pass does not change them
  have hhead' : (squeeze space text).head? ≠ some space := by
    rw [head?_squeeze]
    intro h
    simpa using hhead space h
  have hlast' : (squeeze space text).getLast? ≠ some space := by
    rw [getLast?_squeeze]
    intro h
    simpa using hlast space h
  have hkeeps : trim blank (squeeze space text) = squeeze space text ↔ trim blank text = text := by
    rw [trim_eq_self_iff, trim_eq_self_iff, head?_squeeze, getLast?_squeeze]
  have hwords : words (· = space) (squeeze space text) = words (· = space) text :=
    wordsFrom_squeeze [] text
  rw [← hwords, ← double_squeeze_iff, ← hkeeps]
  constructor
  · intro h
    -- the words have all characters but blanks, so none of another kind was taken off
    have hself : trim blank (squeeze space text) = squeeze space text := by
      refine trim_eq_self_of_filter hhead' hlast' ?_
      rw [h]
      exact filter_unwords_wordsFrom [] (squeeze space text)
    rw [hself] at h
    exact ⟨hself, @not_double_of_unwords_eq _ _ _ [] _ h.symm⟩
  · rintro ⟨hself, hdouble⟩
    rw [hself]
    exact (@unwords_wordsFrom_eq _ _ _ [] _ hdouble hlast' fun _ => hhead').symm

/-- Nothing is to be done for words with one blank between them. -/
theorem trim_squeeze_unwords {blank : α → Bool} (hspace : blank space = true) {ws : List (List α)}
    (hws : ∀ w ∈ ws, w ≠ [] ∧ ∀ c ∈ w, blank c = false) :
    trim blank (squeeze space (unwords space ws)) = unwords space ws := by
  cases ws with
  | nil => rfl
  | cons w ws =>
    have hne : ∀ c, blank c = false → c ≠ space := by
      rintro c hc rfl
      rw [hspace] at hc
      cases hc
    have hwords : words (· = space) (unwords space (w :: ws)) = w :: ws :=
      words_unwords (by simp) fun v hv => ⟨(hws v hv).1, fun c hc =>
        decide_eq_false (hne c ((hws v hv).2 c hc))⟩
    obtain ⟨⟨a, hhead, ha⟩, b, hlast, hb⟩ := ends_unwords space hws (List.cons_ne_nil w ws)
    generalize hjoined : unwords space (w :: ws) = joined at *
    have hself (blank' : α → Bool) (ha : blank' a = false) (hb : blank' b = false) :
        trim blank' joined = joined := by
      rw [trim_eq_self_iff, hhead, hlast]
      simpa using ⟨ha, hb⟩
    have hspaces : trim (· = space) joined = joined :=
      hself _ (decide_eq_false (hne a ha)) (decide_eq_false (hne b hb))
    have hdouble : ¬[space, space] <:+: joined :=
      @not_double_of_unwords_eq _ _ _ [] _ (by rw [← words, hwords, hjoined]; rfl)
    have hthree : ¬[space, space, space] <:+: joined := fun h =>
      hdouble ((List.prefix_append [space, space] [space]).isInfix.trans h)
    rw [(trim_squeeze_iff hspace joined).mpr, hwords, hjoined]
    rw [hself blank ha hb, hspaces]
    exact ⟨rfl, hthree⟩

end

end CryptPilot.Data.Text
