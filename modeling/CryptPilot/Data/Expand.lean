import CryptPilot.Data.Text
import Mathlib.Algebra.Order.Ring.Nat
import Mathlib.Logic.Function.Basic
import Mathlib.Data.List.Permutation
import Mathlib.Data.List.Perm.Subperm

/-!
# Variables in text

A reference to a variable is a mark and then a name, as long as name characters go. `expand` gives
every reference its value in one pass over a text. Replacing one variable after the other, with
`replace`, is something else: it finds the mark and the name also in front of a longer name, and in
what was put in for another variable.

`replace_expand_iff` says when one more replacement is the same as one more variable in the one pass,
and `replaceAll_eq_expand_iff` when any number of replacements, in any order, are.
-/

namespace CryptPilot.Data.Text

variable {α : Type} [DecidableEq α]

/-! ## Patterns that begin with a mark -/

section
variable {mark : α} {name new : List α}

theorem occurrences_append_of_not_mem (x y : List α) (hx : mark ∉ x) :
    occurrences (mark :: name) (x ++ y) = occurrences (mark :: name) y := by
  induction x with
  | nil => rfl
  | cons c x ih =>
    rw [List.mem_cons, not_or] at hx
    have hprefix : ¬mark :: name <+: c :: (x ++ y) := fun h => hx.1 (List.cons_prefix_cons.mp h).1
    rw [List.cons_append, occurrences, ih hx.2, if_neg hprefix, Nat.add_zero]

theorem occurrences_marked_append (hname : mark ∉ name) (y : List α) :
    occurrences (mark :: name) (mark :: name ++ y) = occurrences (mark :: name) y + 1 := by
  have hprefix : mark :: name <+: mark :: (name ++ y) := List.prefix_append (mark :: name) y
  rw [List.cons_append, occurrences, if_pos hprefix, occurrences_append_of_not_mem _ _ hname]

/-- A pattern that occurs has a first occurrence. -/
theorem exists_of_occurrences_pos {pattern x : List α} (h : 0 < occurrences pattern x) :
    ∃ y z, x = y ++ (pattern ++ z) := by
  induction x with
  | nil => cases h
  | cons c x ih =>
    by_cases hprefix : pattern <+: c :: x
    · obtain ⟨z, hz⟩ := hprefix
      exact ⟨[], z, hz.symm⟩
    · rw [occurrences, if_neg hprefix] at h
      obtain ⟨y, z, rfl⟩ := ih h
      exact ⟨c :: y, z, rfl⟩

theorem replace_of_occurrences_eq_zero {pattern x : List α} (h : occurrences pattern x = 0) :
    replace pattern new x = x := by
  induction x with
  | nil => rfl
  | cons c x ih =>
    rw [occurrences, Nat.add_eq_zero_iff] at h
    have hprefix : ¬pattern <+: c :: x := by simpa using h.2
    rw [replace_of_not_begins hprefix, ih h.1]

/-- Every occurrence is replaced. -/
theorem length_replace (hname : mark ∉ name) (new x : List α) :
    (replace (mark :: name) new x).length + occurrences (mark :: name) x * (name.length + 1) =
      x.length + occurrences (mark :: name) x * new.length := by
  have hfrom (n : Nat) (hn : n ≤ x.length) (hskip : mark ∉ x.take n) :
      (replaceFrom (mark :: name) new n x).length +
          occurrences (mark :: name) x * (name.length + 1) + n =
        x.length + occurrences (mark :: name) x * new.length := by
    induction x generalizing n with
    | nil =>
      obtain rfl : n = 0 := Nat.le_zero.mp hn
      simp [replaceFrom, occurrences]
    | cons c x ih =>
      cases n with
      | succ n =>
        rw [List.take_succ_cons, List.mem_cons, not_or] at hskip
        have hprefix : ¬mark :: name <+: c :: x := fun h => hskip.1 (List.cons_prefix_cons.mp h).1
        have hrest := ih n (Nat.le_of_succ_le_succ hn) hskip.2
        rw [replaceFrom, occurrences, if_neg hprefix, Nat.add_zero]
        simp only [List.length_cons]
        omega
      | zero =>
        by_cases hprefix : mark :: name <+: c :: x
        · obtain ⟨rfl, z, rfl⟩ := List.cons_prefix_cons.mp hprefix
          have hrest := ih name.length (by simp) (by simpa using hname)
          rw [replaceFrom, occurrences, if_pos hprefix, if_pos hprefix]
          simp only [List.length_cons, List.length_append, Nat.add_mul, Nat.one_mul,
            Nat.add_sub_cancel] at hrest ⊢
          omega
        · have hrest := ih 0 (Nat.zero_le _) (by simp)
          rw [replaceFrom, occurrences, if_neg hprefix, if_neg hprefix]
          simp only [List.length_cons, Nat.add_zero] at hrest ⊢
          omega
  exact hfrom 0 (Nat.zero_le _) (by simp)

end

/-! ## One pass -/

/-- Gives references their values, after leaving out some characters. -/
def expandFrom (mark : α) (nameChar : α → Bool) (value : List α → Option (List α)) :
    Nat → List α → List α
  | _, [] => []
  | n + 1, _ :: cs => expandFrom mark nameChar value n cs
  | 0, c :: cs =>
    if c = mark then
      match value (cs.takeWhile nameChar) with
      | some new => new ++ expandFrom mark nameChar value (cs.takeWhile nameChar).length cs
      | none => mark :: expandFrom mark nameChar value 0 cs
    else c :: expandFrom mark nameChar value 0 cs

/-- One pass over a text. A reference to a variable that has no value is left as it is. -/
def expand (mark : α) (nameChar : α → Bool) (value : List α → Option (List α)) (text : List α) :
    List α :=
  expandFrom mark nameChar value 0 text

/-- How often a text refers to a variable. -/
def references (mark : α) (nameChar : α → Bool) (name : List α) : List α → Nat
  | [] => 0
  | c :: cs => references mark nameChar name cs +
      if c = mark ∧ cs.takeWhile nameChar = name then 1 else 0

section
variable {mark : α} {nameChar : α → Bool} {value : List α → Option (List α)} {name new : List α}

theorem expandFrom_of_some {cs : List α} (h : value (cs.takeWhile nameChar) = some new) :
    expandFrom mark nameChar value 0 (mark :: cs) =
      new ++ expandFrom mark nameChar value (cs.takeWhile nameChar).length cs := by
  rw [expandFrom, if_pos rfl, h]

theorem expandFrom_of_none {cs : List α} (h : value (cs.takeWhile nameChar) = none) :
    expandFrom mark nameChar value 0 (mark :: cs) =
      mark :: expandFrom mark nameChar value 0 cs := by
  rw [expandFrom, if_pos rfl, h]

theorem expandFrom_of_ne {c : α} (h : c ≠ mark) (cs : List α) :
    expandFrom mark nameChar value 0 (c :: cs) = c :: expandFrom mark nameChar value 0 cs := by
  rw [expandFrom, if_neg h]

theorem references_append_of_not_mem {x : List α} (hx : mark ∉ x) (y : List α) :
    references mark nameChar name (x ++ y) = references mark nameChar name y := by
  induction x with
  | nil => rfl
  | cons c x ih =>
    rw [List.mem_cons, not_or] at hx
    rw [List.cons_append, references, ih hx.2, if_neg fun h => hx.1 h.1.symm, Nat.add_zero]

/-- The names that are read have no mark, so there are no references in them. -/
theorem references_drop_takeWhile (hmark : nameChar mark = false) (cs : List α) :
    references mark nameChar name (cs.drop (cs.takeWhile nameChar).length) =
      references mark nameChar name cs := by
  have hnot : mark ∉ cs.takeWhile nameChar := by
    intro h
    rw [List.mem_takeWhile_imp h] at hmark
    cases hmark
  have hsplit : cs.takeWhile nameChar ++ cs.drop (cs.takeWhile nameChar).length = cs :=
    List.prefix_iff_eq_append.mp (List.takeWhile_prefix nameChar)
  rw [← references_append_of_not_mem hnot, hsplit]

/-- What a text is around its references to one variable, with the others expanded. -/
theorem exists_pieces (hmark : nameChar mark = false) (value : List α → Option (List α))
    (name text : List α) :
    ∃ (u : List α) (us : List (List α)), us.length = references mark nameChar name text ∧
      ∀ new, expand mark nameChar (Function.update value name (some new)) text =
        u ++ us.flatMap (new ++ ·) := by
  have hfrom (n : Nat) : ∃ (u : List α) (us : List (List α)),
      us.length = references mark nameChar name (text.drop n) ∧
      ∀ new, expandFrom mark nameChar (Function.update value name (some new)) n text =
        u ++ us.flatMap (new ++ ·) := by
    induction text generalizing n with
    | nil => exact ⟨[], [], by simp [references], fun new => by simp [expandFrom]⟩
    | cons c cs ih =>
      cases n with
      | succ n => exact ih n
      | zero =>
        -- what comes after the character, or after the name
        obtain ⟨u, us, hlen, hpieces⟩ := ih 0
        obtain ⟨u', us', hlen', hpieces'⟩ := ih (cs.takeWhile nameChar).length
        rw [List.drop_zero] at hlen
        rw [references_drop_takeWhile hmark] at hlen'
        rw [List.drop_zero, references]
        by_cases hc : c = mark
        · subst hc
          by_cases hname : cs.takeWhile nameChar = name
          · refine ⟨[], u' :: us', by simp [hname, hlen'], fun new => ?_⟩
            have hnew : Function.update value name (some new) (cs.takeWhile nameChar) = some new := by
              rw [hname, Function.update_self]
            rw [expandFrom_of_some hnew, hpieces' new, List.flatMap_cons, List.nil_append,
              List.append_assoc]
          · have hother (new : List α) : Function.update value name (some new)
                (cs.takeWhile nameChar) = value (cs.takeWhile nameChar) :=
              Function.update_of_ne hname _ _
            cases hvalue : value (cs.takeWhile nameChar) with
            | some other =>
              refine ⟨other ++ u', us', by simp [hname, hlen'], fun new => ?_⟩
              rw [expandFrom_of_some ((hother new).trans hvalue), hpieces' new, List.append_assoc]
            | none =>
              refine ⟨c :: u, us, by simp [hname, hlen], fun new => ?_⟩
              rw [expandFrom_of_none ((hother new).trans hvalue), hpieces new, List.cons_append]
        · refine ⟨c :: u, us, by simp [hc, hlen], fun new => ?_⟩
          rw [expandFrom_of_ne hc, hpieces new, List.cons_append]
  exact hfrom 0

theorem expand_none (text : List α) : expand mark nameChar (fun _ => none) text = text := by
  induction text with
  | nil => rfl
  | cons c cs ih =>
    by_cases hc : c = mark
    · subst hc
      exact (expandFrom_of_none rfl).trans (congrArg _ ih)
    · exact (expandFrom_of_ne hc cs).trans (congrArg _ ih)

/-- A name that is read is left as it is where it has no value. -/
theorem expandFrom_takeWhile (hmark : nameChar mark = false) (cs : List α) :
    expandFrom mark nameChar value 0 cs = cs.takeWhile nameChar ++
      expandFrom mark nameChar value (cs.takeWhile nameChar).length cs := by
  induction cs with
  | nil => rfl
  | cons c cs ih =>
    by_cases hc : nameChar c = true
    · have hne : c ≠ mark := by
        rintro rfl
        rw [hc] at hmark
        cases hmark
      rw [expandFrom_of_ne hne, ih, List.takeWhile_cons_of_pos hc]
      rfl
    · rw [List.takeWhile_cons_of_neg hc]
      rfl

/-- A variable that stands for its own reference might as well have no value. -/
theorem expand_update_self (hmark : nameChar mark = false) (hvalue : value name = none)
    (text : List α) :
    expand mark nameChar (Function.update value name (some (mark :: name))) text =
      expand mark nameChar value text := by
  have hfrom (n : Nat) :
      expandFrom mark nameChar (Function.update value name (some (mark :: name))) n text =
        expandFrom mark nameChar value n text := by
    induction text generalizing n with
    | nil => rfl
    | cons c cs ih =>
      cases n with
      | succ n => exact ih n
      | zero =>
        by_cases hc : c = mark
        · subst hc
          by_cases hname : cs.takeWhile nameChar = name
          · have hself : Function.update value name (some (c :: name)) (cs.takeWhile nameChar) =
                some (c :: name) := by
              rw [hname, Function.update_self]
            rw [expandFrom_of_some hself, expandFrom_of_none (hname ▸ hvalue), ih,
              expandFrom_takeWhile hmark cs, hname, List.cons_append]
          · have hother : Function.update value name (some (c :: name)) (cs.takeWhile nameChar) =
                value (cs.takeWhile nameChar) := Function.update_of_ne hname _ _
            cases hval : value (cs.takeWhile nameChar) with
            | some other =>
              rw [expandFrom_of_some (hother.trans hval), expandFrom_of_some hval, ih]
            | none => rw [expandFrom_of_none (hother.trans hval), expandFrom_of_none hval, ih]
        · rw [expandFrom_of_ne hc, expandFrom_of_ne hc, ih]
  exact hfrom 0

/-! ## One variable after the other -/

theorem replace_pieces (hname : mark ∉ name) (u : List α) (us : List (List α)) :
    replace (mark :: name) new (u ++ us.flatMap (mark :: name ++ ·)) =
      replace (mark :: name) new u ++
        us.flatMap (fun x => new ++ replace (mark :: name) new x) := by
  induction us generalizing u with
  | nil => simp
  | cons x us ih =>
    have hmark : mark ∉ (mark :: name).tail := hname
    rw [List.flatMap_cons, List.append_assoc, List.cons_append, replace_append_cons hmark,
      ← List.cons_append, replace_append (List.cons_ne_nil _ _), ih, List.flatMap_cons,
      List.append_assoc]

theorem occurrences_pieces (hname : mark ∉ name) (u : List α) (us : List (List α)) :
    occurrences (mark :: name) (u ++ us.flatMap (mark :: name ++ ·)) =
      occurrences (mark :: name) u + (us.map (occurrences (mark :: name))).sum + us.length := by
  induction us generalizing u with
  | nil => simp
  | cons x us ih =>
    have hmark : mark ∉ (mark :: name).tail := hname
    rw [List.flatMap_cons, List.append_assoc, List.cons_append, occurrences_append_cons hmark,
      ← List.cons_append, occurrences_marked_append hname, ih, List.map_cons, List.sum_cons,
      List.length_cons]
    omega

/-- A new text of the same length keeps all lengths. -/
theorem length_replace_of_length_eq (hname : mark ∉ name) (hnew : new.length = name.length + 1)
    (x : List α) : (replace (mark :: name) new x).length = x.length := by
  have hlen := length_replace hname new x
  rw [hnew] at hlen
  omega

/-- Replacing changes a text, unless there is nothing to replace. -/
theorem replace_eq_self_iff (hname : mark ∉ name) (x : List α) :
    replace (mark :: name) new x = x ↔
      new = mark :: name ∨ occurrences (mark :: name) x = 0 := by
  constructor
  · intro h
    rcases Nat.eq_zero_or_pos (occurrences (mark :: name) x) with hzero | hpos
    · exact .inr hzero
    · left
      have hlen := length_replace hname new x
      rw [h, Nat.add_left_cancel_iff] at hlen
      have hnew : new.length = name.length + 1 := (Nat.eq_of_mul_eq_mul_left hpos hlen).symm
      obtain ⟨y, z, rfl⟩ := exists_of_occurrences_pos hpos
      have hmark : mark ∉ (mark :: name).tail := hname
      rw [List.cons_append, replace_append_cons hmark, ← List.cons_append,
        replace_append (List.cons_ne_nil _ _)] at h
      have hrest := (List.append_inj h (length_replace_of_length_eq hname hnew y)).2
      exact (List.append_inj hrest hnew).1
  · rintro (rfl | hzero)
    · exact replace_self (List.cons_ne_nil _ _) x
    · exact replace_of_occurrences_eq_zero hzero

theorem length_flatMap_replace (hname : mark ∉ name) (new : List α) (us : List (List α)) :
    (us.flatMap fun x => new ++ replace (mark :: name) new x).length +
        (us.map (occurrences (mark :: name))).sum * (name.length + 1) =
      (us.flatMap (new ++ ·)).length + (us.map (occurrences (mark :: name))).sum * new.length := by
  induction us with
  | nil => simp
  | cons x us ih =>
    have hlen := length_replace hname new x
    simp only [List.flatMap_cons, List.length_append, List.map_cons, List.sum_cons, Nat.add_mul]
    omega

omit [DecidableEq α] in
theorem pieces_inj {f : List α → List α} (hf : ∀ x, (f x).length = x.length) {u : List α}
    {us : List (List α)} (h : f u ++ us.flatMap (fun x => new ++ f x) = u ++ us.flatMap (new ++ ·)) :
    ∀ x ∈ u :: us, f x = x := by
  induction us generalizing u with
  | nil => simpa using h
  | cons y us ih =>
    obtain ⟨hu, hrest⟩ := List.append_inj h (hf u)
    rw [List.flatMap_cons, List.flatMap_cons, List.append_assoc, List.append_assoc] at hrest
    have hus := ih (List.append_cancel_left hrest)
    intro x hx
    rcases List.mem_cons.mp hx with rfl | hx
    · exact hu
    · exact hus x hx

/-- The same for the pieces of a text. -/
theorem replace_pieces_eq_iff (hname : mark ∉ name) (u : List α) (us : List (List α)) :
    replace (mark :: name) new u ++ us.flatMap (fun x => new ++ replace (mark :: name) new x) =
        u ++ us.flatMap (new ++ ·) ↔
      new = mark :: name ∨
        occurrences (mark :: name) u + (us.map (occurrences (mark :: name))).sum = 0 := by
  have hsum : occurrences (mark :: name) u + (us.map (occurrences (mark :: name))).sum = 0 ↔
      ∀ x ∈ u :: us, occurrences (mark :: name) x = 0 := by
    rw [Nat.add_eq_zero_iff, List.sum_eq_zero_iff_forall_eq_nat, List.forall_mem_map,
      List.forall_mem_cons]
  constructor
  · intro h
    rcases Nat.eq_zero_or_pos
      (occurrences (mark :: name) u + (us.map (occurrences (mark :: name))).sum) with hzero | hpos
    · exact .inr hzero
    · -- the lengths agree, so the new text is as long as the old one, and every piece stays
      have hlen := congrArg List.length h
      have hu := length_replace hname new u
      have hus := length_flatMap_replace hname new us
      rw [List.length_append, List.length_append] at hlen
      have hmul : (occurrences (mark :: name) u + (us.map (occurrences (mark :: name))).sum) *
          new.length = (occurrences (mark :: name) u + (us.map (occurrences (mark :: name))).sum) *
          (name.length + 1) := by
        rw [Nat.add_mul, Nat.add_mul]
        omega
      have hnew := Nat.eq_of_mul_eq_mul_left hpos hmul
      have hpieces := pieces_inj (length_replace_of_length_eq hname hnew) h
      by_contra hne
      rw [not_or, hsum] at hne
      exact hne.2 fun x hx =>
        ((replace_eq_self_iff hname x).mp (hpieces x hx)).resolve_left hne.1
  · rintro (rfl | hzero)
    · simp only [replace_self (List.cons_ne_nil _ _)]
    · have hstay (x : List α) (hx : x ∈ u :: us) : replace (mark :: name) new x = x :=
        replace_of_occurrences_eq_zero (hsum.mp hzero x hx)
      rw [hstay u List.mem_cons_self]
      congr 1
      exact List.flatMap_congr fun x hx => by rw [hstay x (List.mem_cons_of_mem _ hx)]

/-- **One more replacement** is one more variable of the one pass, exactly if the pattern occurs only
where the text refers to the variable, or stands for itself. -/
theorem replace_expand_iff (hmark : nameChar mark = false) (hname : mark ∉ name)
    (hvalue : value name = none) (text : List α) :
    replace (mark :: name) new (expand mark nameChar value text) =
        expand mark nameChar (Function.update value name (some new)) text ↔
      new = mark :: name ∨
        occurrences (mark :: name) (expand mark nameChar value text) =
          references mark nameChar name text := by
  obtain ⟨u, us, hlen, hpieces⟩ := exists_pieces hmark value name text
  rw [hpieces new, ← expand_update_self hmark hvalue, hpieces (mark :: name), replace_pieces hname,
    replace_pieces_eq_iff hname, occurrences_pieces hname, hlen]
  refine or_congr_right ?_
  omega

end

/-! ## Many variables, in any order -/

/-- Replaces one variable after the other. -/
def replaceAll (mark : α) (vars : List (List α × List α)) (text : List α) : List α :=
  vars.foldl (fun text var => replace (mark :: var.1) var.2 text) text

/-- Whichever variables have been replaced, the next one is found only where the text itself refers
to it. -/
def Separate (mark : α) (nameChar : α → Bool) (vars : List (List α × List α)) (text : List α) :
    Prop :=
  ∀ before var, (before ++ [var]).Subperm vars → var.2 = mark :: var.1 ∨
    occurrences (mark :: var.1) (expand mark nameChar (before.lookup ·) text) =
      references mark nameChar var.1 text

section
variable {mark : α} {nameChar : α → Bool} {vars : List (List α × List α)}

theorem replaceAll_of_not_mem {text : List α} (h : mark ∉ text) :
    replaceAll mark vars text = text := by
  induction vars with
  | nil => rfl
  | cons var vars ih =>
    have hnone : occurrences (mark :: var.1) text = 0 := by
      rw [← List.append_nil text, occurrences_append_of_not_mem text [] h]
      rfl
    rw [replaceAll, List.foldl_cons, replace_of_occurrences_eq_zero hnone]
    exact ih

theorem lookup_eq_none_of_not_mem {name : List α} (h : name ∉ vars.map Prod.fst) :
    vars.lookup name = none := by
  rw [List.lookup_eq_none_iff]
  intro var hvar
  have hne : name ≠ var.1 := fun heq => h (heq ▸ List.mem_map_of_mem hvar)
  simpa using hne

theorem lookup_concat {var : List α × List α} (h : var.1 ∉ vars.map Prod.fst) :
    ((vars ++ [var]).lookup ·) = Function.update (vars.lookup ·) var.1 (some var.2) := by
  funext name
  rw [List.lookup_append, List.lookup_singleton]
  by_cases hname : name = var.1
  · rw [hname, lookup_eq_none_of_not_mem h, Function.update_self]
    simp
  · rw [Function.update_of_ne hname]
    simp [hname]

/-- **Replacing the variables one after the other is the one pass**, for some of the variables in any
order, exactly if they are separate. -/
theorem replaceAll_eq_expand_iff (hmark : nameChar mark = false)
    (hnodup : (vars.map Prod.fst).Nodup) (hnames : ∀ var ∈ vars, mark ∉ var.1) (text : List α) :
    (∀ l, l.Subperm vars → replaceAll mark l text = expand mark nameChar (l.lookup ·) text) ↔
      Separate mark nameChar vars text := by
  -- one more variable, after those that were replaced as in the one pass
  have hstep {before : List (List α × List α)} {var : List α × List α}
      (hsub : (before ++ [var]).Subperm vars)
      (hbefore : replaceAll mark before text = expand mark nameChar (before.lookup ·) text) :
      replaceAll mark (before ++ [var]) text =
          expand mark nameChar ((before ++ [var]).lookup ·) text ↔
        var.2 = mark :: var.1 ∨
          occurrences (mark :: var.1) (expand mark nameChar (before.lookup ·) text) =
            references mark nameChar var.1 text := by
    have hfresh : var.1 ∉ before.map Prod.fst := by
      obtain ⟨l, hperm, hsublist⟩ := hsub
      have hnodup' : ((before ++ [var]).map Prod.fst).Nodup :=
        (hperm.map Prod.fst).nodup_iff.mp ((hsublist.map Prod.fst).nodup hnodup)
      rw [List.map_append, List.nodup_append] at hnodup'
      intro hmem
      exact hnodup'.2.2 _ hmem _ (by simp) rfl
    rw [replaceAll, List.foldl_append, lookup_concat hfresh]
    show replace (mark :: var.1) var.2 (replaceAll mark before text) = _ ↔ _
    rw [hbefore]
    exact replace_expand_iff hmark (hnames var (hsub.subset (by simp)))
      (lookup_eq_none_of_not_mem hfresh) text
  have hfewer {before : List (List α × List α)} {var : List α × List α}
      (hsub : (before ++ [var]).Subperm vars) : before.Subperm vars :=
    (List.sublist_append_left before [var]).subperm.trans hsub
  constructor
  · intro h before var hsub
    exact (hstep hsub (h before (hfewer hsub))).mp (h _ hsub)
  · intro hseparate l
    induction l using List.reverseRecOn with
    | nil =>
      intro _
      exact (expand_none text).symm
    | append_singleton before var ih =>
      intro hsub
      exact (hstep hsub (ih (hfewer hsub))).mpr (hseparate before var hsub)

theorem lookup_perm {vars vars' : List (List α × List α)} (h : vars.Perm vars')
    (hnodup : (vars.map Prod.fst).Nodup) (name : List α) : vars.lookup name = vars'.lookup name := by
  induction h with
  | nil => rfl
  | cons var _ ih =>
    rw [List.lookup_cons, List.lookup_cons, ih (List.nodup_cons.mp hnodup).2]
  | swap var var' vars =>
    obtain ⟨k, new⟩ := var
    obtain ⟨k', new'⟩ := var'
    have hne : k ≠ k' := by
      rintro rfl
      simp at hnodup
    by_cases hname : name = k
    · have hother : (name == k') = false := by simpa [hname] using hne
      simp only [List.lookup_cons, hother]
    · have hother : (name == k) = false := by simpa using hname
      simp only [List.lookup_cons, hother]
  | trans h _ ih ih' =>
    exact (ih hnodup).trans (ih' ((h.map Prod.fst).nodup_iff.mp hnodup))

/-! ## Orders -/

omit [DecidableEq α] in
/-- What comes first in some order. -/
theorem subperm_iff_begins {l : List (List α × List α)} :
    l.Subperm vars ↔ ∃ order, order.Perm vars ∧ l <+: order := by
  constructor
  · rintro ⟨l', hperm, hsublist⟩
    obtain ⟨rest, hrest⟩ := hsublist.exists_perm_append
    exact ⟨l ++ rest, (hperm.symm.append_right rest).trans hrest.symm, List.prefix_append l rest⟩
  · rintro ⟨order, hperm, hprefix⟩
    exact hprefix.sublist.subperm.trans hperm.subperm

theorem separate_iff {text : List α} : Separate mark nameChar vars text ↔
    ∀ order ∈ vars.permutations', ∀ n : Fin order.length,
      (order.get n).2 = mark :: (order.get n).1 ∨
        occurrences (mark :: (order.get n).1)
            (expand mark nameChar ((order.take n).lookup ·) text) =
          references mark nameChar (order.get n).1 text := by
  constructor
  · intro h order horder n
    refine h (order.take n) (order.get n) (subperm_iff_begins.mpr ⟨order, ?_, ?_⟩)
    · exact List.mem_permutations'.mp horder
    · rw [List.get_eq_getElem, List.take_concat_get']
      exact List.take_prefix _ _
  · intro h before var hsub
    obtain ⟨order, hperm, rest, rfl⟩ := subperm_iff_begins.mp hsub
    have hn : before.length < (before ++ [var] ++ rest).length := by simp
    simpa using h _ (List.mem_permutations'.mpr hperm) ⟨before.length, hn⟩

instance (text : List α) : Decidable (Separate mark nameChar vars text) :=
  decidable_of_iff _ separate_iff.symm

end

end CryptPilot.Data.Text
