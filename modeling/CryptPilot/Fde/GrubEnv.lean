import CryptPilot.Fde.Grub

/-!
# Where `kernelopts` comes from

`parse_grub_env_vars` of `disk/grub.rs`. The options of the kernel are in the environment, or set in
`grub.cfg`, or set there only if the environment has none:

    if [ -z "${kernelopts}" ]; then
      set kernelopts="root=/dev/mapper/root ro"
    fi

The code looks for this test with a backslash before each quotation mark, which `grub.cfg` does not
have. And what it finds there overrides a value that was set before. `kernelopts_iff` says when the
value is the right one all the same.
-/

namespace CryptPilot.Fde

open CryptPilot.Data CryptPilot.Data.Text

/-! ## The right place -/

/-- The values that the lines of an environment assign to a variable. -/
def assignments (key : List Char) (ls : List (List Char)) : List (List Char) :=
  ls.filterMap (·.dropPrefix? (key ++ ['=']))

/-- A value without what is blank around it, and without quotation marks. -/
def unquote (value : List Char) : List Char := trim (· = '"') (trim isWhitespace value)

/-- What the first line sets that begins with `set kernelopts=`. -/
def firstSet (ls : List (List Char)) : Option (List Char) :=
  ls.findSome? fun line => (line.dropPrefix? "set kernelopts=".toList).map unquote

/-- What is set directly after a line with a test, where something is. -/
def setAfter (test : List Char) (ls : List (List Char)) : Option (List Char) :=
  (ls.zip ls.tail).findSome? fun (line, next) =>
    if test <:+: line then (next.dropPrefix? "  set kernelopts=".toList).map unquote else none

/-- The test as it is in `grub.cfg`. -/
def emptyTest : List Char := "if [ -z \"$\x7bkernelopts\x7d\" ]; then".toList

/-- The test as the code looks for it. -/
def escapedTest : List Char := "if [ -z \\\"$\x7bkernelopts\x7d\\\" ]; then".toList

/-- The places in `grub.cfg`. -/
def cfgKernelopts (ls : List (List Char)) : Option (List Char) :=
  (firstSet ls).or (setAfter emptyTest ls)

/-- The last assignment in the environment, or else a place in `grub.cfg`. -/
def kernelopts (grubEnv grubCfg : List Char) : Option (List Char) :=
  (assignments "kernelopts".toList (lines grubEnv)).getLast?.or (cfgKernelopts (lines grubCfg))

/-! ## The map -/

namespace GrubVars

variable (vars : GrubVars) {key other : List Char}

theorem get_insert_self (value : List Char) : (vars.insert key value).get key = some value := by
  have hnone : (vars.entries.filter (·.1 ≠ key)).lookup key = none := by
    rw [List.lookup_eq_none_iff]
    intro var hvar
    have hne : var.1 ≠ key := by simpa using (List.mem_filter.mp hvar).2
    simpa using Ne.symm hne
  rw [get, insert, List.lookup_append, hnone]
  simp

theorem get_insert_of_ne (h : other ≠ key) (value : List Char) :
    (vars.insert other value).get key = vars.get key := by
  have hlast : [(other, value)].lookup key = none := by
    rw [List.lookup_cons, beq_false_of_ne (Ne.symm h)]
    rfl
  have hrest : ∀ l : List (List Char × List Char),
      (l.filter (·.1 ≠ other)).lookup key = l.lookup key := by
    intro l
    induction l with
    | nil => rfl
    | cons var l ih =>
      by_cases hvar : var.1 = other
      · have hkey : (key == var.1) = false := by simpa [hvar] using Ne.symm h
        rw [List.filter_cons_of_neg (by simpa using hvar), ih, List.lookup_cons, hkey]
      · rw [List.filter_cons_of_pos (by simpa using hvar), List.lookup_cons, List.lookup_cons, ih]
  rw [get, insert, List.lookup_append, hlast, hrest, Option.or_none]
  rfl

theorem get_insertSome_self (value : Option (List Char)) :
    (vars.insertSome key value).get key = value.or (vars.get key) := by
  cases value with
  | none => rfl
  | some value => exact get_insert_self vars value

theorem get_insertDefault_of_ne (h : other ≠ key) :
    (vars.insertDefault other).get key = vars.get key := by
  rw [insertDefault]
  split_ifs
  · rfl
  · exact get_insert_of_ne vars h []

/-- A line assigns to a variable what is behind its name and `=`. -/
theorem get_insertLine (hkey : '=' ∉ key) (line : List Char) :
    (vars.insertLine line).get key = (line.dropPrefix? (key ++ ['='])).or (vars.get key) := by
  rw [insertLine]
  by_cases hline : '=' ∈ line
  · obtain ⟨name, value, rfl, hname⟩ := List.eq_append_cons_of_mem hline
    have hfind : find ['='] (name ++ '=' :: value) = some name.length := by
      simpa using @find_marked _ _ '=' [] name value List.not_mem_nil hname
    have hdrop : (name ++ '=' :: value).drop (name.length + 1) = value := by
      rw [← List.drop_drop, List.drop_left]
      rfl
    simp only [hfind, List.take_left, hdrop]
    by_cases hsame : key = name
    · have hsplit : key ++ '=' :: value = (key ++ ['=']) ++ value := by simp
      rw [← hsame, hsplit, dropPrefix?_append_self, get_insert_self]
      rfl
    · have hnot : ¬key ++ ['='] <+: name ++ '=' :: value := fun h =>
        hsame ((prefix_marked_iff hkey hname).mp h)
      rw [dropPrefix?_of_not_begins hnot, get_insert_of_ne vars (Ne.symm hsame)]
      rfl
  · have hnot : ¬key ++ ['='] <+: line := fun h => hline (h.subset (by simp))
    have hfind : find ['='] line = none := @find_marked_eq_none _ _ '=' [] line hline
    rw [hfind, dropPrefix?_of_not_begins hnot]
    rfl

/-- After the loop over the lines, a variable has the value of the last assignment. -/
theorem get_foldl_insertLine (hkey : '=' ∉ key) (ls : List (List Char)) :
    (ls.foldl insertLine vars).get key = (assignments key ls).getLast?.or (vars.get key) := by
  induction ls using List.reverseRecOn with
  | nil => rfl
  | append_singleton ls line ih =>
    rw [List.foldl_append, List.foldl_cons, List.foldl_nil, get_insertLine _ hkey, ih]
    cases hline : line.dropPrefix? (key ++ ['=']) <;> simp [assignments, hline]

end GrubVars

/-! ## The loops over `grub.cfg` -/

theorem kerneloptsValue_eq {start : List Char} (hstart : "set kernelopts=".toList <:+: start)
    (line : List Char) :
    kerneloptsValue start line = (line.dropPrefix? start).map unquote := by
  unfold kerneloptsValue
  by_cases h : "set kernelopts=".toList <:+: line
  · exact if_pos h
  · have hnot : ¬start <+: line := fun hbegins => by
      have hinfix : start <:+: line := hbegins.isInfix
      exact h (hstart.trans hinfix)
    refine (if_neg h).trans ?_
    rw [dropPrefix?_of_not_begins hnot]
    rfl

theorem kerneloptsValue_set :
    kerneloptsValue "set kernelopts=".toList =
      fun line => (line.dropPrefix? "set kernelopts=".toList).map unquote :=
  funext (kerneloptsValue_eq List.infix_rfl)

theorem kerneloptsValue_indented :
    kerneloptsValue "  set kernelopts=".toList =
      fun line => (line.dropPrefix? "  set kernelopts=".toList).map unquote :=
  funext (kerneloptsValue_eq (List.suffix_append "  ".toList "set kernelopts=".toList).isInfix)

/-- What the code takes from `grub.cfg`: the value after the escaped test comes first. -/
theorem parseGrubEnvVars_kernelopts (grubEnv grubCfg : List Char) :
    (parseGrubEnvVars grubEnv grubCfg).get "kernelopts".toList =
      (assignments "kernelopts".toList (lines grubEnv)).getLast?.or
        ((setAfter escapedTest (lines grubCfg)).or (firstSet (lines grubCfg))) := by
  -- the two defaults are for other variables
  have henv : ((((lines grubEnv).foldl GrubVars.insertLine .empty).insertDefault
        "tuned_params".toList).insertDefault "tuned_initrd".toList).get "kernelopts".toList =
      (assignments "kernelopts".toList (lines grubEnv)).getLast? := by
    rw [GrubVars.get_insertDefault_of_ne _ (by decide),
      GrubVars.get_insertDefault_of_ne _ (by decide),
      GrubVars.get_foldl_insertLine _ (by decide)]
    exact Option.or_none
  simp only [parseGrubEnvVars, GrubVars.containsKey, kerneloptsValue_set, kerneloptsValue_indented]
  cases hlast : (assignments "kernelopts".toList (lines grubEnv)).getLast? with
  | some value =>
    rw [hlast] at henv
    simp only [henv, Option.isSome_some, if_true]
    rfl
  | none =>
    rw [hlast] at henv
    simp only [henv, Option.isSome_none, Bool.false_eq_true, if_false]
    rw [GrubVars.get_insertSome_self, GrubVars.get_insertSome_self, henv, Option.or_none]
    rfl

/-- **`kernelopts` is taken from the right place** exactly if the environment has it, or if the
escaped test does not interfere: where it sets a value, that is the right one, and where it sets
none, neither would the test itself have to. -/
theorem kernelopts_iff (grubEnv grubCfg : List Char) :
    (parseGrubEnvVars grubEnv grubCfg).get "kernelopts".toList = kernelopts grubEnv grubCfg ↔
      assignments "kernelopts".toList (lines grubEnv) ≠ [] ∨
      (∀ value, setAfter escapedTest (lines grubCfg) = some value →
        cfgKernelopts (lines grubCfg) = some value) ∧
      (setAfter escapedTest (lines grubCfg) = none →
        firstSet (lines grubCfg) ≠ none ∨ setAfter emptyTest (lines grubCfg) = none) := by
  rw [parseGrubEnvVars_kernelopts, kernelopts]
  rcases List.eq_nil_or_concat (assignments "kernelopts".toList (lines grubEnv)) with
    henv | ⟨values, value, henv⟩
  · rw [henv, cfgKernelopts]
    generalize firstSet (lines grubCfg) = set, setAfter emptyTest (lines grubCfg) = fallback
    cases setAfter escapedTest (lines grubCfg) with
    | some value => simp [eq_comm]
    | none => cases set <;> simp [eq_comm]
  · rw [henv]
    simp

/-- The test as GRUB has it is not found; the escaped one overrides what was set before. -/
theorem kernelopts_missed :
    let grubCfg := "if [ -z \"$\x7bkernelopts\x7d\" ]; then\n  set kernelopts=\"ro\"\nfi".toList
    let overridden := "set kernelopts=ro\nif [ -z \\\"$\x7bkernelopts\x7d\\\" ]; then\n".toList ++
      "  set kernelopts=quiet\nfi".toList
    kernelopts [] grubCfg = some "ro".toList ∧
      (parseGrubEnvVars [] grubCfg).get "kernelopts".toList = none ∧
      kernelopts [] overridden = some "ro".toList ∧
      (parseGrubEnvVars [] overridden).get "kernelopts".toList = some "quiet".toList := by
  decide +kernel

end CryptPilot.Fde
