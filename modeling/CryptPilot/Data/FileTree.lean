import Mathlib.Data.Set.Finite.Basic
import Mathlib.Data.List.Infix
import Mathlib.Data.Set.Finite.Lattice

/-!
# File trees

A tree of files says what there is at each place, and a place is the list of the names that lead to
it. Directories hold what is below them, and there are finitely many places.

A walk lists a directory and everything below it, depth first, with the entries of each directory in
any order. It lists each place once, and any file can be the last one (`exists_walkDir_last`).
-/

namespace CryptPilot.Data

/-- What there is at a place. Symbolic links have targets `τ`. -/
inductive Node (τ : Type) where
  | file (content : List UInt8)
  | link (target : τ)
  | dir
  deriving DecidableEq

/-- A place, from the root of the tree. -/
abbrev Place := List String

structure FileTree (τ : Type) where
  node : Place → Option (Node τ)
  root : node [] = some .dir
  parent : ∀ {place name}, node (place ++ [name]) ≠ none → node place = some .dir
  finite : {place | node place ≠ none}.Finite

namespace FileTree

variable {τ : Type} {tree : FileTree τ} {dir place : Place} {name : String}
  {names : List String} {listing : List Place}

theorem parent_append {rest : Place} (hrest : rest ≠ []) (h : tree.node (dir ++ rest) ≠ none) :
    tree.node dir = some .dir := by
  induction rest using List.reverseRecOn with
  | nil => exact absurd rfl hrest
  | append_singleton rest name ih =>
    rw [← List.append_assoc] at h
    have hparent := tree.parent h
    by_cases hnil : rest = []
    · rwa [hnil, List.append_nil] at hparent
    · exact ih hnil (by simp [hparent])

theorem ne_none {found : Node τ} (h : tree.node place = some found) : tree.node place ≠ none := by
  rw [h]
  exact Option.some_ne_none found

theorem parent_dropLast {found : Node τ} (h : tree.node place = some found) :
    tree.node place.dropLast = some .dir := by
  induction place using List.reverseRecOn with
  | nil => exact tree.root
  | append_singleton place name =>
    rw [List.dropLast_concat]
    exact tree.parent (ne_none h)

theorem entry_ne_none {rest : Place} (h : tree.node (dir ++ name :: rest) ≠ none) :
    tree.node (dir ++ [name]) ≠ none := by
  cases rest with
  | nil => exact h
  | cons next rest =>
    rw [List.append_cons] at h
    exact ne_none (parent_append (List.cons_ne_nil _ _) h)

/-- The tree of a list of places, besides the root. -/
def lookup (entries : List (Place × Node τ)) (place : Place) : Option (Node τ) :=
  if place = [] then some .dir else (entries.find? fun entry => entry.1 = place).map Prod.snd

theorem lookup_ne_none_iff {entries : List (Place × Node τ)} (hplace : place ≠ []) :
    lookup entries place ≠ none ↔ ∃ entry ∈ entries, entry.1 = place := by
  rw [lookup, if_neg hplace, ne_eq, Option.map_eq_none_iff, List.find?_eq_none]
  simp

def ofEntries (entries : List (Place × Node τ))
    (h : ∀ entry ∈ entries, lookup entries entry.1.dropLast = some .dir) : FileTree τ where
  node := lookup entries
  root := rfl
  parent := by
    intro place name hnode
    obtain ⟨entry, hentry, heq⟩ := (lookup_ne_none_iff (List.concat_ne_nil name place)).mp hnode
    have hparent := h entry hentry
    rwa [heq, List.dropLast_concat] at hparent
  finite := by
    refine ((entries.map Prod.fst).finite_toSet.insert []).subset fun place hplace => ?_
    by_cases hroot : place = []
    · exact .inl hroot
    · obtain ⟨entry, hentry, rfl⟩ := (lookup_ne_none_iff hroot).mp hplace
      exact .inr (List.mem_map_of_mem hentry)

/-! ## Walks -/

/-- The entries of a directory, in some order. -/
structure Lists (tree : FileTree τ) (dir : Place) (names : List String) : Prop where
  nodup : names.Nodup
  mem_iff : ∀ name, name ∈ names ↔ tree.node (dir ++ [name]) ≠ none

/-- The entries of a directory with the given names, each before what is below it. -/
inductive Walk (tree : FileTree τ) : Place → List String → List Place → Prop
  | nil (dir : Place) : Walk tree dir [] []
  | leaf {dir : Place} {name : String} {names : List String} {listing : List Place} :
      tree.node (dir ++ [name]) ≠ some .dir → Walk tree dir names listing →
      Walk tree dir (name :: names) ((dir ++ [name]) :: listing)
  | dir {dir : Place} {name : String} {inner names : List String} {below listing : List Place} :
      tree.node (dir ++ [name]) = some .dir → tree.Lists (dir ++ [name]) inner →
      Walk tree (dir ++ [name]) inner below → Walk tree dir names listing →
      Walk tree dir (name :: names) ((dir ++ [name]) :: (below ++ listing))

/-- A walk of a directory. The directory itself is not listed. -/
def WalkDir (tree : FileTree τ) (dir : Place) (listing : List Place) : Prop :=
  ∃ names, tree.Lists dir names ∧ tree.Walk dir names listing

/-- What is listed is below one of the entries. -/
theorem Walk.mem_iff (h : tree.Walk dir names listing)
    (hnames : ∀ name ∈ names, tree.node (dir ++ [name]) ≠ none) :
    place ∈ listing ↔
      ∃ name ∈ names, ∃ rest, place = dir ++ name :: rest ∧ tree.node place ≠ none := by
  induction h with
  | nil dir => simp
  | @leaf dir name names listing hleaf _ ih =>
    rw [List.forall_mem_cons] at hnames
    rw [List.mem_cons, ih hnames.2, List.exists_mem_cons_iff]
    refine or_congr_left ⟨?_, ?_⟩
    · rintro rfl
      exact ⟨[], rfl, hnames.1⟩
    · rintro ⟨rest, rfl, hplace⟩
      -- nothing is below a leaf
      cases rest with
      | nil => rfl
      | cons next rest =>
        rw [List.append_cons] at hplace
        exact absurd (parent_append (List.cons_ne_nil _ _) hplace) hleaf
  | @dir dir name inner names below listing hdir hlists _ _ ihbelow ih =>
    rw [List.forall_mem_cons] at hnames
    rw [List.mem_cons, List.mem_append, ih hnames.2, List.exists_mem_cons_iff, ← or_assoc,
      ihbelow fun name hname => (hlists.mem_iff name).mp hname]
    refine or_congr_left ⟨?_, ?_⟩
    · rintro (rfl | ⟨next, -, rest, rfl, hplace⟩)
      · exact ⟨[], rfl, hnames.1⟩
      · exact ⟨next :: rest, by simp, hplace⟩
    · rintro ⟨rest, rfl, hplace⟩
      cases rest with
      | nil => exact .inl rfl
      | cons next rest =>
        rw [List.append_cons] at hplace ⊢
        exact .inr ⟨next, (hlists.mem_iff next).mpr (entry_ne_none hplace), rest, rfl, hplace⟩

/-- **What a walk lists.** -/
theorem WalkDir.mem_iff (h : tree.WalkDir dir listing) :
    place ∈ listing ↔ ∃ name rest, place = dir ++ name :: rest ∧ tree.node place ≠ none := by
  obtain ⟨names, hlists, hwalk⟩ := h
  rw [hwalk.mem_iff fun name hname => (hlists.mem_iff name).mp hname]
  constructor
  · rintro ⟨name, -, rest, hplace⟩
    exact ⟨name, rest, hplace⟩
  · rintro ⟨name, rest, rfl, hplace⟩
    exact ⟨name, (hlists.mem_iff name).mpr (entry_ne_none hplace), rest, rfl, hplace⟩

/-! ## Any order -/

theorem exists_lists (tree : FileTree τ) (dir : Place) : ∃ names, tree.Lists dir names := by
  have hfinite : {name | tree.node (dir ++ [name]) ≠ none}.Finite := by
    refine tree.finite.preimage fun name _ name' _ heq => ?_
    exact List.singleton_inj.mp (List.append_cancel_left heq)
  refine ⟨hfinite.toFinset.toList, Finset.nodup_toList _, fun name => ?_⟩
  rw [Finset.mem_toList, Set.Finite.mem_toFinset]
  rfl

/-- One of the entries can be moved to the end. -/
theorem exists_lists_last (h : tree.node (dir ++ [name]) ≠ none) :
    ∃ names, tree.Lists dir (names ++ [name]) := by
  obtain ⟨names, hnodup, hmem⟩ := tree.exists_lists dir
  have hperm : (names.erase name ++ [name]).Perm names :=
    (List.perm_append_singleton _ _).trans (List.perm_cons_erase ((hmem name).mpr h)).symm
  exact ⟨names.erase name, hperm.nodup_iff.mpr hnodup, fun other => by rw [hperm.mem_iff, hmem]⟩

theorem Walk.append {names' : List String} {listing' : List Place} (h : tree.Walk dir names listing)
    (h' : tree.Walk dir names' listing') : tree.Walk dir (names ++ names') (listing ++ listing') := by
  induction h with
  | nil dir => exact h'
  | leaf hleaf _ ih => exact .leaf hleaf (ih h')
  | dir hdir hlists hbelow _ _ ih =>
    rw [List.cons_append, List.cons_append, List.append_assoc]
    exact .dir hdir hlists hbelow (ih h')

/-- The names that lead to a place are not more than some number. -/
theorem exists_depth (tree : FileTree τ) :
    ∃ depth, ∀ place, tree.node place ≠ none → place.length ≤ depth := by
  obtain ⟨depth, hdepth⟩ := (tree.finite.image List.length).bddAbove
  exact ⟨depth, fun place hplace => hdepth ⟨place, hplace, rfl⟩⟩

theorem exists_walk (tree : FileTree τ) (dir : Place) (names : List String)
    (hnames : ∀ name ∈ names, tree.node (dir ++ [name]) ≠ none) :
    ∃ listing, tree.Walk dir names listing := by
  obtain ⟨depth, hdepth⟩ := tree.exists_depth
  -- by how much deeper a place can be
  induction hrest : depth - dir.length using Nat.strong_induction_on generalizing dir names with
  | _ n ih =>
    induction names with
    | nil => exact ⟨[], .nil dir⟩
    | cons name names ihnames =>
      rw [List.forall_mem_cons] at hnames
      obtain ⟨listing, hwalk⟩ := ihnames hnames.2
      by_cases hdir : tree.node (dir ++ [name]) = some .dir
      · obtain ⟨inner, hlists⟩ := tree.exists_lists (dir ++ [name])
        have hlength := hdepth _ hnames.1
        rw [List.length_append, List.length_singleton] at hlength
        obtain ⟨below, hbelow⟩ := ih (depth - (dir ++ [name]).length)
          (by rw [List.length_append, List.length_singleton]; omega) (dir ++ [name]) inner
          (fun name hname => (hlists.mem_iff name).mp hname) rfl
        exact ⟨_, .dir hdir hlists hbelow hwalk⟩
      · exact ⟨_, .leaf hdir hwalk⟩

theorem exists_walkDir (tree : FileTree τ) (dir : Place) : ∃ listing, tree.WalkDir dir listing := by
  obtain ⟨names, hlists⟩ := tree.exists_lists dir
  obtain ⟨listing, hwalk⟩ := tree.exists_walk dir names fun name hname => (hlists.mem_iff name).mp hname
  exact ⟨listing, names, hlists, hwalk⟩

/-- **Anything that is no directory can come last.** -/
theorem exists_walkDir_last {rest : Place} (hnone : tree.node (dir ++ name :: rest) ≠ none)
    (hleaf : tree.node (dir ++ name :: rest) ≠ some .dir) :
    ∃ listing, tree.WalkDir dir (listing ++ [dir ++ name :: rest]) := by
  induction rest generalizing dir name with
  | nil =>
    obtain ⟨names, hlists⟩ := exists_lists_last hnone
    obtain ⟨listing, hwalk⟩ := tree.exists_walk dir names fun other hother =>
      (hlists.mem_iff other).mp (List.mem_append_left _ hother)
    exact ⟨listing, _, hlists, hwalk.append (.leaf hleaf (.nil dir))⟩
  | cons next rest ih =>
    obtain ⟨names, hlists⟩ := exists_lists_last (entry_ne_none hnone)
    rw [List.append_cons] at hnone hleaf ⊢
    have hdir : tree.node (dir ++ [name]) = some .dir := parent_append (List.cons_ne_nil _ _) hnone
    obtain ⟨listing, hwalk⟩ := tree.exists_walk dir names fun other hother =>
      (hlists.mem_iff other).mp (List.mem_append_left _ hother)
    obtain ⟨below, inner, hinner, hbelow⟩ := ih hnone hleaf
    have hlast := hwalk.append (.dir hdir hinner hbelow (.nil dir))
    rw [List.append_nil, ← List.cons_append, ← List.append_assoc] at hlast
    exact ⟨_, _, hlists, hlast⟩

end FileTree

end CryptPilot.Data
