import CryptPilot.Data.FileTree

/-!
# Walking along a path

How an operating system finds what a path leads to, component by component. A symbolic link is
replaced by its target, and the walk goes on from the directory of the link, or from the root if the
target is absolute. The number of links that are followed on the way is limited.

Whether a link at the very end is followed is up to the caller, as `lstat` and `open` differ in that.
-/

namespace CryptPilot.Data.PathWalk

/-- A component of a path. There are no `.` components. -/
inductive Component where
  | normal (name : String)
  | parentDir
  deriving DecidableEq

/-- A path by its components. -/
structure PathBuf where
  isAbsolute : Bool
  components : List Component
  deriving DecidableEq

/-- An absolute path takes the place of the other one. -/
def PathBuf.join (self path : PathBuf) : PathBuf :=
  if path.isAbsolute then path else { self with components := self.components ++ path.components }

/-- The components of a place. -/
def normals (place : Place) : List Component := place.map .normal

/-- Why something can not be found or read. -/
inductive IoError where
  | notFound
  | notADirectory
  | isADirectory
  | tooManyLinks
  deriving DecidableEq

section
variable (node : Place → Option (Node PathBuf))

/-- A walk up to the first link, where `next` takes over. -/
def resolveWith (next : Place → List Component → Except IoError Place) (followLast : Bool) :
    Place → List Component → Except IoError Place
  | place, [] => .ok place
  | place, .parentDir :: rest =>
    if node place = some .dir then resolveWith next followLast place.dropLast rest
    else .error .notADirectory
  | place, .normal name :: rest =>
    if node place = some .dir then
      match node (place ++ [name]) with
      | none => .error .notFound
      | some (.link target) =>
        if rest = [] ∧ followLast = false then .ok (place ++ [name])
        else next (if target.isAbsolute then [] else place) (target.components ++ rest)
      | some _ => resolveWith next followLast (place ++ [name]) rest
    else .error .notADirectory

/-- Where a path leads to if at most some number of links are followed. -/
def resolve (followLast : Bool) : Nat → Place → List Component → Except IoError Place
  | 0 => resolveWith node (fun _ _ => .error .tooManyLinks) followLast
  | budget + 1 => resolveWith node (resolve followLast budget) followLast

end

section
variable {node : Place → Option (Node PathBuf)} {followLast : Bool} {budget : Nat} {place : Place}
  {name : String} {target : PathBuf} {rest : List Component}

/-- What can be at the next place. -/
theorem none_or_link_or_not (found : Option (Node PathBuf)) :
    found = none ∨ (∃ node, found = some node ∧ ∀ target, node ≠ .link target) ∨
      ∃ target, found = some (.link target) := by
  rcases found with _ | _ | target | _
  · exact .inl rfl
  · exact .inr (.inl ⟨_, rfl, nofun⟩)
  · exact .inr (.inr ⟨target, rfl⟩)
  · exact .inr (.inl ⟨_, rfl, nofun⟩)

@[simp] theorem resolve_nil : resolve node followLast budget place [] = .ok place := by
  cases budget <;> rfl

theorem resolve_of_not_dir (h : node place ≠ some .dir) (hrest : rest ≠ []) :
    resolve node followLast budget place rest = .error .notADirectory := by
  cases rest with
  | nil => exact absurd rfl hrest
  | cons component rest => cases component <;> cases budget <;> exact if_neg h

theorem resolve_parentDir (h : node place = some .dir) :
    resolve node followLast budget place (.parentDir :: rest) =
      resolve node followLast budget place.dropLast rest := by
  cases budget <;> exact if_pos h

theorem resolve_of_none (hdir : node place = some .dir) (h : node (place ++ [name]) = none) :
    resolve node followLast budget place (.normal name :: rest) = .error .notFound := by
  cases budget <;> rw [resolve, resolveWith, if_pos hdir, h]

theorem resolve_of_not_link (hdir : node place = some .dir) {found : Node PathBuf}
    (h : node (place ++ [name]) = some found) (hlink : ∀ target, found ≠ .link target) :
    resolve node followLast budget place (.normal name :: rest) =
      resolve node followLast budget (place ++ [name]) rest := by
  cases found with
  | link target => exact absurd rfl (hlink target)
  | file content => cases budget <;> rw [resolve, resolveWith, if_pos hdir, h]
  | dir => cases budget <;> rw [resolve, resolveWith, if_pos hdir, h]

/-- A link at the end. -/
theorem resolve_link_last (hdir : node place = some .dir)
    (h : node (place ++ [name]) = some (.link target)) :
    resolve node false budget place [.normal name] = .ok (place ++ [name]) := by
  cases budget <;> rw [resolve, resolveWith, if_pos hdir, h] <;> exact if_pos ⟨rfl, rfl⟩

/-- A link on the way, with nothing left of the limit. -/
theorem resolve_link_zero (hdir : node place = some .dir)
    (h : node (place ++ [name]) = some (.link target)) (hrest : rest ≠ []) :
    resolve node followLast 0 place (.normal name :: rest) = .error .tooManyLinks := by
  rw [resolve, resolveWith, if_pos hdir, h]
  exact if_neg fun hlast => hrest hlast.1

/-- A link on the way. -/
theorem resolve_link_succ (hdir : node place = some .dir)
    (h : node (place ++ [name]) = some (.link target)) (hrest : rest ≠ []) :
    resolve node followLast (budget + 1) place (.normal name :: rest) =
      resolve node followLast budget (if target.isAbsolute then [] else place)
        (target.components ++ rest) := by
  rw [resolve, resolveWith, if_pos hdir, h]
  exact if_neg fun hlast => hrest hlast.1

/-- The names of a directory lead to it. -/
theorem resolve_normals {tree : FileTree PathBuf} {base dir : Place}
    (h : tree.node (base ++ dir) = some .dir) :
    resolve tree.node followLast budget base (normals dir ++ rest) =
      resolve tree.node followLast budget (base ++ dir) rest := by
  induction dir generalizing base with
  | nil => rw [List.append_nil]; rfl
  | cons name dir ih =>
    have hne : tree.node (base ++ name :: dir) ≠ none := FileTree.ne_none h
    have hbase : tree.node base = some .dir := FileTree.parent_append (List.cons_ne_nil _ _) hne
    have hname : tree.node (base ++ [name]) = some .dir := by
      cases dir with
      | nil => exact h
      | cons next dir =>
        rw [List.append_cons] at hne
        exact FileTree.parent_append (List.cons_ne_nil _ _) hne
    rw [List.append_cons] at h ⊢
    rw [← ih h]
    exact resolve_of_not_link hbase hname nofun

/-! ## Walks without links -/

/-- A walk on which no link is followed. There may be one at its end. -/
inductive Arrives (node : Place → Option (Node PathBuf)) : Place → List Component → Place → Prop
  | nil (place : Place) : Arrives node place [] place
  | parentDir {place last : Place} {rest : List Component} : node place = some .dir →
      Arrives node place.dropLast rest last → Arrives node place (.parentDir :: rest) last
  | normal {place last : Place} {name : String} {rest : List Component} {found : Node PathBuf} :
      node place = some .dir → node (place ++ [name]) = some found →
      (∀ target, found ≠ .link target) → Arrives node (place ++ [name]) rest last →
      Arrives node place (.normal name :: rest) last
  | link {place : Place} {name : String} {target : PathBuf} : node place = some .dir →
      node (place ++ [name]) = some (.link target) →
      Arrives node place [.normal name] (place ++ [name])

section
variable {last : Place} {components : List Component}

theorem Arrives.drop_normals {names : Place} (h : Arrives node place (normals names ++ components) last)
    (hlast : components ≠ [] ∨ ∀ target, node (place ++ names) ≠ some (.link target)) :
    Arrives node (place ++ names) components last := by
  induction names generalizing place with
  | nil =>
    rw [List.append_nil]
    exact h
  | cons name names ih =>
    rw [List.append_cons] at hlast ⊢
    generalize hcomponents : normals (name :: names) ++ components = all at h
    cases h with
    | nil => cases hcomponents
    | parentDir => cases hcomponents
    | normal hdir hname hlink h =>
      cases hcomponents
      exact ih h hlast
    | @link _ _ target hdir hname =>
      obtain ⟨hhead, htail⟩ := List.cons.inj hcomponents
      cases hhead
      obtain ⟨hnames, rfl⟩ := List.append_eq_nil_iff.mp htail
      obtain rfl : names = [] := List.map_eq_nil_iff.mp hnames
      rw [List.append_nil] at hlast
      rcases hlast with hne | hne
      · exact absurd rfl hne
      · exact absurd hname (hne target)

theorem Arrives.resolve_eq_ok (h : Arrives node place components last) (budget : Nat) :
    resolve node false budget place components = .ok last := by
  induction h with
  | nil place => exact resolve_nil
  | parentDir hdir _ ih => rw [resolve_parentDir hdir, ih]
  | normal hdir hname hlink _ ih => rw [resolve_of_not_link hdir hname hlink, ih]
  | link hdir hname => exact resolve_link_last hdir hname

theorem Arrives.unique {last' : Place} (h : Arrives node place components last)
    (h' : Arrives node place components last') : last' = last :=
  Except.ok.inj ((h'.resolve_eq_ok 0).symm.trans (h.resolve_eq_ok 0))

theorem Arrives.length_le (h : Arrives node place components last) :
    last.length ≤ place.length + components.length := by
  induction h with
  | nil => exact Nat.le_add_right _ _
  | parentDir _ _ ih =>
    rw [List.length_dropLast] at ih
    rw [List.length_cons]
    omega
  | normal _ _ _ _ ih =>
    rw [List.length_append, List.length_singleton] at ih
    rw [List.length_cons]
    omega
  | link _ _ => exact (List.length_append ..).le

/-- What comes behind a walk that does not end at a link. -/
theorem Arrives.resolve_append (h : Arrives node place components last)
    (hlast : ∀ target, node last ≠ some (.link target)) :
    resolve node followLast budget place (components ++ rest) =
      resolve node followLast budget last rest := by
  induction h with
  | nil place => rfl
  | parentDir hdir _ ih => rw [List.cons_append, resolve_parentDir hdir, ih hlast]
  | normal hdir hname hlink _ ih =>
    rw [List.cons_append, resolve_of_not_link hdir hname hlink, ih hlast]
  | link hdir hname => exact absurd hname (hlast _)

/-- What comes behind a walk that ends at a link. -/
theorem Arrives.resolve_append_link {tree : FileTree PathBuf}
    (h : Arrives tree.node place components last)
    (hplace : ∀ target, tree.node place ≠ some (.link target))
    (hlast : tree.node last = some (.link target)) (hrest : rest ≠ []) (followLast : Bool)
    (budget : Nat) :
    resolve tree.node followLast 0 place (components ++ rest) = .error .tooManyLinks ∧
      resolve tree.node followLast (budget + 1) place (components ++ rest) =
        resolve tree.node followLast budget (if target.isAbsolute then [] else last.dropLast)
          (target.components ++ rest) := by
  induction h with
  | nil place => exact absurd hlast (hplace target)
  | @parentDir place last components hdir _ ih =>
    have hparent := FileTree.parent_dropLast hdir
    rw [List.cons_append, resolve_parentDir hdir, resolve_parentDir hdir]
    exact ih (by simp [hparent]) hlast
  | normal hdir hname hlink _ ih =>
    rw [List.cons_append, resolve_of_not_link hdir hname hlink, resolve_of_not_link hdir hname hlink]
    exact ih (fun target heq => hlink target (Option.some.inj (hname.symm.trans heq))) hlast
  | link hdir hname =>
    rw [hname] at hlast
    cases hlast
    rw [List.dropLast_concat]
    exact ⟨resolve_link_zero hdir hname hrest, resolve_link_succ hdir hname hrest⟩

end

/-- **A link that is on the way of a longer path counts.** So a path to it needs less of the
limit. -/
theorem budget_of_append {tree : FileTree PathBuf} {limit : Nat} {found last : Place}
    {components more : List Component} (hmore : more ≠ [])
    (hplace : ∀ target, tree.node place ≠ some (.link target))
    (hfound : resolve tree.node false limit place components = .ok found)
    (hlink : tree.node found = some (.link target))
    (h : resolve tree.node followLast budget place (components ++ more) = .ok last) :
    ∃ less, budget = less + 1 ∧ resolve tree.node false less place components = .ok found := by
  induction limit using Nat.strong_induction_on generalizing place components budget with
  | _ limit ih =>
  induction components generalizing place with
  | nil =>
    rw [resolve_nil] at hfound
    cases hfound
    exact absurd hlink (hplace target)
  | cons component rest ihrest =>
    rw [List.cons_append] at h
    by_cases hdir : tree.node place = some .dir
    swap
    · rw [resolve_of_not_dir hdir (List.cons_ne_nil _ _)] at hfound
      cases hfound
    cases component with
    | parentDir =>
      have hparent := FileTree.parent_dropLast hdir
      rw [resolve_parentDir hdir] at hfound h
      obtain ⟨less, rfl, hless⟩ := ihrest (by simp [hparent]) hfound h
      exact ⟨less, rfl, by rw [resolve_parentDir hdir, hless]⟩
    | normal name =>
      rcases none_or_link_or_not (tree.node (place ++ [name])) with
        hname | ⟨node, hname, hnot⟩ | ⟨other, hname⟩
      · rw [resolve_of_none hdir hname] at hfound
        cases hfound
      · rw [resolve_of_not_link hdir hname hnot] at hfound h
        obtain ⟨less, rfl, hless⟩ := ihrest (by simpa [hname] using hnot) hfound h
        exact ⟨less, rfl, by rw [resolve_of_not_link hdir hname hnot, hless]⟩
      · -- the walk along `components` may end here, the longer one goes on
        cases budget with
        | zero =>
          rw [resolve_link_zero hdir hname (by simp [hmore])] at h
          cases h
        | succ less =>
          by_cases hrest : rest = []
          · subst hrest
            rw [resolve_link_last hdir hname] at hfound
            cases hfound
            exact ⟨less, rfl, resolve_link_last hdir hname⟩
          cases limit with
          | zero =>
            rw [resolve_link_zero hdir hname hrest] at hfound
            cases hfound
          | succ limit =>
            rw [resolve_link_succ hdir hname hrest] at hfound
            rw [resolve_link_succ hdir hname (by simp [hmore]), ← List.append_assoc] at h
            have hstart : tree.node (if other.isAbsolute then [] else place) = some .dir := by
              split_ifs
              · exact tree.root
              · exact hdir
            obtain ⟨less, rfl, hless⟩ := ih limit (Nat.lt_succ_self _) (by simp [hstart]) hfound h
            exact ⟨less + 1, rfl, by rw [resolve_link_succ hdir hname hrest, hless]⟩

end

end CryptPilot.Data.PathWalk
