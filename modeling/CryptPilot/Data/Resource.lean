import CryptPilot.Data.Prog
import Mathlib.Algebra.Order.Group.Multiset

/-!
# Programs that hold resources

Some calls acquire a resource, if the answer says so, and some release one. What is held is counted
along the calls. A program is `Linear` if it takes over what it is given, needs at each call only
what it holds, and hands over what it holds with its result. So a program that is given nothing and
hands over nothing has released in the end whatever it acquired, and once (`Linear.hands`).

This is about one program. Where the same resource is not given to two at once, programs that are
linear one by one do not touch what another one holds (`Interleaved.exclusive`).
-/

namespace CryptPilot.Data.Prog

variable {Op : Type} {Res : Op → Type} {α β ρ ι : Type} [DecidableEq ρ]

/-- What a call does to what is held. -/
inductive Use (ρ : Type) where
  | acquire (x : ρ)
  | release (x : ρ)
  | other

def Use.after : Use ρ → Multiset ρ → Multiset ρ
  | .acquire x, held => {x} + held
  | .release x, held => held.erase x
  | .other, held => held

/-- How operations use resources. An operation that releases a resource needs it. -/
structure Custody (Op : Type) (Res : Op → Type) (ρ : Type) where
  use : (op : Op) → Res op → Use ρ
  needs : Op → List ρ
  mem_needs : ∀ {op r x}, use op r = .release x → x ∈ needs op

namespace Custody

variable (C : Custody Op Res ρ)

def counts (held : Multiset ρ) (op : Op) (r : Res op) (held' : Multiset ρ) : Prop :=
  held' = (C.use op r).after held

/-- What is held after some calls. -/
def held (es : List (Event Op Res)) : Multiset ρ :=
  es.foldl (fun held e => (C.use e.op e.res).after held) 0

def Covers (held : Multiset ρ) (op : Op) : Prop := ∀ x ∈ C.needs op, x ∈ held

/-- An operation that acquires and releases nothing, and needs nothing. -/
def Neutral (op : Op) : Prop := C.needs op = [] ∧ ∀ r, C.use op r = .other

variable {C} {es es' : List (Event Op Res)}

theorem held_concat {e : Event Op Res} :
    C.held (es ++ [e]) = (C.use e.op e.res).after (C.held es) := by
  rw [held, List.foldl_concat]
  rfl

theorem steps_counts (es es' : List (Event Op Res)) :
    Steps C.counts (C.held es) es' (C.held (es ++ es')) := by
  induction es' using List.reverseRecOn with
  | nil =>
    rw [List.append_nil]
    exact .nil _
  | append_singleton es' e ih =>
    rw [← List.append_assoc]
    exact steps_concat.mpr ⟨_, ih, held_concat⟩

/-- What is held is determined by the calls. -/
theorem eq_held_of_steps {held : Multiset ρ} (h : Steps C.counts (C.held es) es' held) :
    held = C.held (es ++ es') := by
  induction es' using List.reverseRecOn generalizing held with
  | nil => rw [steps_nil.mp h, List.append_nil]
  | append_singleton es' e ih =>
    obtain ⟨t, hes', he⟩ := steps_concat.mp h
    rw [he, ih hes', ← List.append_assoc, held_concat]

theorem held_append_neutral (h : ∀ e ∈ es', C.Neutral e.op) : C.held (es ++ es') = C.held es := by
  induction es' using List.reverseRecOn with
  | nil => rw [List.append_nil]
  | append_singleton es' e ih =>
    rw [← List.append_assoc, held_concat, (h e (by simp)).2]
    exact ih fun e he => h e (List.mem_append_left _ he)

theorem held_neutral_append (h : ∀ e ∈ es, C.Neutral e.op) : C.held (es ++ es') = C.held es' := by
  have hes : C.held ([] ++ es) = C.held [] := held_append_neutral h
  rw [held, List.foldl_append]
  exact congrArg (List.foldl _ · es') hes

/-- Each call needs only what is held. -/
def Careful (C : Custody Op Res ρ) (es : List (Event Op Res)) : Prop :=
  ∀ pre e post, es = pre ++ e :: post → C.Covers (C.held pre) e.op

theorem Careful.of_append (h : C.Careful (es ++ es')) : C.Careful es := by
  rintro pre e post rfl
  exact h pre e (post ++ es') (by simp)

theorem Careful.last {e : Event Op Res} (h : C.Careful (es ++ [e])) : C.Covers (C.held es) e.op :=
  h es e [] rfl

end Custody

/-! ## One program -/

/-- A failure leaves something of `lost` behind. -/
def Custody.Hands (lost : Multiset ρ → Prop) (give : α → Multiset ρ) (rest : Multiset ρ) :
    Except String α → Multiset ρ → Prop
  | .ok a, held => held = give a + rest
  | .error _, held => ∃ left, lost left ∧ held = left + rest

/-- The program takes over `own`, and gives what belongs to its result. Whatever else is held stays
as it is. -/
def Linear (C : Custody Op Res ρ) (lost : Multiset ρ → Prop) (own : Multiset ρ)
    (give : α → Multiset ρ) (p : Prog Op Res α) : Prop :=
  ∀ rest, p.Safe C.counts C.Covers (Custody.Hands lost give rest) (own + rest)

section
variable {C : Custody Op Res ρ} {lost : Multiset ρ → Prop} {own extra : Multiset ρ}
  {give : α → Multiset ρ} {p : Prog Op Res α}

theorem Use.after_add {use : Use ρ} (h : ∀ x, use = .release x → x ∈ own) (rest : Multiset ρ) :
    use.after (own + rest) = use.after own + rest := by
  cases use with
  | acquire x => exact (add_assoc _ _ _).symm
  | release x => exact Multiset.erase_add_left_pos rest (h x rfl)
  | other => rfl

/-- A call needs only what the program has taken over. -/
theorem Linear.step {op : Op} {next : Res op → Prog Op Res α} (h : C.Covers own op)
    (hnext : ∀ r, Linear C lost ((C.use op r).after own) give (next r)) :
    Linear C lost own give (.step op next) := by
  refine fun rest => ⟨fun x hx => Multiset.mem_add.mpr (.inl (h x hx)), ?_⟩
  rintro r _ rfl
  rw [Use.after_add fun x hx => h x (C.mem_needs hx)]
  exact hnext r rest

/-- A call is all that is done, and its answer is the result. -/
theorem linear_done {r : Except String α} (hok : ∀ a, r = .ok a → own = give a)
    (herror : ∀ e, r = .error e → lost own) : Linear C lost own give (.done r) := by
  intro rest
  cases r with
  | ok a =>
    show own + rest = give a + rest
    rw [hok a rfl]
  | error e => exact ⟨own, herror e rfl, rfl⟩

/-- What is held in the end does not depend on whether the program fails. -/
theorem Linear.ignore (hp : Linear C (· = extra) own (fun _ => extra) p) :
    Linear C lost own (fun _ => extra) (attempt p) := by
  refine fun rest => safe_andThen.mpr ((hp rest).post fun r held hr => ?_)
  cases r with
  | ok a => exact hr
  | error e =>
    obtain ⟨_, rfl, rfl⟩ := hr
    exact rfl

theorem linear_pure {a : α} (h : own = give a) : Linear C lost own give (pure a) := by
  intro rest
  show own + rest = give a + rest
  rw [h]

theorem linear_fail {message : String} (h : lost own) : Linear C lost own give (fail message) :=
  fun _ => ⟨own, h, rfl⟩

/-- What is held in the end. -/
theorem Linear.hands {rest : Multiset ρ} {es es' : List (Event Op Res)} {r : Except String α}
    (h : Linear C lost own give p) (hes : C.held es = own + rest) (hpath : Path p es' (.done r)) :
    Custody.Hands lost give rest r (C.held (es ++ es')) := by
  have hsafe := h rest
  rw [← hes] at hsafe
  exact (hsafe.path hpath (Custody.steps_counts es es')).1

theorem Linear.hands_zero {es : List (Event Op Res)} {r : Except String α}
    (h : Linear C lost 0 give p) (hpath : Path p es (.done r)) :
    Custody.Hands lost give 0 r (C.held es) := by
  have hnil : C.held [] = 0 + 0 := (zero_add 0).symm
  exact h.hands hnil hpath

theorem Linear.careful (h : Linear C lost 0 give p) {q : Prog Op Res α} {es : List (Event Op Res)}
    (hpath : Path p es q) : C.Careful es := by
  intro pre e post hes
  obtain ⟨t, hpre, ht⟩ := ((h 0).path hpath (Custody.steps_counts [] es)).2 pre e post hes
  have hheld : t = C.held ([] ++ pre) := Custody.eq_held_of_steps hpre
  rw [hheld] at ht
  exact ht

theorem Linear.bind {M : α → Multiset ρ} {give : β → Multiset ρ} {f : α → Prog Op Res β}
    (hp : Linear C lost own M p) (hf : ∀ a, Linear C lost (M a) give (f a)) :
    Linear C lost own give (p >>= f) := by
  intro rest
  refine (hp rest).bind ?_ fun _ _ h => h
  rintro a _ rfl
  exact hf a rest

theorem Linear.mono {lost' : Multiset ρ → Prop} (hp : Linear C lost own give p)
    (h : ∀ left, lost left → lost' left) : Linear C lost' own give p := by
  refine fun rest => (hp rest).post fun r held hr => ?_
  cases r with
  | ok a => exact hr
  | error e =>
    obtain ⟨left, hleft, rfl⟩ := hr
    exact ⟨left, h left hleft, rfl⟩

theorem Linear.context {message : String} (hp : Linear C lost own give p) :
    Linear C lost own give (context message p) := by
  refine fun rest => (hp rest).context fun r held hr => ?_
  cases r with
  | ok a => exact hr
  | error e => exact hr

/-- Something more is left behind. -/
def Custody.Beside (extra : Multiset ρ) (lost : Multiset ρ → Prop) (left : Multiset ρ) : Prop :=
  ∃ less, lost less ∧ left = less + extra

omit [DecidableEq ρ] in
theorem hands_beside {r : Except String α} {rest held : Multiset ρ} :
    Custody.Hands (Custody.Beside extra lost) (fun a => give a + extra) rest r held ↔
      Custody.Hands lost give (extra + rest) r held := by
  cases r with
  | ok a => exact Eq.congr_right (add_assoc _ _ _)
  | error e =>
    constructor
    · rintro ⟨_, ⟨less, hless, rfl⟩, rfl⟩
      exact ⟨less, hless, add_assoc _ _ _⟩
    · rintro ⟨less, hless, rfl⟩
      exact ⟨_, ⟨less, hless, rfl⟩, (add_assoc _ _ _).symm⟩

/-- **The frame rule.** -/
theorem Linear.frame (hp : Linear C lost own give p) (extra : Multiset ρ) :
    Linear C (Custody.Beside extra lost) (own + extra) (fun a => give a + extra) p := by
  intro rest
  rw [add_assoc]
  exact (hp (extra + rest)).post fun r held hr => hands_beside.mpr hr

theorem Linear.within (hp : Linear C lost 0 give p) (extra : Multiset ρ) :
    Linear C (Custody.Beside extra lost) extra (fun a => give a + extra) p := by
  have hframe := hp.frame extra
  rwa [zero_add] at hframe

/-- The frame rule for a program that does not fail. -/
theorem Linear.beside (hp : Linear C (fun _ => False) own give p) (extra : Multiset ρ) :
    Linear C lost (own + extra) (fun a => give a + extra) p := by
  refine (hp.frame extra).mono ?_
  rintro _ ⟨_, hfalse, _⟩
  exact hfalse.elim

/-- A cleanup releases `extra`, whatever has come before. -/
theorem Linear.cleanup {q : Prog Op Res β} (hq : Linear C (· = 0) extra (fun _ => 0) q)
    {r : Except String α} {rest held : Multiset ρ}
    (hr : Custody.Hands lost give (extra + rest) r held) :
    (q.andThen fun _ => .done r).Safe C.counts C.Covers (Custody.Hands lost give rest) held := by
  obtain ⟨own, rfl, hown⟩ : ∃ own, held = extra + (own + rest) ∧
      Custody.Hands lost give rest r (own + rest) := by
    cases r with
    | ok a => exact ⟨give a, hr.trans (add_left_comm _ _ _), rfl⟩
    | error e =>
      obtain ⟨left, hleft, rfl⟩ := hr
      exact ⟨left, add_left_comm _ _ _, left, hleft, rfl⟩
  refine safe_andThen.mpr ((hq (own + rest)).post fun r' held' hr' => ?_)
  have hheld' : held' = own + rest := by
    cases r' with
    | ok b => exact hr'.trans (zero_add _)
    | error e =>
      obtain ⟨_, rfl, rfl⟩ := hr'
      exact zero_add _
  rw [hheld']
  exact hown

/-- What is still held is released in any case. -/
theorem Linear.ensuring {q : Prog Op Res β}
    (hp : Linear C (Custody.Beside extra lost) own (fun a => give a + extra) p)
    (hq : Linear C (· = 0) extra (fun _ => 0) q) : Linear C lost own give (ensuring p q) :=
  fun rest => safe_andThen.mpr ((hp rest).post fun _ _ hr => hq.cleanup (hands_beside.mp hr))

/-- What is left behind by a failure is released. -/
theorem Linear.onError {q : Prog Op Res β} (hp : Linear C (Custody.Beside extra lost) own give p)
    (hq : Linear C (· = 0) extra (fun _ => 0) q) : Linear C lost own give (onError p q) := by
  refine fun rest => safe_andThen.mpr ((hp rest).post fun r held hr => ?_)
  cases r with
  | ok a => exact hr
  | error e =>
    obtain ⟨_, ⟨less, hless, rfl⟩, rfl⟩ := hr
    exact hq.cleanup (r := .error e) ⟨less, hless, add_assoc _ _ _⟩

/-- A program that does not use resources. -/
theorem Linear.of_neutral (hp : p.Calls C.Neutral) (h : lost own) :
    Linear C lost own (fun _ => own) p := by
  intro rest
  refine (hp.safe (I := (· = own + rest)) ?_ ?_ rfl).post fun r held hr => ?_
  · rintro s op r s' hop rfl rfl
    rw [hop.2]
    rfl
  · intro s op hop _ x hx
    rw [hop.1] at hx
    cases hx
  · cases r with
    | ok a => exact hr
    | error e => exact ⟨own, h, hr⟩

/-- A scope: what was acquired for it is released at its end. -/
theorem Linear.scope {q : Prog Op Res β} (hp : Linear C lost 0 give p)
    (hq : Linear C (· = 0) extra (fun _ => 0) q) :
    Linear C lost extra give (Prog.ensuring p q) :=
  .ensuring (hp.within extra) hq

end

/-! ## Many programs -/

section
variable [DecidableEq ι] {C : Custody Op Res ρ}

/-- A resource of `single` is not given to anyone while it is taken. It can stay taken when it is
released. -/
def Custody.Grants (C : Custody Op Res ρ) (single : Set ρ) (taken : Set ρ) (op : Op) (r : Res op)
    (taken' : Set ρ) : Prop :=
  match C.use op r with
  | .acquire x => (x ∈ single → x ∉ taken) ∧ taken' = insert x taken
  | .release x => taken' = taken \ {x} ∨ taken' = taken
  | .other => taken' = taken

omit [DecidableEq ρ] in
theorem Custody.grants_acquire {single taken : Set ρ} {op : Op} {r : Res op} {x : ρ}
    (huse : C.use op r = .acquire x) (hx : x ∉ taken) :
    C.Grants single taken op r (insert x taken) := by
  rw [Grants, huse]
  exact ⟨fun _ => hx, rfl⟩

omit [DecidableEq ρ] in
theorem Custody.grants_release {single taken : Set ρ} {op : Op} {r : Res op} {x : ρ}
    (huse : C.use op r = .release x) : C.Grants single taken op r (taken \ {x}) := by
  rw [Grants, huse]
  exact .inl rfl

omit [DecidableEq ρ] in
theorem Custody.grants_other {single taken : Set ρ} {op : Op} {r : Res op}
    (huse : C.use op r = .other) : C.Grants single taken op r taken := by
  rw [Grants, huse]

theorem Custody.held_eventsOf_concat {i j : ι} {e : Event Op Res} {es : List (ι × Event Op Res)} :
    C.held (eventsOf j (es ++ [(i, e)])) =
      if i = j then (C.use e.op e.res).after (C.held (eventsOf i es)) else C.held (eventsOf j es) := by
  rw [eventsOf_append]
  split_ifs with hij
  · subst hij
    rw [← held_concat]
    simp [eventsOf]
  · simp [eventsOf, hij]

/-- One of the programs holds `x` at most, and it holds it once. -/
structure Custody.AtMostOne (C : Custody Op Res ρ) (x : ρ) (es : List (ι × Event Op Res))
    (taken : Set ρ) : Prop where
  taken : ∀ i, x ∈ C.held (eventsOf i es) → x ∈ taken
  once : ∀ i, (C.held (eventsOf i es)).count x ≤ 1
  unique : ∀ i j, x ∈ C.held (eventsOf i es) → x ∈ C.held (eventsOf j es) → i = j

theorem Custody.AtMostOne.of_none {x : ρ} {es : List (ι × Event Op Res)} {taken : Set ρ}
    (h : ∀ i, x ∉ C.held (eventsOf i es)) : C.AtMostOne x es taken where
  taken i hi := (h i hi).elim
  once i := by
    rw [Multiset.count_eq_zero_of_notMem (h i)]
    exact Nat.zero_le 1
  unique i _ hi := (h i hi).elim

/-- A call that has nothing to do with `x`. -/
theorem Custody.AtMostOne.of_count {x : ρ} {es es' : List (ι × Event Op Res)} {taken taken' : Set ρ}
    (h : C.AtMostOne x es taken) (htaken : x ∈ taken → x ∈ taken')
    (hcount : ∀ i, (C.held (eventsOf i es')).count x = (C.held (eventsOf i es)).count x) :
    C.AtMostOne x es' taken' := by
  have hmem (i : ι) : x ∈ C.held (eventsOf i es') ↔ x ∈ C.held (eventsOf i es) := by
    rw [← Multiset.count_pos, hcount, Multiset.count_pos]
  refine ⟨fun i hi => htaken (h.taken i ((hmem i).mp hi)), fun i => ?_, fun i j hi hj => ?_⟩
  · rw [hcount]
    exact h.once i
  · exact h.unique i j ((hmem i).mp hi) ((hmem j).mp hj)

theorem Custody.AtMostOne.concat {single taken taken' : Set ρ} {x : ρ} (hx : x ∈ single)
    {es : List (ι × Event Op Res)} {i : ι} {e : Event Op Res} (h : C.AtMostOne x es taken)
    (hcovers : C.Covers (C.held (eventsOf i es)) e.op)
    (he : C.Grants single taken e.op e.res taken') : C.AtMostOne x (es ++ [(i, e)]) taken' := by
  rw [Custody.Grants] at he
  cases huse : C.use e.op e.res with
  | acquire y =>
    rw [huse] at he
    obtain ⟨hfree, rfl⟩ := he
    by_cases hxy : x = y
    · subst hxy
      -- nobody has it yet
      have hnone (j : ι) : x ∉ C.held (eventsOf j es) := fun hj => hfree hx (h.taken j hj)
      have honly (j : ι) (hj : x ∈ C.held (eventsOf j (es ++ [(i, e)]))) : i = j := by
        rw [Custody.held_eventsOf_concat] at hj
        by_contra hij
        rw [if_neg hij] at hj
        exact hnone j hj
      refine ⟨fun _ _ => Set.mem_insert _ _, fun j => ?_, fun j k hj hk => ?_⟩
      · rw [Custody.held_eventsOf_concat, huse]
        split_ifs with hij
        · rw [Use.after, Multiset.count_add, Multiset.count_singleton_self,
            Multiset.count_eq_zero_of_notMem (hnone i)]
        · rw [Multiset.count_eq_zero_of_notMem (hnone j)]
          exact Nat.zero_le 1
      · exact (honly j hj).symm.trans (honly k hk)
    · refine h.of_count (Set.mem_insert_of_mem _) fun j => ?_
      rw [Custody.held_eventsOf_concat, huse]
      split_ifs with hij
      · subst hij
        rw [Use.after, Multiset.count_add, Multiset.count_singleton, if_neg hxy, zero_add]
      · rfl
  | release y =>
    rw [huse] at he
    by_cases hxy : x = y
    · subst hxy
      -- the program that releases it is the one that has it
      have hi := hcovers x (C.mem_needs huse)
      refine .of_none fun j hj => ?_
      rw [Custody.held_eventsOf_concat, huse] at hj
      split_ifs at hj with hij
      · have hpos := Multiset.count_pos.mpr hj
        have honce := h.once i
        rw [Use.after, Multiset.count_erase_self] at hpos
        omega
      · exact hij (h.unique i j hi hj)
    · refine h.of_count (fun hmem => ?_) fun j => ?_
      · rcases he with rfl | rfl
        · exact ⟨hmem, hxy⟩
        · exact hmem
      · rw [Custody.held_eventsOf_concat, huse]
        split_ifs with hij
        · subst hij
          rw [Use.after, Multiset.count_erase_of_ne hxy]
        · rfl
  | other =>
    rw [huse] at he
    refine h.of_count (fun hmem => he ▸ hmem) fun j => ?_
    rw [Custody.held_eventsOf_concat, huse]
    split_ifs with hij
    · subst hij
      rfl
    · rfl

theorem Custody.atMostOne {single taken taken' : Set ρ} {x : ρ} (hx : x ∈ single)
    {es : List (ι × Event Op Res)} (hcareful : ∀ i, C.Careful (eventsOf i es))
    (hsteps : Steps (C.Grants single) taken (es.map Prod.snd) taken') :
    C.AtMostOne x es taken' := by
  induction es using List.reverseRecOn generalizing taken' with
  | nil => exact .of_none fun i => Multiset.notMem_zero x
  | append_singleton es e ih =>
    obtain ⟨i, e⟩ := e
    rw [List.map_append, List.map_singleton] at hsteps
    obtain ⟨t, hes, he⟩ := steps_concat.mp hsteps
    have hlast := hcareful i
    have hbefore (j : ι) : C.Careful (eventsOf j es) := by
      have hj := hcareful j
      rw [eventsOf_append] at hj
      exact hj.of_append
    rw [eventsOf_append, eventsOf_cons_self] at hlast
    exact (ih hbefore hes).concat hx hlast.last he

/-- **The rule for many programs.** What a call needs is held by the program that makes it, and by no
other one. -/
theorem Interleaved.exclusive {lost : ι → Multiset ρ → Prop} {give : ι → α → Multiset ρ}
    {single taken taken' : Set ρ} {ps qs : ι → Prog Op Res α} {pre post : List (ι × Event Op Res)}
    {i : ι} {e : Event Op Res} (h : Interleaved ps (pre ++ (i, e) :: post) qs)
    (hps : ∀ i, Linear C (lost i) 0 (give i) (ps i))
    (hsteps : Steps (C.Grants single) taken ((pre ++ (i, e) :: post).map Prod.snd) taken') {x : ρ}
    (hx : x ∈ C.needs e.op) :
    x ∈ C.held (eventsOf i pre) ∧ (x ∈ single → ∀ j ≠ i, x ∉ C.held (eventsOf j pre)) := by
  have hcareful (j : ι) : C.Careful (eventsOf j (pre ++ (i, e) :: post)) :=
    (hps j).careful (h.path j)
  have hi : x ∈ C.held (eventsOf i pre) := by
    refine hcareful i _ e (eventsOf i post) ?_ x hx
    rw [eventsOf_append, eventsOf_cons_self]
  refine ⟨hi, fun hsingle j hij hj => ?_⟩
  have hbefore (j : ι) : C.Careful (eventsOf j pre) := by
    have hj := hcareful j
    rw [eventsOf_append] at hj
    exact hj.of_append
  rw [List.map_append] at hsteps
  obtain ⟨t, hpre, -⟩ := steps_append.mp hsteps
  exact hij ((Custody.atMostOne hsingle hbefore hpre).unique j i hj hi)

end

end CryptPilot.Data.Prog
