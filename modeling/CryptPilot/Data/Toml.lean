import CryptPilot.Data.Except

/-!
# Records in TOML

A record is written as a table with one entry for each field, and read back field by field. What
reads a record decides what to do about a field that is missing, one that has a second name, and
entries that it does not know. A record that is flattened has its fields in the table of the record
around it, so whatever reads that table leaves the other entries to it.

Reading fails with one of the errors of `serde::de::Error`. Which of several errors of a table comes
first is not specified there.
-/

namespace CryptPilot.Data.Toml

inductive Value where
  | string (text : String)
  | boolean (b : Bool)
  | array (items : List Value)
  | table (entries : List (String × Value))
  /-- A number or a date. -/
  | other (text : String)

abbrev Table := List (String × Value)

/-- The keys of a table are distinct, at every level. -/
inductive Value.WellFormed : Value → Prop
  | string (text : String) : WellFormed (.string text)
  | boolean (b : Bool) : WellFormed (.boolean b)
  | other (text : String) : WellFormed (.other text)
  | array {items : List Value} (h : ∀ v ∈ items, WellFormed v) : WellFormed (.array items)
  | table {entries : List (String × Value)} (hkeys : (entries.map Prod.fst).Nodup)
      (h : ∀ e ∈ entries, WellFormed e.2) : WellFormed (.table entries)

@[simp] theorem wellFormed_string (text : String) : (Value.string text).WellFormed := .string text

@[simp] theorem wellFormed_boolean (b : Bool) : (Value.boolean b).WellFormed := .boolean b

theorem wellFormed_table {t : Table} : (Value.table t).WellFormed ↔
    (t.map Prod.fst).Nodup ∧ ∀ e ∈ t, e.2.WellFormed :=
  ⟨fun | .table hkeys h => ⟨hkeys, h⟩, fun h => .table h.1 h.2⟩

/-! ## Reading -/

inductive DeError where
  | custom (message : String)
  | invalidType (expected : String)
  | unknownVariant (variant : String)
  | unknownField (field : String)
  | missingField (field : String)
  | duplicateField (field : String)
  deriving DecidableEq

/-- A text format for tables: `to_string`, `to_string_pretty` and `from_str`. Reading gives back what
was written. -/
structure Format (Text : Type) where
  render : Table → Text
  renderPretty : Table → Text
  parse : Text → Except String Table
  /-- What is printed for an error. -/
  display : DeError → String
  parse_renderPretty : ∀ t, (Value.table t).WellFormed → parse (renderPretty t) = .ok t

/-- `from_str`, for a record. -/
def Format.fromStr {Text α : Type} (toml : Format Text) (deserialize : Table → Except DeError α)
    (text : Text) : Except String α := do
  let t ← toml.parse text
  (deserialize t).mapError toml.display

/-- How a value is read. -/
abbrev De (α : Type) := Value → Except DeError α

def deString : De String
  | .string text => .ok text
  | _ => .error (.invalidType "a string")

def deBool : De Bool
  | .boolean b => .ok b
  | _ => .error (.invalidType "a boolean")

def deArray {α : Type} (de : De α) : De (List α)
  | .array items => items.mapM de
  | _ => .error (.invalidType "a sequence")

def deTable {α : Type} (de : Table → Except DeError α) : De α
  | .table entries => de entries
  | _ => .error (.invalidType "a map")

namespace Table

variable {α : Type}

/-- The entries that have one of some names, and the others. -/
def only (t : Table) (names : List String) : Table := t.filter (·.1 ∈ names)

def rest (t : Table) (names : List String) : Table := t.filter (·.1 ∉ names)

/-- The value of a field, under any of its names. -/
def get (t : Table) (names : List String) : Except DeError (Option Value) :=
  match t.only names with
  | [] => .ok none
  | [(_, v)] => .ok (some v)
  | _ => .error (.duplicateField (names.headD ""))

def optional (t : Table) (names : List String) (de : De α) : Except DeError (Option α) := do
  match ← t.get names with
  | some v => some <$> de v
  | none => return none

def withDefault (t : Table) (names : List String) (default : α) (de : De α) :
    Except DeError α := do
  let a ← t.optional names de
  return a.getD default

def required (t : Table) (names : List String) (de : De α) : Except DeError α := do
  match ← t.optional names de with
  | some a => return a
  | none => throw (.missingField (names.headD ""))

/-- `deny_unknown_fields` -/
def denyUnknown : Table → Except DeError Unit
  | [] => .ok ()
  | (key, _) :: _ => .error (.unknownField key)

end Table

/-! ## Writing -/

def strings (items : List String) : Value := .array (items.map .string)

/-- A field that is left out if it has no value. -/
def optionalEntry (name : String) (value : Option Value) : Table :=
  value.toList.map fun v => (name, v)

@[simp] theorem wellFormed_strings (items : List String) : (strings items).WellFormed := by
  refine .array fun v hv => ?_
  obtain ⟨item, -, rfl⟩ := List.mem_map.mp hv
  exact .string item

namespace Table

variable (names : List String)

@[simp] theorem only_append (t t' : Table) : only (t ++ t') names = t.only names ++ t'.only names :=
  List.filter_append ..

@[simp] theorem rest_append (t t' : Table) : rest (t ++ t') names = t.rest names ++ t'.rest names :=
  List.filter_append ..

@[simp] theorem only_optionalEntry (name : String) (value : Option Value) :
    (optionalEntry name value).only names =
      if name ∈ names then optionalEntry name value else [] := by
  cases value with
  | none => simp [only, optionalEntry]
  | some v => by_cases h : name ∈ names <;> simp [only, optionalEntry, h]

@[simp] theorem rest_optionalEntry (name : String) (value : Option Value) :
    (optionalEntry name value).rest names =
      if name ∈ names then [] else optionalEntry name value := by
  cases value with
  | none => simp [rest, optionalEntry]
  | some v => by_cases h : name ∈ names <;> simp [rest, optionalEntry, h]

end Table

/-! ## Reading what was written -/

theorem deArray_strings (items : List String) : deArray deString (strings items) = .ok items := by
  show (items.map Value.string).mapM deString = .ok items
  induction items with
  | nil => rfl
  | cons item items ih =>
    rw [List.map_cons, List.mapM_cons, ih]
    rfl

namespace Table

variable {α : Type} {t : Table} {names : List String} {de : De α} {v : Value}

theorem get_of_only (name : String) {value : Option Value}
    (h : t.only names = optionalEntry name value) : t.get names = .ok value := by
  rw [get, h]
  cases value <;> rfl

theorem optional_of_get (h : t.get names = .ok (some v)) :
    t.optional names de = some <$> de v := by
  rw [optional, h]
  rfl

theorem required_of_get (h : t.get names = .ok (some v)) : t.required names de = de v := by
  rw [required, optional_of_get h]
  cases de v <;> rfl

theorem withDefault_of_get {default : α} (h : t.get names = .ok (some v)) :
    t.withDefault names default de = de v := by
  rw [withDefault, optional_of_get h]
  cases de v <;> rfl

/-- A field that may be left out is read back, but for values that cannot be read. -/
theorem optional_of_map {ser : α → Value} {bad : α → Bool} {e : DeError} {a : Option α}
    (h : t.get names = .ok (a.map ser))
    (hde : ∀ x, de (ser x) = if bad x then .error e else .ok x) :
    t.optional names de = if a.any bad then .error e else .ok a := by
  cases a with
  | none =>
    rw [optional, h]
    rfl
  | some x =>
    rw [optional_of_get h, hde x, Option.any_some]
    split_ifs <;> rfl

/-- It is read back, if all its values are. -/
theorem optional_of_forall {ser : α → Value} {a : Option α} (h : t.get names = .ok (a.map ser))
    (hde : ∀ x, de (ser x) = .ok x) : t.optional names de = .ok a := by
  have hnone : a.any (fun _ => false) = false := by cases a <;> rfl
  have hread := @optional_of_map α t names de ser (fun _ => false) (.custom "") a h hde
  rwa [hnone] at hread

end Table

end CryptPilot.Data.Toml
