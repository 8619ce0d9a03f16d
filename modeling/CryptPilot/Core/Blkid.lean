import CryptPilot.Core.Luks2
import CryptPilot.Data.Text

/-!
# The output of `blkid -p`

`fs/blkid.rs`. One line has the path of the device and then fields, each a key and a value in
quotes. `parse_blkid_field` looks for the first occurrence of `KEY="` in the line, so it also stops
at a key that ends with the requested one, as `PTTYPE` does with `TYPE`, and at a value that ends
with `KEY=`, where the quote is the closing one.

`parseBlkidField_iff` says when the answer is right all the same.
-/

namespace CryptPilot.Core

open CryptPilot.Data CryptPilot.Data.Text

def parseBlkidField (output key : List Char) : Option (List Char) := do
  let pattern := key ++ ['=', '"']
  let start := (← find pattern output) + pattern.length
  let rest := output.drop start
  let stop ← find ['"'] rest
  return rest.take stop

/-- What a device is, from its fields. An atari partition table is a known false positive. -/
def BlkidProbeResult.ofFields (fsType ptType subsystem : Option (List Char)) : BlkidProbeResult :=
  if ptType = some "atari".toList ∧ fsType = none then .noSignatures
  else .knownSignature (fsType.map .ofList) (ptType.map .ofList) (subsystem.map .ofList)

/-- What `probe_device` makes of the exit code and the output of `blkid`. -/
def probeDeviceStatus (code : Int) (stdout stderr : Bytes) : Except String BlkidProbeResult :=
  if code = 0 then
    let trimmed := trim isWhitespace (fromUtf8Lossy stdout).toList
    let fsType := parseBlkidField trimmed "TYPE".toList
    let ptType := parseBlkidField trimmed "PTTYPE".toList
    let subsystem := parseBlkidField trimmed "SUBSYSTEM".toList
    .ok (.ofFields fsType ptType subsystem)
  else if code = 2 then .ok .noSignatures
  else
    let stdout := String.ofList (trim isWhitespace (fromUtf8Lossy stdout).toList)
    let stderr := String.ofList (trim isWhitespace (fromUtf8Lossy stderr).toList)
    .error s!"blkid probe failed with exit code {code}: stdout='{stdout}', stderr='{stderr}'"

/-! ## From quote to quote -/

section
variable {key x rest : List Char}

/-- The text up to the next quote. -/
def untilQuote (text : List Char) : Option (List Char) := (find ['"'] text).map text.take

theorem untilQuote_append (hx : '"' ∉ x) : untilQuote (x ++ '"' :: rest) = some x := by
  have hfind : find ['"'] (x ++ '"' :: rest) = some x.length :=
    (find_marked List.not_mem_nil hx).trans (if_pos (List.nil_suffix))
  rw [untilQuote, hfind, Option.map_some, List.take_left]

theorem parseBlkidField_eq (output key : List Char) :
    parseBlkidField output key = (behind ((key ++ ['=']) ++ ['"']) output).bind untilQuote := by
  have hpattern : (key ++ ['=']) ++ ['"'] = key ++ ['=', '"'] := by simp
  rw [hpattern, parseBlkidField, behind]
  cases find (key ++ ['=', '"']) output with
  | none => rfl
  | some n =>
    show (find ['"'] _ >>= fun stop => some (List.take stop _)) = untilQuote _
    rw [untilQuote]
    cases find ['"'] (output.drop (n + (key ++ ['=', '"']).length)) <;> rfl

/-- The next quote is the one that is looked for, or is passed over. -/
theorem parseBlkidField_append (hkey : '"' ∉ key) (hx : '"' ∉ x) :
    parseBlkidField (x ++ '"' :: rest) key =
      if key ++ ['='] <:+ x then untilQuote rest else parseBlkidField rest key := by
  have hmark : '"' ∉ key ++ ['='] := by simp [hkey]
  rw [parseBlkidField_eq, parseBlkidField_eq, behind_marked hmark hx]
  split_ifs <;> rfl

theorem parseBlkidField_eq_none (hx : '"' ∉ x) : parseBlkidField x key = none := by
  rw [parseBlkidField_eq, behind_marked_eq_none hx]
  rfl

end

/-! ## Lines of fields -/

/-- A key and its value. -/
abbrev Field := List Char × List Char

def isKeyChar (c : Char) : Bool := c.isUpper || c.isDigit || c = '_'

def renderField (field : Field) : List Char := field.1 ++ '=' :: '"' :: (field.2 ++ ['"'])

def renderFields (fields : List Field) : List Char :=
  fields.flatMap fun field => ' ' :: renderField field

/-- `dev: K1="v1" K2="v2"` -/
def renderLine (device : List Char) (fields : List Field) : List Char :=
  device ++ ':' :: renderFields fields

/-- Keys of upper-case letters, digits and underscores, and values without quotes. -/
structure WellFormed (fields : List Field) : Prop where
  keys : ∀ field ∈ fields, ∀ c ∈ field.1, isKeyChar c = true
  values : ∀ field ∈ fields, '"' ∉ field.2

section
variable {key x : List Char} {field : Field} {fields rest : List Field}

theorem not_mem_of_isKeyChar {c : Char} (hkey : ∀ c ∈ key, isKeyChar c = true)
    (hc : isKeyChar c = false) : c ∉ key := by
  intro hmem
  rw [hkey c hmem] at hc
  cases hc

/-- A key stands in front of an equals sign exactly if it ends the key that does. -/
theorem suffix_key_iff (hkey : ' ' ∉ key) (k : List Char) :
    key ++ ['='] <:+ x ++ ' ' :: k ++ ['='] ↔ key <:+ k := by
  have hk : ' ' :: k <:+ x ++ ' ' :: k := List.suffix_append _ _
  rw [List.suffix_append_self_iff]
  constructor
  · intro h
    rcases List.suffix_or_suffix_of_suffix h hk with h | h
    · rcases List.suffix_cons_iff.mp h with rfl | h
      · exact absurd List.mem_cons_self hkey
      · exact h
    · exact absurd (h.subset List.mem_cons_self) hkey
  · intro h
    exact h.trans ((List.suffix_cons _ _).trans hk)

theorem renderFields_cons : x ++ renderFields (field :: rest) =
    (x ++ ' ' :: field.1 ++ ['=']) ++ '"' :: (field.2 ++ '"' :: renderFields rest) := by
  simp [renderFields, renderField]

/-- The text between two fields, up to the quote. -/
def gap (fields : List Field) : Option (List Char) :=
  fields.head?.map fun next => ' ' :: next.1 ++ ['=']

theorem untilQuote_renderFields (hfields : WellFormed fields) :
    untilQuote (renderFields fields) = gap fields := by
  cases fields with
  | nil => rfl
  | cons next rest =>
    have hmark : '"' ∉ ' ' :: next.1 ++ ['='] := by
      have := not_mem_of_isKeyChar (c := '"') (hfields.keys next List.mem_cons_self) (by decide)
      simp [this]
    have htext : renderFields (next :: rest) =
        (' ' :: next.1 ++ ['=']) ++ '"' :: (next.2 ++ '"' :: renderFields rest) :=
      renderFields_cons (x := [])
    rw [htext, untilQuote_append hmark]
    rfl

/-- Where the search for a key ends in a line: at a key that ends with it, or at a value that ends
with it and an equals sign. -/
def found (key : List Char) : List Field → Option (List Char)
  | [] => none
  | field :: rest =>
    if key <:+ field.1 then some field.2
    else if key ++ ['='] <:+ field.2 then gap rest
    else found key rest

theorem parseBlkidField_renderFields (hkey : ∀ c ∈ key, isKeyChar c = true)
    (hfields : WellFormed fields) (hx : '"' ∉ x) :
    parseBlkidField (x ++ renderFields fields) key = found key fields := by
  have hquote : '"' ∉ key := not_mem_of_isKeyChar hkey (by decide)
  have hspace : ' ' ∉ key := not_mem_of_isKeyChar hkey (by decide)
  induction fields generalizing x with
  | nil =>
    rw [renderFields, List.flatMap_nil, List.append_nil, parseBlkidField_eq_none hx]
    rfl
  | cons field rest ih =>
    have hrest : WellFormed rest :=
      ⟨fun f hf => hfields.keys f (List.mem_cons_of_mem _ hf),
        fun f hf => hfields.values f (List.mem_cons_of_mem _ hf)⟩
    have hkeyPart : '"' ∉ x ++ ' ' :: field.1 ++ ['='] := by
      have := not_mem_of_isKeyChar (c := '"') (hfields.keys field List.mem_cons_self) (by decide)
      simp [hx, this]
    have hvalue : '"' ∉ field.2 := hfields.values field List.mem_cons_self
    have hnext : parseBlkidField (renderFields rest) key = found key rest :=
      ih (x := []) hrest List.not_mem_nil
    rw [renderFields_cons, parseBlkidField_append hquote hkeyPart, untilQuote_append hvalue,
      parseBlkidField_append hquote hvalue, untilQuote_renderFields hrest, hnext, found]
    simp only [suffix_key_iff hspace]

/-! ## When the answer is right -/

/-- The search for a key ends at the field. -/
def Stops (key : List Char) (field : Field) : Prop := key <:+ field.1 ∨ key ++ ['='] <:+ field.2

instance (key : List Char) : DecidablePred (Stops key) :=
  fun _ => inferInstanceAs (Decidable (_ ∨ _))

/-- The search for a key ends at the field of that key, or at no field; or it gets the right answer
by accident. -/
def Legible (key : List Char) (fields : List Field) : Prop :=
  ∀ before field after, fields = before ++ field :: after → (∀ f ∈ before, ¬Stops key f) →
    Stops key field →
    field.1 = key ∨ fields.lookup key = if key <:+ field.1 then some field.2 else gap after

theorem lookup_eq_none_of_not_stops (h : ∀ f ∈ fields, ¬Stops key f) : fields.lookup key = none := by
  rw [List.lookup_eq_none_iff]
  intro f hf
  have hne : key ≠ f.1 := fun heq => h f hf (.inl (heq ▸ List.suffix_refl _))
  simpa using hne

theorem found_append {before after : List Field} (h : ∀ f ∈ before, ¬Stops key f) :
    found key (before ++ after) = found key after := by
  induction before with
  | nil => rfl
  | cons f before ih =>
    have hf : ¬Stops key f := h f List.mem_cons_self
    rw [Stops, not_or] at hf
    rw [List.cons_append, found, if_neg hf.1, if_neg hf.2]
    exact ih fun f hf => h f (List.mem_cons_of_mem _ hf)

theorem found_of_stops {after : List Field} (h : Stops key field) :
    found key (field :: after) = if key <:+ field.1 then some field.2 else gap after := by
  rw [found]
  split_ifs with hkey hvalue
  · rfl
  · rfl
  · exact absurd h (not_or.mpr ⟨hkey, hvalue⟩)

theorem lookup_append_of_not_stops {before after : List Field} (h : ∀ f ∈ before, ¬Stops key f) :
    (before ++ after).lookup key = after.lookup key := by
  rw [List.lookup_append, lookup_eq_none_of_not_stops h]
  rfl

theorem found_eq_lookup_iff : found key fields = fields.lookup key ↔ Legible key fields := by
  constructor
  · rintro h before field after rfl hbefore hstops
    rw [found_append hbefore, found_of_stops hstops] at h
    exact .inr h.symm
  · intro h
    cases hfirst : fields.find? (fun f => Stops key f) with
    | none =>
      have hnone : ∀ f ∈ fields, ¬Stops key f := by simpa using hfirst
      rw [lookup_eq_none_of_not_stops hnone, ← List.append_nil fields, found_append hnone]
      rfl
    | some field =>
      obtain ⟨hstops, before, after, rfl, hbefore⟩ := List.find?_eq_some_iff_append.mp hfirst
      have hstops : Stops key field := by simpa using hstops
      have hbefore : ∀ f ∈ before, ¬Stops key f := by simpa using hbefore
      rw [found_append hbefore, found_of_stops hstops]
      rcases h before field after rfl hbefore hstops with rfl | h
      · rw [lookup_append_of_not_stops hbefore, if_pos (List.suffix_refl _)]
        exact List.lookup_cons_self.symm
      · exact h.symm

end

/-! ## The probe -/

/-- The last character of a line is a quote, or the colon. -/
theorem renderLine_eq_concat (device : List Char) (fields : List Field) :
    ∃ x c, isWhitespace c = false ∧ renderLine device fields = x ++ [c] := by
  rcases List.eq_nil_or_concat fields with rfl | ⟨init, field, rfl⟩
  · exact ⟨device, ':', by decide, rfl⟩
  · refine ⟨device ++ ':' :: (renderFields init ++ ' ' :: (field.1 ++ '=' :: '"' :: field.2)), '"',
      by decide, ?_⟩
    simp [renderLine, renderFields, renderField]

/-- The blanks around a line are gone. -/
theorem trim_renderLine (device : List Char) (fields : List Field) {blank : List Char}
    (hblank : ∀ c ∈ blank, isWhitespace c = true) :
    trim isWhitespace (renderLine device fields ++ blank) =
      renderLine (device.dropWhile isWhitespace) fields := by
  have hdrop : (renderLine device fields ++ blank).dropWhile isWhitespace =
      renderLine (device.dropWhile isWhitespace) fields ++ blank := by
    simp only [renderLine, List.append_assoc, List.cons_append]
    exact dropWhile_append_of_not (by decide) _ _
  obtain ⟨x, c, hc, hline⟩ := renderLine_eq_concat (device.dropWhile isWhitespace) fields
  rw [trim, hdrop, rdropWhile_append_of_all hblank, hline,
    List.rdropWhile_concat_neg _ _ _ (by simp [hc])]

/-- Two answers of the probe are the same. -/
theorem BlkidProbeResult.ofFields_eq_iff {t p s t' p' s' : Option (List Char)} :
    ofFields t p s = ofFields t' p' s' ↔
      t = t' ∧ p = p' ∧ (s = s' ∨ p' = some "atari".toList ∧ t' = none) := by
  have hinj : Function.Injective (Option.map String.ofList) :=
    Option.map_injective fun _ _ => String.ofList_injective
  unfold ofFields
  split_ifs with h h' h'
  · exact iff_of_true rfl ⟨h.2.trans h'.2.symm, h.1.trans h'.1.symm, .inr h'⟩
  · refine iff_of_false nofun ?_
    rintro ⟨rfl, rfl, -⟩
    exact h' h
  · refine iff_of_false nofun ?_
    rintro ⟨rfl, rfl, -⟩
    exact h h'
  · rw [knownSignature.injEq, hinj.eq_iff, hinj.eq_iff, hinj.eq_iff, or_iff_left h']

/-- **The fields of a line are read right** exactly if the line is legible for the requested key. So
a probe that finds something reports what there is exactly if the line is legible for `TYPE` and
`PTTYPE`, and for `SUBSYSTEM` if that is reported. -/
theorem parseBlkidField_iff {device : List Char} {fields : List Field} (hdevice : '"' ∉ device)
    (hfields : WellFormed fields) :
    (∀ key, (∀ c ∈ key, isKeyChar c = true) →
      (parseBlkidField (renderLine device fields) key = fields.lookup key ↔ Legible key fields)) ∧
    ∀ stdout stderr blank, (∀ c ∈ blank, isWhitespace c = true) →
      (fromUtf8Lossy stdout).toList = renderLine device fields ++ blank →
      (probeDeviceStatus 0 stdout stderr = .ok (.ofFields (fields.lookup "TYPE".toList)
          (fields.lookup "PTTYPE".toList) (fields.lookup "SUBSYSTEM".toList)) ↔
        Legible "TYPE".toList fields ∧ Legible "PTTYPE".toList fields ∧
          (Legible "SUBSYSTEM".toList fields ∨
            fields.lookup "PTTYPE".toList = some "atari".toList ∧
              fields.lookup "TYPE".toList = none)) := by
  have hline {device : List Char} (hdevice : '"' ∉ device) (key : List Char)
      (hkey : ∀ c ∈ key, isKeyChar c = true) :
      parseBlkidField (renderLine device fields) key = found key fields := by
    have hx : '"' ∉ device ++ [':'] := by simp [hdevice]
    have hparse := parseBlkidField_renderFields hkey hfields hx
    rwa [List.append_assoc] at hparse
  constructor
  · intro key hkey
    rw [hline hdevice key hkey, found_eq_lookup_iff]
  · intro stdout stderr blank hblank hstdout
    have hdevice' : '"' ∉ device.dropWhile isWhitespace := fun hmem =>
      hdevice ((List.dropWhile_suffix _).subset hmem)
    have hprobe : probeDeviceStatus 0 stdout stderr = .ok (.ofFields (found "TYPE".toList fields)
        (found "PTTYPE".toList fields) (found "SUBSYSTEM".toList fields)) := by
      rw [probeDeviceStatus, if_pos rfl, hstdout, trim_renderLine device fields hblank]
      dsimp only
      rw [hline hdevice' "TYPE".toList (List.all_eq_true.mp (by decide)),
        hline hdevice' "PTTYPE".toList (List.all_eq_true.mp (by decide)),
        hline hdevice' "SUBSYSTEM".toList (List.all_eq_true.mp (by decide))]
    rw [hprobe, Except.ok.injEq, BlkidProbeResult.ofFields_eq_iff, found_eq_lookup_iff,
      found_eq_lookup_iff, found_eq_lookup_iff]

/-- The bytes of a text of ASCII characters. -/
def ascii (text : List Char) : Bytes := text.map fun c => c.toNat.toUInt8

/-- A file system and a partition table, in this order. -/
def ext4Fields : List Field :=
  [("TYPE".toList, "ext4".toList), ("PTTYPE".toList, "dos".toList)]

theorem parseBlkidField_iff_ext4 :
    parseBlkidField (renderLine "/dev/sda".toList ext4Fields) "TYPE".toList = some "ext4".toList ∧
    probeDeviceStatus 0 (ascii (renderLine "/dev/sda".toList ext4Fields ++ ['\n'])) [] =
      .ok (.knownSignature (some "ext4") (some "dos") none) := by
  have hlegible (key : List Char) (h : found key ext4Fields = ext4Fields.lookup key) :
      Legible key ext4Fields := found_eq_lookup_iff.mp h
  have hdevice : '"' ∉ "/dev/sda".toList := by decide
  have hkeys : ext4Fields.all (·.1.all isKeyChar) = true := by decide
  have hfields : WellFormed ext4Fields :=
    ⟨fun f hf => List.all_eq_true.mp (List.all_eq_true.mp hkeys f hf), by decide⟩
  obtain ⟨hparse, hprobe⟩ := parseBlkidField_iff hdevice hfields
  refine ⟨(hparse "TYPE".toList (List.all_eq_true.mp (by decide))).mpr
    (hlegible _ (by decide)), ?_⟩
  exact (hprobe _ [] ['\n'] (List.all_eq_true.mp (by decide)) (by decide +kernel)).mpr
    ⟨hlegible _ (by decide), hlegible _ (by decide), .inl (hlegible _ (by decide))⟩

/-- A partition table alone: its type is taken for one of a file system, and the false positive for a
signature. -/
theorem probeDeviceStatus_atari :
    let fields : List Field := [("PTTYPE".toList, "atari".toList)]
    fields.lookup "TYPE".toList = none ∧
    parseBlkidField (renderLine "/dev/sda".toList fields) "TYPE".toList = some "atari".toList ∧
    probeDeviceStatus 0 (ascii (renderLine "/dev/sda".toList fields ++ ['\n'])) [] =
      .ok (.knownSignature (some "atari") (some "atari") none) := by
  decide +kernel

end CryptPilot.Core
