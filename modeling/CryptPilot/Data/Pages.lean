import CryptPilot.Data.Chunks

/-!
# Pages of a device

A device is the list of its bytes, or of anything else. `overwrite` is a write at some offset, and
`copyPages` copies pages of one size from one device to another, one after the other. Afterwards the
pages are those of the source, and the rest is what it was (`getElem?_copyPages`).

`pagesOf` are the pages that an interval of positions reaches into, and `insertNew` collects them in
the order in which they come, each once.
-/

namespace CryptPilot.Data.Pages

variable {α : Type} {offset page size : Nat} {bytes data source target : List α}

/-! ## Writing -/

/-- A write that does not go beyond the end. -/
def overwrite (offset : Nat) (bytes data : List α) : List α :=
  data.take offset ++ bytes ++ data.drop (offset + bytes.length)

theorem length_overwrite (h : offset + bytes.length ≤ data.length) :
    (overwrite offset bytes data).length = data.length := by
  simp only [overwrite, List.length_append, List.length_take, List.length_drop]
  omega

theorem getElem?_overwrite (h : offset + bytes.length ≤ data.length) (b : Nat) :
    (overwrite offset bytes data)[b]? =
      if offset ≤ b ∧ b < offset + bytes.length then bytes[b - offset]? else data[b]? := by
  have htake : (data.take offset).length = offset := by
    rw [List.length_take]
    omega
  have hboth : (data.take offset ++ bytes).length = offset + bytes.length := by
    rw [List.length_append, htake]
  rw [overwrite]
  rcases Nat.lt_or_ge b offset with hlt | hle
  · rw [if_neg (by omega), List.getElem?_append_left (by omega),
      List.getElem?_append_left (by omega), List.getElem?_take_of_lt hlt]
  · rcases Nat.lt_or_ge b (offset + bytes.length) with hlt | hge
    · rw [if_pos ⟨hle, hlt⟩, List.getElem?_append_left (by omega),
        List.getElem?_append_right (by omega), htake]
    · rw [if_neg (by omega), List.getElem?_append_right (by omega), hboth, List.getElem?_drop]
      congr 1
      omega

/-! ## Copying pages -/

def copyPage (size : Nat) (source target : List α) (page : Nat) : List α :=
  overwrite (page * size) (slice (page * size) (page * size + size) source) target

def copyPages (size : Nat) (source target : List α) (pages : List Nat) : List α :=
  pages.foldl (copyPage size source) target

theorem length_slice_page (h : page * size + size ≤ source.length) :
    (slice (page * size) (page * size + size) source).length = size := by
  simp only [slice, List.length_drop, List.length_take]
  omega

theorem length_copyPage (hsource : page * size + size ≤ source.length)
    (htarget : page * size + size ≤ target.length) :
    (copyPage size source target page).length = target.length := by
  refine length_overwrite ?_
  rwa [length_slice_page hsource]

theorem getElem?_copyPage (hsize : 0 < size) (hsource : page * size + size ≤ source.length)
    (htarget : page * size + size ≤ target.length) (b : Nat) :
    (copyPage size source target page)[b]? = if b / size = page then source[b]? else target[b]? := by
  have hpage : b / size = page ↔ page * size ≤ b ∧ b < page * size + size := by
    rw [Nat.div_eq_iff hsize]
    omega
  have hlen := length_slice_page hsource
  rw [copyPage, getElem?_overwrite (by rwa [hlen]), hlen]
  simp only [hpage]
  split_ifs with h
  · rw [slice, List.getElem?_drop, Nat.add_sub_cancel' h.1, List.getElem?_take_of_lt h.2]
  · rfl

/-- **What was copied, and the frame.** -/
theorem getElem?_copyPages (hsize : 0 < size) {pages : List Nat}
    (hsource : ∀ page ∈ pages, page * size + size ≤ source.length)
    (htarget : ∀ page ∈ pages, page * size + size ≤ target.length) (b : Nat) :
    (copyPages size source target pages)[b]? =
      if b / size ∈ pages then source[b]? else target[b]? := by
  induction pages generalizing target with
  | nil => simp [copyPages]
  | cons page pages ih =>
    rw [List.forall_mem_cons] at hsource htarget
    have hlen := length_copyPage hsource.1 htarget.1
    have hstep := ih hsource.2 (by rw [hlen]; exact htarget.2)
    rw [copyPages, List.foldl_cons]
    rw [copyPages] at hstep
    rw [hstep, getElem?_copyPage hsize hsource.1 htarget.1]
    simp only [List.mem_cons]
    split_ifs <;> simp_all

/-! ## The pages of an interval -/

/-- The pages from that of `start` to that of the last position before `stop`. -/
def pagesOf (size start stop : Nat) : List Nat :=
  List.range' (start / size) ((stop + size - 1) / size - start / size)

theorem mem_pagesOf_iff {start stop : Nat} (hsize : 0 < size) (h : start < stop) :
    page ∈ pagesOf size start stop ↔ ∃ b, start ≤ b ∧ b < stop ∧ b / size = page := by
  have hceil : (stop + size - 1) / size = (stop - 1) / size + 1 := by
    rw [show stop + size - 1 = stop - 1 + size by omega, Nat.add_div_right _ hsize]
  have hle : start / size ≤ (stop - 1) / size := Nat.div_le_div_right (by omega)
  rw [pagesOf, List.mem_range'_1, hceil]
  constructor
  · rintro ⟨hfirst, hlast⟩
    have hpage : page * size ≤ stop - 1 := (Nat.le_div_iff_mul_le hsize).mp (by omega)
    rcases Nat.lt_or_ge start (page * size) with hlt | hge
    · exact ⟨page * size, hlt.le, by omega, Nat.mul_div_cancel page hsize⟩
    · have hsame : page ≤ start / size := (Nat.le_div_iff_mul_le hsize).mpr hge
      exact ⟨start, le_rfl, h, by omega⟩
  · rintro ⟨b, hstart, hstop, rfl⟩
    have hfirst : start / size ≤ b / size := Nat.div_le_div_right hstart
    have hlast : b / size ≤ (stop - 1) / size := Nat.div_le_div_right (by omega)
    omega

/-! ## Collecting -/

/-- Adds an element to a set that keeps the order of insertion. -/
def insertNew (set : List Nat) (element : Nat) : List Nat :=
  if element ∈ set then set else set ++ [element]

theorem mem_insertNew {set : List Nat} {element new : Nat} :
    element ∈ insertNew set new ↔ element ∈ set ∨ element = new := by
  rw [insertNew]
  split_ifs with h
  · exact ⟨.inl, fun hmem => hmem.elim id fun heq => heq ▸ h⟩
  · rw [List.mem_append, List.mem_singleton]

theorem mem_foldl_insertNew {set elements : List Nat} {element : Nat} :
    element ∈ elements.foldl insertNew set ↔ element ∈ set ∨ element ∈ elements := by
  induction elements generalizing set with
  | nil => simp
  | cons new elements ih =>
    rw [List.foldl_cons, ih, mem_insertNew, List.mem_cons, or_assoc]

theorem nodup_foldl_insertNew {set : List Nat} (h : set.Nodup) (elements : List Nat) :
    (elements.foldl insertNew set).Nodup := by
  induction elements generalizing set with
  | nil => exact h
  | cons new elements ih =>
    refine ih ?_
    rw [insertNew]
    split_ifs with hmem
    · exact h
    · refine List.nodup_append.mpr ⟨h, by simp, fun a ha b hb => ?_⟩
      rw [List.mem_singleton.mp hb]
      exact ne_of_mem_of_not_mem ha hmem

end CryptPilot.Data.Pages
