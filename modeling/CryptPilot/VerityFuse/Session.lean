import CryptPilot.VerityFuse.ReadDir
import CryptPilot.VerityFuse.ReadRefines

/-!
# A session

The kernel sends one request after the other to a mounted file system. What the source directory
holds can change between any two of them, and nothing is assumed of it. Only `open` and `read` have a
state, the caches; the other requests are answered from the verifier and from the source directory as
it is.

Whatever comes before and after it, a reply is that of its request on a state in which every cached
block was verified (`serve_reply`). On storage that stays as it is, every session is served to its
end, with coherent caches (`serve_returns`).
-/

namespace CryptPilot.VerityFuse

open CryptPilot.Data CryptPilot.VerityCore

variable {σ η : Type}

/-- The requests that `VerityFS` implements; `openFile` is `open`. A reply to `readdir` has room for
`cap` bytes. -/
inductive FuseRequest where
  | lookup (parent : Nat) (name : Bytes)
  | getattr (ino : Nat)
  | read (ino : Nat) (offset : Int64) (size : UInt32)
  | readdir (ino : Nat) (offset : Int) (cap : Nat)
  | openFile (ino : Nat)
  | readlink (ino : Nat)

inductive FuseReply where
  | entry (attr : FileAttr)
  | attr (attr : FileAttr)
  | data (data : Bytes)
  | directory (entries : List (DirEntry × Int))
  | opened
  | link (target : Bytes)

/-- When a request comes: the time, and what the source directory holds. -/
structure Moment where
  now : Nat
  source : Source

namespace VerityFS

section
variable (fromPath : Bytes → Option RelativePath) (entSize : Bytes → Nat) (verifier : FileVerifier)
  (S : Storage σ η) (fuel : Nat)

/-- `read`. -/
def read (ino : Nat) (offset : Int64) (size : UInt32) (self : VerityFS σ η) :
    Option (Except Errno Bytes × VerityFS σ η) :=
  match verifier.lookupByIno ino with
  | none => some (.error EINVAL, self)
  | some file => self.readFile S fuel file offset size

/-- `open`. The handle stays in the pool; the reply is always the same. -/
def openFile (ino : Nat) (self : VerityFS σ η) : Except Errno FuseReply × VerityFS σ η :=
  match verifier.lookupByIno ino with
  | none => (.error ENOENT, self)
  | some file =>
    let (handle, self) := self.openFileCached S file
    (handle.map fun _ => .opened, self)

def handle (moment : Moment) (request : FuseRequest) (self : VerityFS σ η) :
    Option (Except Errno FuseReply × VerityFS σ η) :=
  match request with
  | .lookup parent name =>
    some ((lookup fromPath verifier moment.source moment.now parent name).map .entry, self)
  | .getattr ino => some ((getattr verifier moment.source moment.now ino).map .attr, self)
  | .read ino offset size =>
    (self.read verifier S fuel ino offset size).map fun r => (r.1.map .data, r.2)
  | .readdir ino offset cap =>
    some ((readdir fromPath verifier moment.source entSize ino offset cap).map .directory, self)
  | .openFile ino => some (self.openFile verifier S ino)
  | .readlink ino => some ((readlink verifier moment.source ino).map .link, self)

/-- The replies in order, and the state at the end. -/
def serve : List (Moment × FuseRequest) → VerityFS σ η →
    Option (List (Except Errno FuseReply) × VerityFS σ η)
  | [], self => some ([], self)
  | r :: rest, self => do
    let (reply, self) ← self.handle fromPath entSize verifier S fuel r.1 r.2
    let (replies, self) ← serve rest self
    return (reply :: replies, self)

end

section
variable {fromPath : Bytes → Option RelativePath} {entSize : Bytes → Nat} {verifier : FileVerifier}
  {S : Storage σ η} {fuel : Nat} {P : BlockKey → Bytes → Prop} {moment : Moment}
  {request : FuseRequest} {reply : Except Errno FuseReply} {self self' : VerityFS σ η}

/-- Only `open` and `read` change the state, and they do so through the file with that number. -/
theorem handle_cases
    (h : self.handle fromPath entSize verifier S fuel moment request = some (reply, self')) :
    self' = self ∨ ∃ ino file, verifier.lookupByIno ino = some file ∧
      ((∃ r, self.openFileCached S file = (r, self')) ∨
        ∃ offset size r, self.readFile S fuel file offset size = some (r, self')) := by
  cases request with
  | read ino offset size =>
    obtain ⟨⟨answer, self₁⟩, hread, heq⟩ := Option.map_eq_some_iff.mp h
    cases heq
    unfold read at hread
    split at hread
    · cases hread
      exact .inl rfl
    · next file hfile => exact .inr ⟨ino, file, hfile, .inr ⟨offset, size, answer, hread⟩⟩
  | openFile ino =>
    have hopen : self.openFile verifier S ino = (reply, self') := Option.some.inj h
    unfold openFile at hopen
    split at hopen
    · cases hopen
      exact .inl rfl
    · next file hfile =>
      cases hopen
      exact .inr ⟨ino, file, hfile, .inl ⟨_, rfl⟩⟩
  | _ =>
    cases h
    exact .inl rfl

theorem handle_inv
    (hP : ∀ ino file, verifier.lookupByIno ino = some file → ∀ i raw,
      file.verifyDataBlock i raw = some (.ok ()) → P ⟨file.ino, i⟩ raw)
    (hinv : Inv P self)
    (h : self.handle fromPath entSize verifier S fuel moment request = some (reply, self')) :
    Inv P self' ∧ self.verified ⊆ self'.verified := by
  rcases handle_cases h with rfl | ⟨ino, file, hfile, ⟨r, hopen⟩ | ⟨offset, size, r, hread⟩⟩
  · exact ⟨hinv, List.Subset.refl _⟩
  · obtain ⟨hinv', hver⟩ := openFileCached_inv hinv hopen
    exact ⟨hinv', hver ▸ List.Subset.refl _⟩
  · exact readFile_inv (hP ino file hfile) hinv hread

/-- **What a session keeps, and how it replies.** By induction on the requests; a block that was
verified at any time still is at the end. -/
theorem serve_reply
    (hP : ∀ ino file, verifier.lookupByIno ino = some file → ∀ i raw,
      file.verifyDataBlock i raw = some (.ok ()) → P ⟨file.ino, i⟩ raw)
    {session : List (Moment × FuseRequest)} :
    ∀ {self self' : VerityFS σ η} {replies : List (Except Errno FuseReply)}, Inv P self →
      serve fromPath entSize verifier S fuel session self = some (replies, self') →
      Inv P self' ∧ self.verified ⊆ self'.verified ∧
        ∀ (k : Nat) (moment : Moment) (request : FuseRequest) (reply : Except Errno FuseReply),
          session[k]? = some (moment, request) → replies[k]? = some reply →
          ∃ before after, Inv P before ∧
            before.handle fromPath entSize verifier S fuel moment request = some (reply, after) ∧
            after.verified ⊆ self'.verified := by
  induction session with
  | nil =>
    intro self self' replies hinv h
    cases h
    exact ⟨hinv, List.Subset.refl _, fun k _ _ _ hk => by simp at hk⟩
  | cons r rest ih =>
    intro self self' replies hinv h
    obtain ⟨⟨reply, self₁⟩, hreply, h⟩ := Option.bind_eq_some_iff.mp h
    obtain ⟨⟨replies, self₂⟩, hrest, h⟩ := Option.bind_eq_some_iff.mp h
    cases h
    obtain ⟨hinv₁, hsub₁⟩ := handle_inv hP hinv hreply
    obtain ⟨hinv', hsub', hreplies⟩ := ih hinv₁ hrest
    refine ⟨hinv', List.Subset.trans hsub₁ hsub', fun k moment request reply' hk hk' => ?_⟩
    cases k with
    | zero =>
      cases hk
      cases hk'
      exact ⟨self, self₁, hinv, hreply, hsub'⟩
    | succ k => exact hreplies k moment request reply' hk hk'

end

/-! ## Storage that stays as it is -/

section
variable {fromPath : Bytes → Option RelativePath} {entSize : Bytes → Nat} {verifier : FileVerifier}
  {S : Storage σ η} {F : RelativePath → Option Bytes} {fuel : Nat} {hon : Honest S F}
  {tbl : FileTable}

/-- A file of the table, or a directory: it has no blocks, and a number of its own. -/
def Served (tbl : FileTable) (file : VerifiableFile) : Prop :=
  file ∈ tbl.files ∨ (file.blockSize = some none ∧ ∀ f ∈ tbl.files, f.ino ≠ file.ino)

/-- Every request is answered, and leaves the caches coherent. -/
theorem handle_returns
    (hfiles : ∀ ino file, verifier.lookupByIno ino = some file → Served tbl file)
    (moment : Moment) (request : FuseRequest) {self : VerityFS σ η}
    (hco : Coherent hon tbl fuel self) :
    ∃ reply self', self.handle fromPath entSize verifier S fuel moment request =
      some (reply, self') ∧ Coherent hon tbl fuel self' := by
  cases request with
  | read ino offset size =>
    suffices hread : ∃ r self', self.read verifier S fuel ino offset size = some (r, self') ∧
        Coherent hon tbl fuel self' by
      obtain ⟨r, self', hread, hco'⟩ := hread
      exact ⟨r.map .data, self', by rw [handle, hread]; rfl, hco'⟩
    rw [read]
    cases hfile : verifier.lookupByIno ino with
    | none => exact ⟨_, self, rfl, hco⟩
    | some file =>
      rcases hfiles ino file hfile with hmem | ⟨hdir, -⟩
      · exact readFile_returns offset size hmem hco
      · -- a directory is not read
        suffices hsame : ∃ r, self.readFile S fuel file offset size = some (r, self) by
          obtain ⟨r, hr⟩ := hsame
          exact ⟨r, self, hr, hco⟩
        unfold readFile
        rw [hdir]
        split_ifs
        · exact ⟨_, rfl⟩
        · exact ⟨_, rfl⟩
        · exact ⟨_, rfl⟩
  | openFile ino =>
    suffices hopen : ∃ r self', self.openFile verifier S ino = (r, self') ∧
        Coherent hon tbl fuel self' by
      obtain ⟨r, self', hopen, hco'⟩ := hopen
      exact ⟨r, self', by rw [handle, hopen], hco'⟩
    rw [openFile]
    cases hfile : verifier.lookupByIno ino with
    | none => exact ⟨_, self, rfl, hco⟩
    | some file =>
      obtain ⟨r, self', hopen, hco'⟩ :=
        openFileCached_returns ((hfiles ino file hfile).imp_right And.right) hco
      refine ⟨r.map fun _ => .opened, self', ?_, hco'⟩
      dsimp only
      rw [hopen]
  | _ => exact ⟨_, self, rfl, hco⟩

variable (fromPath entSize) in
/-- **Every session is served.** Each request is answered in a state with coherent caches. -/
theorem serve_returns
    (hfiles : ∀ ino file, verifier.lookupByIno ino = some file → Served tbl file)
    (session : List (Moment × FuseRequest)) : ∀ {self : VerityFS σ η}, Coherent hon tbl fuel self →
      ∃ replies self', serve fromPath entSize verifier S fuel session self = some (replies, self') ∧
        ∀ (k : Nat) (moment : Moment) (request : FuseRequest),
          session[k]? = some (moment, request) →
          ∃ before reply after, Coherent hon tbl fuel before ∧
            before.handle fromPath entSize verifier S fuel moment request = some (reply, after) ∧
            replies[k]? = some reply := by
  induction session with
  | nil =>
    intro self hco
    exact ⟨[], self, rfl, fun k _ _ hk => by simp at hk⟩
  | cons r rest ih =>
    intro self hco
    obtain ⟨reply, self₁, hreply, hco₁⟩ :=
      handle_returns hfiles r.1 r.2 hco
    obtain ⟨replies, self', hrest, hreplies⟩ := ih hco₁
    refine ⟨reply :: replies, self', ?_, fun k moment request hk => ?_⟩
    · rw [serve, hreply]
      show (serve fromPath entSize verifier S fuel rest self₁).bind _ = _
      rw [hrest]
      rfl
    · cases k with
      | zero =>
        cases hk
        exact ⟨self, reply, self₁, hco, hreply, rfl⟩
      | succ k => exact hreplies k moment request hk

end

end VerityFS

end CryptPilot.VerityFuse
