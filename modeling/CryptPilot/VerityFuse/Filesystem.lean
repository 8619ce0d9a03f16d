import CryptPilot.Data.Except
import CryptPilot.VerityFuse.Verifier

/-!
# Metadata operations of the file system

`lookup`, `getattr`, `readdir` and `readlink` of `filesystem.rs`. What kind of object a path is, and
its size, is taken from the source directory; the size of a regular file or a symbolic link is
compared with the one recorded. The kind is not compared with anything: a recorded file that is a
directory in the source directory is reported as a directory, a symbolic link of the recorded length
is reported as one, and a link is read by `readlink` whatever its length, unless its target is an
absolute path. For all other objects the recorded kind and size are reported, or nothing
(`protected_iff`).
-/

namespace CryptPilot.VerityFuse

open CryptPilot.Data CryptPilot.VerityCore

/-! ## The source directory -/

/-- What the storage has at a path, with the attributes that are reported. -/
inductive FileKind where
  | directory
  | file
  | symlink
  | other
  deriving DecidableEq

/-- `cap_std::fs::Metadata`. A time stamp may be missing. -/
structure Metadata where
  kind : FileKind
  len : Nat
  accessed : Option Nat
  modified : Option Nat
  created : Option Nat
  mode : Nat
  nlink : Nat
  uid : Nat
  gid : Nat

namespace Metadata

def isDir (self : Metadata) : Bool := self.kind = .directory
def isFile (self : Metadata) : Bool := self.kind = .file
def isSymlink (self : Metadata) : Bool := self.kind = .symlink

end Metadata

/-- An I/O error, by its error number if it has one. -/
abbrev IoError := Option Errno

/-- `e.raw_os_error().unwrap_or(libc::EIO)`. -/
def errnoOf (e : IoError) : Errno := e.getD EIO

/-- An object: its metadata, what `readlink` returns if it is a symbolic link, and the names it
lists if it is a directory; a name that cannot be read is an error. -/
structure Object where
  metadata : Metadata
  target : Bytes
  names : List (Except IoError Bytes)

def isAbsolute (path : Bytes) : Bool := path.head? = some 47

/-- A state of the source directory: the objects in it, and what `cap_std::fs::Dir::read_link`
returns. That is the target of a link, but never an absolute path, which would lead out of the
directory. -/
structure Source where
  object : RelativePath → Except IoError Object
  readLink : RelativePath → Except IoError Bytes
  readLink_eq_ok_iff : ∀ path target, readLink path = .ok target ↔
    ∃ o, object path = .ok o ∧ o.metadata.isSymlink = true ∧ o.target = target ∧
      isAbsolute target = false

namespace Source

/-- The source directory with the given objects. -/
def ofObjects (object : RelativePath → Except IoError Object) : Source where
  object := object
  readLink path := do
    let o ← object path
    if !o.metadata.isSymlink then throw (some EINVAL)
    else if isAbsolute o.target then throw none
    else return o.target
  readLink_eq_ok_iff path target := by
    cases object path with
    | error e => exact iff_of_false nofun nofun
    | ok o =>
      simp only [bind, Except.bind, Except.ok.injEq, exists_eq_left']
      cases o.metadata.isSymlink with
      | false => exact iff_of_false nofun nofun
      | true =>
        cases habs : isAbsolute o.target with
        | false =>
          constructor
          · rintro ⟨⟩
            exact ⟨rfl, rfl, habs⟩
          · rintro ⟨-, rfl, -⟩
            rfl
        | true =>
          refine iff_of_false nofun ?_
          rintro ⟨-, rfl, hrel⟩
          cases habs.symm.trans hrel

def symlinkMetadata (self : Source) (path : RelativePath) : Except IoError Metadata :=
  (self.object path).map Object.metadata

def readDir (self : Source) (path : RelativePath) : Except IoError (List (Except IoError Bytes)) := do
  let object ← self.object path
  if object.metadata.isDir then return object.names else throw (some ENOTDIR)

end Source

/-! ## Operations -/

/-- `check_metadata_file_size`. -/
def checkMetadataFileSize (file : VerifiableFile) (metadata : Metadata) : Except Errno Unit :=
  if metadata.isFile || metadata.isSymlink then
    match file.expectedSize with
    | none => throw EIO
    | some expectedSize => if metadata.len ≠ expectedSize then throw EIO else return ()
  else return ()

/-- `get_metadata`. -/
def getMetadata (source : Source) (file : VerifiableFile) : Except Errno Metadata := do
  let metadata ← (source.symlinkMetadata file.path).mapError errnoOf
  checkMetadataFileSize file metadata
  return metadata

/-- `fuser::FileType`, as far as it is used. -/
inductive FileType where
  | directory
  | regularFile
  | symlink
  deriving DecidableEq

/-- `fuser::FileAttr`. -/
structure FileAttr where
  ino : Nat
  size : Nat
  blocks : Nat
  atime : Nat
  mtime : Nat
  ctime : Nat
  crtime : Nat
  kind : FileType
  perm : Nat
  nlink : Nat
  uid : Nat
  gid : Nat
  rdev : Nat
  flags : Nat
  blksize : Nat

def fsBlockSize : Nat := 4096

/-- The type that is reported for an object; there is none for anything else. -/
def fileType (metadata : Metadata) : Option FileType :=
  if metadata.isDir then some .directory
  else if metadata.isFile then some .regularFile
  else if metadata.isSymlink then some .symlink
  else none

/-- `metadata_to_attr`, at the time `now`. -/
def metadataToAttr (now : Nat) (metadata : Metadata) (ino : Nat) : Except Errno FileAttr :=
  match fileType metadata with
  | none => throw EOPNOTSUPP
  | some kind => return {
      ino := ino
      size := metadata.len
      blocks := metadata.len / 512 + 1
      atime := metadata.accessed.getD now
      mtime := metadata.modified.getD now
      ctime := metadata.created.getD now
      crtime := metadata.created.getD now
      kind := kind
      perm := metadata.mode &&& 0o777
      nlink := metadata.nlink % 2 ^ 32
      uid := metadata.uid
      gid := metadata.gid
      rdev := 0
      flags := 0
      blksize := fsBlockSize }

section
variable (fromPath : Bytes → Option RelativePath) (verifier : FileVerifier) (source : Source)

/-- `lookup`. `fromPath` is `RelativePath::from_path`, which fails for names that are not text. -/
def lookup (now parent : Nat) (name : Bytes) : Except Errno FileAttr := do
  let some parentFile := verifier.lookupByIno parent | throw ENOENT
  let some relative := fromPath name | throw EINVAL
  let childPath := parentFile.path ++ relative
  let some childFile := verifier.lookupByPath childPath | throw ENOENT
  let metadata ← getMetadata source childFile
  metadataToAttr now metadata childFile.ino

def getattr (now ino : Nat) : Except Errno FileAttr := do
  let some file := verifier.lookupByIno ino | throw ENOENT
  let metadata ← getMetadata source file
  metadataToAttr now metadata ino

/-- `readlink`. -/
def readlink (ino : Nat) : Except Errno Bytes := do
  let some file := verifier.lookupByIno ino | throw ENOENT
  (source.readLink file.path).mapError errnoOf

/-- An entry of a listing: inode number, type and name. -/
structure DirEntry where
  ino : Nat
  kind : FileType
  name : Bytes
  deriving DecidableEq

/-- The entry for one name of a directory. Whatever goes wrong, the name is skipped. -/
def childEntry (dirPath : RelativePath) (name : Bytes) : Option DirEntry := do
  let childPath := dirPath ++ (← fromPath name)
  let metadata ← (source.symlinkMetadata childPath).toOption
  let childFile ← verifier.lookupByPath childPath
  (checkMetadataFileSize childFile metadata).toOption
  let childType ← fileType metadata
  return ⟨childFile.ino, childType, name⟩

def dot : Bytes := [46]
def dotDot : Bytes := [46, 46]

/-- The entries for the directory itself and for the one above it, if `readdir` starts before
them. Both have the inode number of the directory. -/
def dotEntries (ino : Nat) (offset : Int) : List DirEntry :=
  (if offset ≤ 0 then [⟨ino, .directory, dot⟩] else []) ++
    (if offset ≤ 1 then [⟨ino, .directory, dotDot⟩] else [])

/-- The entries for the names in a directory; names that could not be read are left out. -/
def childEntries (dirPath : RelativePath) (names : List (Except IoError Bytes)) : List DirEntry :=
  (names.filterMap Except.toOption).filterMap (childEntry fromPath verifier source dirPath)

/-- The entries that `readdir` collects, before it skips the first `offset` of them. -/
def readdirEntries (ino : Nat) (offset : Int) : Except Errno (List DirEntry) := do
  let some file := verifier.lookupByIno ino | throw ENOENT
  let metadata ← getMetadata source file
  if !metadata.isDir then throw ENOTDIR
  else
    let names ← (source.readDir file.path).mapError errnoOf
    return dotEntries ino offset ++ childEntries fromPath verifier source file.path names

end

/-! ## What a successful operation says -/

section
variable {fromPath : Bytes → Option RelativePath} {verifier : FileVerifier} {source : Source}

theorem getMetadata_eq_ok {file : VerifiableFile} {metadata : Metadata}
    (h : getMetadata source file = .ok metadata) :
    (∃ object, source.object file.path = .ok object ∧ object.metadata = metadata) ∧
      checkMetadataFileSize file metadata = .ok () := by
  obtain ⟨m, hm, h⟩ := bind_eq_ok h
  obtain ⟨_, hcheck, h⟩ := bind_eq_ok h
  cases h
  exact ⟨map_eq_ok (mapError_eq_ok hm), hcheck⟩

theorem metadataToAttr_eq_ok {now ino : Nat} {metadata : Metadata} {attr : FileAttr}
    (h : metadataToAttr now metadata ino = .ok attr) :
    attr.ino = ino ∧ attr.size = metadata.len ∧ fileType metadata = some attr.kind := by
  unfold metadataToAttr at h
  split at h
  · cases h
  · next hkind => cases h; exact ⟨rfl, rfl, hkind⟩

theorem lookup_eq_ok {now parent : Nat} {name : Bytes} {attr : FileAttr}
    (h : lookup fromPath verifier source now parent name = .ok attr) :
    ∃ parentFile relative file metadata, verifier.lookupByIno parent = some parentFile ∧
      fromPath name = some relative ∧
      verifier.lookupByPath (parentFile.path ++ relative) = some file ∧
      getMetadata source file = .ok metadata ∧
      metadataToAttr now metadata file.ino = .ok attr := by
  unfold lookup at h
  split at h
  · next parentFile hparent =>
    split at h
    · next relative hname =>
      dsimp only at h
      split at h
      · next file hfile =>
        obtain ⟨metadata, hm, h⟩ := bind_eq_ok h
        exact ⟨parentFile, relative, file, metadata, hparent, hname, hfile, hm, h⟩
      · cases h
    · cases h
  · cases h

theorem getattr_eq_ok {now ino : Nat} {attr : FileAttr}
    (h : getattr verifier source now ino = .ok attr) :
    ∃ file metadata, verifier.lookupByIno ino = some file ∧
      getMetadata source file = .ok metadata ∧ metadataToAttr now metadata ino = .ok attr := by
  unfold getattr at h
  split at h
  · next file hfile =>
    obtain ⟨metadata, hm, h⟩ := bind_eq_ok h
    exact ⟨file, metadata, hfile, hm, h⟩
  · cases h

theorem mem_dotEntries {ino : Nat} {offset : Int} {e : DirEntry} (h : e ∈ dotEntries ino offset) :
    e.ino = ino ∧ e.kind = .directory ∧ (e.name = dot ∨ e.name = dotDot) := by
  rcases List.mem_append.mp h with h | h
  · split at h
    · rw [List.mem_singleton.mp h]
      exact ⟨rfl, rfl, .inl rfl⟩
    · cases h
  · split at h
    · rw [List.mem_singleton.mp h]
      exact ⟨rfl, rfl, .inr rfl⟩
    · cases h

theorem readdirEntries_eq_ok {ino : Nat} {offset : Int} {entries : List DirEntry}
    (h : readdirEntries fromPath verifier source ino offset = .ok entries) :
    ∃ file metadata names, verifier.lookupByIno ino = some file ∧
      getMetadata source file = .ok metadata ∧ metadata.isDir = true ∧
      source.readDir file.path = .ok names ∧
      entries = dotEntries ino offset ++ childEntries fromPath verifier source file.path names := by
  unfold readdirEntries at h
  split at h
  · next file hfile =>
    obtain ⟨metadata, hm, h⟩ := bind_eq_ok h
    split at h
    · cases h
    · next hdir =>
      obtain ⟨names, hnames, h⟩ := bind_eq_ok h
      cases h
      exact ⟨file, metadata, names, hfile, hm, by simpa using hdir, mapError_eq_ok hnames, rfl⟩
  · cases h

theorem readlink_eq_ok {ino : Nat} {target : Bytes} (h : readlink verifier source ino = .ok target) :
    ∃ file object, verifier.lookupByIno ino = some file ∧ source.object file.path = .ok object ∧
      object.metadata.isSymlink = true ∧ object.target = target ∧ isAbsolute target = false := by
  unfold readlink at h
  split at h
  · next file hfile =>
    obtain ⟨object, hobj⟩ := (source.readLink_eq_ok_iff _ _).mp (mapError_eq_ok h)
    exact ⟨file, object, hfile, hobj⟩
  · cases h

/-- An entry for a child is the entry of the file below the directory whose path has the metadata
reported. -/
theorem childEntry_eq_some {dirPath : RelativePath} {name : Bytes} {e : DirEntry}
    (h : childEntry fromPath verifier source dirPath name = some e) :
    ∃ relative file metadata, fromPath name = some relative ∧ e.name = name ∧
      verifier.lookupByPath (dirPath ++ relative) = some file ∧ e.ino = file.ino ∧
      source.symlinkMetadata (dirPath ++ relative) = .ok metadata ∧
      checkMetadataFileSize file metadata = .ok () ∧ fileType metadata = some e.kind := by
  obtain ⟨relative, hname, h⟩ := Option.bind_eq_some_iff.mp h
  obtain ⟨metadata, hm, h⟩ := Option.bind_eq_some_iff.mp h
  obtain ⟨file, hfile, h⟩ := Option.bind_eq_some_iff.mp h
  obtain ⟨_, hcheck, h⟩ := Option.bind_eq_some_iff.mp h
  obtain ⟨kind, hkind, h⟩ := Option.bind_eq_some_iff.mp h
  cases h
  exact ⟨relative, file, metadata, hname, rfl, hfile, rfl, toOption_eq_some hm,
    toOption_eq_some hcheck, hkind⟩

end

/-! ## Protected paths -/

/-- Inode `ino` is reported only as a regular file of the given size, and is not a link. -/
structure Protected (fromPath : Bytes → Option RelativePath) (verifier : FileVerifier)
    (source : Source) (ino size : Nat) : Prop where
  lookup : ∀ now parent name attr, lookup fromPath verifier source now parent name = .ok attr →
    attr.ino = ino → attr.kind = .regularFile ∧ attr.size = size
  getattr : ∀ now attr, getattr verifier source now ino = .ok attr →
    attr.kind = .regularFile ∧ attr.size = size
  readdir : ∀ dir offset entries, readdirEntries fromPath verifier source dir offset = .ok entries →
    ∀ e ∈ entries, e.ino = ino → e.kind = .regularFile
  readlink : ∀ target, readlink verifier source ino ≠ .ok target

/-- An object that is reported or read as what it is in place of a file of the given size: a
directory, or a link that is as long as the file or has a target that can be read. -/
def Impostor (size : Nat) (object : Object) : Prop :=
  object.metadata.kind = .directory ∨
    (object.metadata.kind = .symlink ∧
      (object.metadata.len = size ∨ isAbsolute object.target = false))

instance (size : Nat) (object : Object) : Decidable (Impostor size object) :=
  inferInstanceAs (Decidable (_ ∨ _))

/-- The size of a file or a link was compared. -/
theorem len_of_checked {file : VerifiableFile} {metadata : Metadata} {size : Nat}
    (hsize : file.expectedSize = some size)
    (hcheck : checkMetadataFileSize file metadata = .ok ())
    (hkind : metadata.kind = .file ∨ metadata.kind = .symlink) : metadata.len = size := by
  have hcompared : (metadata.isFile || metadata.isSymlink) = true := by
    simpa [Metadata.isFile, Metadata.isSymlink] using hkind
  rw [checkMetadataFileSize, if_pos hcompared, hsize] at hcheck
  dsimp only at hcheck
  split at hcheck
  · cases hcheck
  · next heq => exact not_not.mp heq

/-- Whatever else passes the size check is reported as a regular file of the recorded size, if at
all. -/
theorem fileType_of_checked {file : VerifiableFile} {object : Object} {size : Nat}
    {kind : FileType} (hsize : file.expectedSize = some size)
    (hcheck : checkMetadataFileSize file object.metadata = .ok ()) (hplain : ¬Impostor size object)
    (hkind : fileType object.metadata = some kind) :
    kind = .regularFile ∧ object.metadata.len = size := by
  cases hk : object.metadata.kind with
  | directory => exact absurd (.inl hk) hplain
  | symlink =>
    have hlen := len_of_checked hsize hcheck (.inr hk)
    exact absurd (.inr ⟨hk, .inl hlen⟩) hplain
  | other =>
    simp [fileType, Metadata.isDir, Metadata.isFile, Metadata.isSymlink, hk] at hkind
  | file =>
    refine ⟨?_, len_of_checked hsize hcheck (.inl hk)⟩
    simp [fileType, Metadata.isDir, Metadata.isFile, hk] at hkind
    exact hkind.symm

section
variable {h : Bytes → List.Vector UInt8 32} {fromPath : Bytes → Option RelativePath}
  {infos : List (FileVerityInfo h)} {p : Profile} {ino : Nat} {info : FileVerityInfo h}

/-- What is found under a path and has the inode number of a recorded file is that file. -/
theorem lookupByPath_registered
    (hreg : (VerityVerifier.new infos).lookupByIno ino = some ⟨ino, .verityEnabled info⟩)
    {path : RelativePath} {file : VerifiableFile}
    (hfile : ((VerityVerifier.new infos).toFileVerifier p).lookupByPath path = some file)
    (hino : file.ino = ino) :
    path = RelativePath.ofString info.path ∧ file.path = RelativePath.ofString info.path ∧
      file.expectedSize = some info.descriptor.dataSize.toNat := by
  obtain ⟨e, he, rfl⟩ := Option.map_eq_some_iff.mp hfile
  obtain ⟨hpath, hlookup⟩ := (VerityVerifier.filed_new infos).lookupByPath_eq_some he
  have hsame : e = ⟨ino, .verityEnabled info⟩ := by
    rw [show e.ino = ino from hino, hreg, Option.some.injEq] at hlookup
    exact hlookup.symm
  subst hsame
  exact ⟨hpath.symm, rfl, rfl⟩

/-- The recorded file, as the operations see it. -/
theorem lookupByIno_registered
    (hreg : (VerityVerifier.new infos).lookupByIno ino = some ⟨ino, .verityEnabled info⟩) :
    ((VerityVerifier.new infos).toFileVerifier p).lookupByIno ino =
      some ((FsEntry.mk ino (.verityEnabled info)).toVerifiableFile p) := by
  show ((VerityVerifier.new infos).lookupByIno ino).map _ = _
  rw [hreg]
  rfl

section
variable {source : Source}
  (hreg : (VerityVerifier.new infos).lookupByIno ino = some ⟨ino, .verityEnabled info⟩)

/-! In place of a recorded file, a directory is reported as one, and so is a link of that length. A
link to a relative path is read. -/

include hreg in
theorem getattr_reports {object : Object} (kind : FileType)
    (hobj : source.object (RelativePath.ofString info.path) = .ok object)
    (hkind : fileType object.metadata = some kind)
    (hcheck : checkMetadataFileSize ((FsEntry.mk ino (.verityEnabled info)).toVerifiableFile p)
      object.metadata = .ok ()) :
    ∃ attr, getattr ((VerityVerifier.new infos).toFileVerifier p) source 0 ino = .ok attr ∧
      attr.kind = kind := by
  have hmeta : source.symlinkMetadata
      ((FsEntry.mk ino (.verityEnabled info)).toVerifiableFile p).path = .ok object.metadata := by
    show (source.object (RelativePath.ofString info.path)).map _ = _
    rw [hobj]
    rfl
  have hattr : getattr ((VerityVerifier.new infos).toFileVerifier p) source 0 ino =
      metadataToAttr 0 object.metadata ino := by
    simp [getattr, lookupByIno_registered hreg, getMetadata, hmeta, hcheck]
  rw [metadataToAttr, hkind] at hattr
  exact ⟨_, hattr, rfl⟩

include hreg in
theorem readlink_relative {object : Object}
    (hobj : source.object (RelativePath.ofString info.path) = .ok object)
    (hlink : object.metadata.kind = .symlink) (hrel : isAbsolute object.target = false) :
    readlink ((VerityVerifier.new infos).toFileVerifier p) source ino = .ok object.target := by
  have hread : source.readLink ((FsEntry.mk ino (.verityEnabled info)).toVerifiableFile p).path =
      .ok object.target :=
    (source.readLink_eq_ok_iff _ _).mpr ⟨object, hobj, decide_eq_true hlink, rfl, hrel⟩
  simp [readlink, lookupByIno_registered hreg, hread]

include hreg in
/-- Nothing that passes for something else is protected against. -/
theorem not_impostor (hprot : Protected fromPath ((VerityVerifier.new infos).toFileVerifier p) source
      ino info.descriptor.dataSize.toNat) {object : Object}
    (hobj : source.object (RelativePath.ofString info.path) = .ok object) :
    ¬Impostor info.descriptor.dataSize.toNat object := by
  rintro (hdir | ⟨hlink, hlen | hrel⟩)
  · -- the size of a directory is not looked at
    obtain ⟨attr, hattr, hkind⟩ := getattr_reports (p := p) hreg .directory hobj
      (by simp [fileType, Metadata.isDir, hdir])
      (by simp [checkMetadataFileSize, Metadata.isFile, Metadata.isSymlink, hdir, pure, Except.pure])
    cases hkind.symm.trans (hprot.getattr 0 attr hattr).1
  · obtain ⟨attr, hattr, hkind⟩ := getattr_reports (p := p) hreg .symlink hobj
      (by simp [fileType, Metadata.isDir, Metadata.isFile, Metadata.isSymlink, hlink])
      (by simp [checkMetadataFileSize, Metadata.isSymlink, hlink, hlen, FsEntry.toVerifiableFile,
        FsEntry.expectedSize, pure, Except.pure])
    cases hkind.symm.trans (hprot.getattr 0 attr hattr).1
  · exact hprot.readlink object.target (readlink_relative hreg hobj hlink hrel)

/-! Without them, every operation reports a regular file of the recorded size. -/

variable (hplain : ∀ object, source.object (RelativePath.ofString info.path) = .ok object →
  ¬Impostor info.descriptor.dataSize.toNat object)
include hreg hplain

theorem lookup_plain {now parent : Nat} {name : Bytes} {attr : FileAttr}
    (hok : lookup fromPath ((VerityVerifier.new infos).toFileVerifier p) source now parent name =
      .ok attr) (hino : attr.ino = ino) :
    attr.kind = .regularFile ∧ attr.size = info.descriptor.dataSize.toNat := by
  obtain ⟨_, _, file, metadata, -, -, hfile, hm, hattr⟩ := lookup_eq_ok hok
  obtain ⟨hino', hsize, hkind⟩ := metadataToAttr_eq_ok hattr
  obtain ⟨-, hpath, hexp⟩ := lookupByPath_registered hreg hfile (hino'.symm.trans hino)
  obtain ⟨⟨object, hobj, rfl⟩, hcheck⟩ := getMetadata_eq_ok hm
  obtain ⟨hk, hlen⟩ := fileType_of_checked hexp hcheck (hplain object (hpath ▸ hobj)) hkind
  exact ⟨hk, hsize.trans hlen⟩

theorem getattr_plain {now : Nat} {attr : FileAttr}
    (hok : getattr ((VerityVerifier.new infos).toFileVerifier p) source now ino = .ok attr) :
    attr.kind = .regularFile ∧ attr.size = info.descriptor.dataSize.toNat := by
  obtain ⟨file, metadata, hfile, hm, hattr⟩ := getattr_eq_ok hok
  rw [lookupByIno_registered hreg, Option.some.injEq] at hfile
  subst hfile
  obtain ⟨-, hsize, hkind⟩ := metadataToAttr_eq_ok hattr
  obtain ⟨⟨object, hobj, rfl⟩, hcheck⟩ := getMetadata_eq_ok hm
  obtain ⟨hk, hlen⟩ := fileType_of_checked rfl hcheck (hplain object hobj) hkind
  exact ⟨hk, hsize.trans hlen⟩

theorem readdirEntries_plain {dir : Nat} {offset : Int} {entries : List DirEntry}
    (hok : readdirEntries fromPath ((VerityVerifier.new infos).toFileVerifier p) source dir offset =
      .ok entries) {e : DirEntry} (he : e ∈ entries) (hino : e.ino = ino) :
    e.kind = .regularFile := by
  obtain ⟨file, metadata, names, hfile, hm, hisdir, -, rfl⟩ := readdirEntries_eq_ok hok
  rcases List.mem_append.mp he with he | he
  · -- the directory that is listed is not the protected file
    have hsame : dir = ino := (mem_dotEntries he).1.symm.trans hino
    subst hsame
    rw [lookupByIno_registered hreg, Option.some.injEq] at hfile
    subst hfile
    obtain ⟨⟨object, hobj, rfl⟩, -⟩ := getMetadata_eq_ok hm
    exact absurd (.inl (of_decide_eq_true hisdir)) (hplain object hobj)
  · obtain ⟨name, -, hchild⟩ := List.mem_filterMap.mp he
    obtain ⟨_, child, m, -, -, hchild, hcino, hm', hcheck, hkind⟩ := childEntry_eq_some hchild
    obtain ⟨hpath, -, hexp⟩ := lookupByPath_registered hreg hchild (hcino.symm.trans hino)
    obtain ⟨object, hobj, rfl⟩ := map_eq_ok hm'
    exact (fileType_of_checked hexp hcheck (hplain object (hpath ▸ hobj)) hkind).1

theorem readlink_plain (target : Bytes) :
    readlink ((VerityVerifier.new infos).toFileVerifier p) source ino ≠ .ok target := by
  intro hok
  obtain ⟨file, object, hfile, hobj, hlink, rfl, hrel⟩ := readlink_eq_ok hok
  rw [lookupByIno_registered hreg, Option.some.injEq] at hfile
  subst hfile
  exact absurd (.inr ⟨of_decide_eq_true hlink, .inr hrel⟩) (hplain object hobj)

end

/-- **Protected paths.** A file that the metadata records is reported only as a regular file of the
recorded size, and is never read as a link, exactly if the source directory has in its place neither
a directory, nor a symbolic link of that length, nor one whose target is a relative path. -/
theorem protected_iff (source : Source)
    (hreg : (VerityVerifier.new infos).lookupByIno ino = some ⟨ino, .verityEnabled info⟩) :
    Protected fromPath ((VerityVerifier.new infos).toFileVerifier p) source ino
        info.descriptor.dataSize.toNat ↔
      ∀ object, source.object (RelativePath.ofString info.path) = .ok object →
        ¬Impostor info.descriptor.dataSize.toNat object := by
  constructor
  · intro hprot object hobj
    exact not_impostor hreg hprot hobj
  · intro hplain
    refine ⟨?_, ?_, ?_, ?_⟩
    · intro now parent name attr hok hino
      exact lookup_plain hreg hplain hok hino
    · intro now attr hok
      exact getattr_plain hreg hplain hok
    · intro dir offset entries hok e he hino
      exact readdirEntries_plain hreg hplain hok he hino
    · exact readlink_plain hreg hplain

end

/-- A source directory that has one object at every path. -/
def uniformSource (kind : FileKind) (len : Nat) (target : Bytes) : Source :=
  .ofObjects fun _ => .ok ⟨⟨kind, len, none, none, none, 0, 1, 0, 0⟩, target, []⟩

theorem lookupByIno_twoInfo :
    (VerityVerifier.new [FileVerityInfo.twoInfo]).lookupByIno 2 =
      some ⟨2, .verityEnabled FileVerityInfo.twoInfo⟩ :=
  rfl

/-- A link of another length to an absolute path is neither reported nor read. -/
theorem protected_absolute_link :
    Protected (fun _ => none) ((VerityVerifier.new [FileVerityInfo.twoInfo]).toFileVerifier .dev)
      (uniformSource .symlink 1 [47]) 2 FileVerityInfo.twoInfo.descriptor.dataSize.toNat := by
  refine (protected_iff (uniformSource .symlink 1 [47]) lookupByIno_twoInfo).mpr ?_
  intro object hobj
  cases hobj
  decide

/-- A symbolic link of the length of the file takes its place. -/
theorem protected_symlink :
    (VerityVerifier.new [FileVerityInfo.twoInfo]).lookupByIno 2 =
        some ⟨2, .verityEnabled FileVerityInfo.twoInfo⟩ ∧
      FileVerityInfo.twoInfo.descriptor.dataSize.toNat = 128 ∧
      (getattr ((VerityVerifier.new [FileVerityInfo.twoInfo]).toFileVerifier .dev)
        (uniformSource .symlink 128 (List.replicate 128 97)) 0 2).map FileAttr.kind =
          .ok .symlink ∧
      readlink ((VerityVerifier.new [FileVerityInfo.twoInfo]).toFileVerifier .dev)
        (uniformSource .symlink 128 (List.replicate 128 97)) 2 = .ok (List.replicate 128 97) :=
  ⟨lookupByIno_twoInfo, rfl, rfl, rfl⟩

end CryptPilot.VerityFuse
