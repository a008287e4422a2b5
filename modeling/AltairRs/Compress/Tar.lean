import Mathlib.Algebra.Group.Nat.Defs
import AltairRs.Compress.SafePath
import AltairRs.Effect.Program

/-!
# Tar extraction

`unpackEntries` walks an archive: each entry is checked, then a regular file is
copied under the byte cap and anything else is left to the `tar` crate. The file
calls and the crate's `Entry::unpack` are the operations of `tarSignature`.
-/

namespace AltairRs.Compress

open Effect Unix

/-- The type of a tar entry. -/
inductive EntryType where
  | regular
  | hardLink
  | symlink
  | character
  | block
  | directory
  | fifo
  | continuous
  | gnuSparse
  | unknown (typeByte : UInt8)
deriving DecidableEq, Repr

/-- `EntryType::is_file`. -/
def EntryType.isFile (entryType : EntryType) : Bool := entryType = .regular

/-- `EntryType::is_symlink`. -/
def EntryType.isSymlink (entryType : EntryType) : Bool := entryType = .symlink

/-- `EntryType::is_hard_link`. -/
def EntryType.isHardLink (entryType : EntryType) : Bool := entryType = .hardLink

/-- A tar entry: the effective path, the raw link name of its header, the link
name of a GNU or PAX extension, the mode, and the payload, whose size is a `u64`. -/
structure TarEntry where
  entryType : EntryType
  path : Except IoError Path
  linkName : Except IoError (Option Path) := .ok none
  linkExtension : Option Path := none
  mode : Except IoError Nat := .ok 0o644
  data : List UInt8 := []
  size_lt : data.length < 2 ^ 64 := by decide

/-- An entry without a payload. -/
def TarEntry.bare (entryType : EntryType) (path : Path) : TarEntry where
  entryType := entryType
  path := .ok path

/-- A regular file of one byte. -/
def TarEntry.ofByte (path : Path) (byte : UInt8) : TarEntry where
  entryType := .regular
  path := .ok path
  data := [byte]
  size_lt := by simp

/-- The link name the `tar` crate uses: the extension overrides the header. -/
def TarEntry.effectiveLink (entry : TarEntry) : Option Path :=
  match entry.linkExtension, entry.linkName with
  | some link, _ => some link
  | none, .ok link => link
  | none, .error _ => none

/-- What reading an archive yields: the entries, each of which may be damaged. -/
abbrev Archive := Except IoError (List (Except IoError TarEntry))

/-- The calls an extraction makes. -/
inductive TarOp where
  | openArchive
  | createDirAll (path : Path)
  | createFile (path : Path)
  | copy (file : Nat) (bytes : List UInt8)
  | unpack (entry : TarEntry) (dst : Path)

/-- Every call may fail; a created file answers with its handle, a copy with the
number of bytes it copied. -/
abbrev tarSignature : Signature where
  Op := TarOp
  Response
    | .openArchive | .createDirAll _ | .unpack .. => Except IoError Unit
    | .createFile _ | .copy .. => Except IoError Nat

abbrev TarProgram (α : Type) := Program tarSignature α

def openArchive : TarProgram (Except IoError Unit) :=
  Program.perform tarSignature .openArchive

def createDirAll (path : Path) : TarProgram (Except IoError Unit) :=
  Program.perform tarSignature (.createDirAll path)

def createFile (path : Path) : TarProgram (Except IoError Nat) :=
  Program.perform tarSignature (.createFile path)

def copy (file : Nat) (bytes : List UInt8) : TarProgram (Except IoError Nat) :=
  Program.perform tarSignature (.copy file bytes)

def unpack (entry : TarEntry) (dst : Path) : TarProgram (Except IoError Unit) :=
  Program.perform tarSignature (.unpack entry dst)

/-- `u64::saturating_add`. -/
def saturatingAdd (first second : Nat) : Nat := min (first + second) (2 ^ 64 - 1)

/-- `tar_dir`; the source is the bytes that `tar::Builder` makes of it, if it is a
directory. -/
def tarDir (source output : Path) (archived : Option (List UInt8)) : TarProgram (Result Unit) :=
  match archived with
  | none => return .error (.invalidSource source "not a directory")
  | some bytes => do
      match ← createFile output with
      | .error e => return .error (.io e)
      | .ok file =>
          match ← copy file bytes with
          | .error e => return .error (.io e)
          | .ok _ => return .ok ()

/-- `check_entry_links`: the check reads the raw link name of the header. -/
def checkEntryLinks (entry : TarEntry) (entryPath : Path) : Result Unit :=
  if entry.entryType.isSymlink || entry.entryType.isHardLink then
    match entry.linkName with
    | .error _ | .ok none => .error (.unsafePath entryPath)
    | .ok (some link) => checkLinkTarget entryPath link
  else
    .ok ()

/-- The checks on an entry, and where it goes. -/
def checkEntry (dest : Path) (entry : TarEntry) : Result Path := do
  let entryPath ← entry.path.mapError .io
  let safeDest ← resolve dest entryPath
  checkEntryLinks entry entryPath
  return safeDest

/-- Make the directories above a path, if there are any. -/
def createParents (path : Path) : TarProgram (Except IoError Unit) :=
  match parent path with
  | some above => createDirAll above
  | none => return .ok ()

/-- Copy a regular file, one byte over the cap at most, and check the new total. -/
def unpackRegular (limit : UInt64) (total : Nat) (entry : TarEntry) (safeDest : Path) :
    TarProgram (Result Nat) := do
  match ← createParents safeDest with
  | .error e => return .error (.io e)
  | .ok _ =>
      let remaining := limit.toNat - total
      let bounded := entry.data.take (saturatingAdd remaining 1)
      match ← createFile safeDest with
      | .error e => return .error (.io e)
      | .ok file =>
          match ← copy file bounded with
          | .error e => return .error (.io e)
          | .ok written =>
              let total := saturatingAdd total written
              if limit.toNat < total then
                return .error (.decompressionLimit limit.toNat "tar-entry")
              else
                return .ok total

/-- The loop body; it returns the new total. -/
def unpackEntry (dest : Path) (limit : UInt64) (total : Nat) (entry : TarEntry) :
    TarProgram (Result Nat) :=
  match checkEntry dest entry with
  | .error e => return .error e
  | .ok safeDest =>
      if entry.entryType.isFile then
        unpackRegular limit total entry safeDest
      else do
        match ← unpack entry safeDest with
        | .error e => return .error (.io e)
        | .ok _ => return .ok total

/-- The loop of `unpack_entries`, with the total written so far. -/
def unpackLoop (dest : Path) (limit : UInt64) :
    Nat → List (Except IoError TarEntry) → TarProgram (Result Unit)
  | _, [] => return .ok ()
  | _, .error e :: _ => return .error (.io e)
  | total, .ok entry :: rest => do
      match ← unpackEntry dest limit total entry with
      | .error e => return .error e
      | .ok total => unpackLoop dest limit total rest

/-- `unpack_entries`. -/
def unpackEntries (archive : Archive) (dest : Path) (limit : UInt64) : TarProgram (Result Unit) :=
  match archive with
  | .error e => return .error (.io e)
  | .ok entries => unpackLoop dest limit 0 entries

/-- `untar_with_limit`. -/
def untarWithLimit (archive : Archive) (dest : Path) (limit : UInt64) :
    TarProgram (Result Unit) := do
  match ← createDirAll dest with
  | .error e => return .error (.io e)
  | .ok _ =>
      match ← openArchive with
      | .error e => return .error (.io e)
      | .ok _ => unpackEntries archive dest limit

/-- `untar_gz_with_limit`: the entries are what the gzip decoder lets be read. -/
def untarGzWithLimit (archive : Archive) (dest : Path) (limit : UInt64) :
    TarProgram (Result Unit) := do
  match ← createDirAll dest with
  | .error e => return .error (.io e)
  | .ok _ =>
      match ← openArchive with
      | .error e => return .error (.io e)
      | .ok _ => unpackEntries archive dest limit

/-- A checked entry has a path that leads down, and goes to that path below the
destination. -/
theorem checkEntry_eq_ok {dest : Path} {entry : TarEntry} {safeDest : Path}
    (checked : checkEntry dest entry = .ok safeDest) :
    ∃ entryPath, entry.path = .ok entryPath ∧ Descends entryPath ∧
      checkEntryLinks entry entryPath = .ok () ∧ safeDest = join dest entryPath := by
  unfold checkEntry at checked
  obtain ⟨entryPath, readable, rest⟩ := bind_eq_ok_iff.mp checked
  obtain ⟨resolved, isResolved, final⟩ := bind_eq_ok_iff.mp rest
  obtain ⟨_, linksChecked, returned⟩ := bind_eq_ok_iff.mp final
  obtain ⟨descends, joined⟩ := (resolve_eq_ok_iff dest entryPath resolved).mp isResolved
  have isSafeDest : resolved = safeDest := Except.ok.inj returned
  exact ⟨entryPath, mapError_eq_ok_iff.mp readable, descends, linksChecked,
    by rw [← isSafeDest, joined]⟩

end AltairRs.Compress
