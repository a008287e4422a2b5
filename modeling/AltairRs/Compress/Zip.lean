import AltairRs.Compress.Tar
import AltairRs.Effect.Policy
import AltairRs.Unix.PathText

/-!
# Zip archives

`walkAndAdd` lists a directory into a `ZipWriter`, whose calls are the operations
of `zipWriteSignature`. `unzipWithLimit` walks the entries of an archive; it makes
the same calls on files as a tar extraction, but never `Entry::unpack`.
-/

namespace AltairRs.Compress

open Effect Unix

/-- What `read_dir` lists in a directory, in its order, with what each path is. A
file comes with what opening and reading it gives. -/
inductive Listing where
  | done
  | failed (source : IoError)
  | directory (name : String) (children rest : Listing)
  | file (name : String) (content : Except IoError (List UInt8)) (rest : Listing)
  | other (name : String) (rest : Listing)

/-- The calls of `zip_dir`: the output file is created, and a `ZipWriter` fills it. -/
inductive ZipWriteOp where
  | createArchive (output : Path)
  | addDirectory (name : String)
  | startFile (name : String)
  | write (bytes : List UInt8)
  | finish

/-- Every call may fail, those of the `zip` crate with its rendered error. -/
abbrev zipWriteSignature : Signature where
  Op := ZipWriteOp
  Response
    | .createArchive _ => Except IoError Unit
    | .addDirectory _ | .startFile _ | .finish => Except String Unit
    | .write _ => Except IoError Nat

abbrev ZipWriteProgram (α : Type) := Program zipWriteSignature α

def createArchive (output : Path) : ZipWriteProgram (Except IoError Unit) :=
  Program.perform zipWriteSignature (.createArchive output)

def addDirectory (name : String) : ZipWriteProgram (Except String Unit) :=
  Program.perform zipWriteSignature (.addDirectory name)

def startFile (name : String) : ZipWriteProgram (Except String Unit) :=
  Program.perform zipWriteSignature (.startFile name)

def write (bytes : List UInt8) : ZipWriteProgram (Except IoError Nat) :=
  Program.perform zipWriteSignature (.write bytes)

def finish : ZipWriteProgram (Except String Unit) :=
  Program.perform zipWriteSignature .finish

/-- `Path::strip_prefix`. -/
def stripPrefix (base path : Path) : Option Path :=
  if base <+: path then some (path.drop base.length) else none

/-- The text of a path below the source root. -/
def relativeText (sourceRoot path : Path) : Result String :=
  match stripPrefix sourceRoot path with
  | none => .error (.compression "strip_prefix: prefix not found")
  | some relative => .ok (toText relative)

/-- Start a file and copy its content, if it can be read. -/
def addFile (relative : String) (content : Except IoError (List UInt8)) :
    ZipWriteProgram (Result Unit) := do
  match ← startFile relative with
  | .error e => return .error (.zip e)
  | .ok _ =>
      match content with
      | .error e => return .error (.io e)
      | .ok bytes =>
          match ← write bytes with
          | .error e => return .error (.io e)
          | .ok _ => return .ok ()

/-- `walk_and_add`, on what the current directory lists. -/
def walkAndAdd (sourceRoot current : Path) : Listing → ZipWriteProgram (Result Unit)
  | .done => return .ok ()
  | .failed e => return .error (.io e)
  | .directory name children rest =>
      match relativeText sourceRoot (join current [.normal name]) with
      | .error e => return .error e
      | .ok relative => do
          match ← addDirectory relative with
          | .error e => return .error (.zip e)
          | .ok _ =>
              match ← walkAndAdd sourceRoot (join current [.normal name]) children with
              | .error e => return .error e
              | .ok _ => walkAndAdd sourceRoot current rest
  | .file name content rest =>
      match relativeText sourceRoot (join current [.normal name]) with
      | .error e => return .error e
      | .ok relative => do
          match ← addFile relative content with
          | .error e => return .error e
          | .ok _ => walkAndAdd sourceRoot current rest
  | .other name rest =>
      match relativeText sourceRoot (join current [.normal name]) with
      | .error e => return .error e
      | .ok _ => walkAndAdd sourceRoot current rest

/-- `zip_dir`; the source is what its directory lists, if it is one. -/
def zipDir (source output : Path) (directory : Option Listing) : ZipWriteProgram (Result Unit) :=
  match directory with
  | none => return .error (.invalidSource source "not a directory")
  | some listing => do
      match ← createArchive output with
      | .error e => return .error (.io e)
      | .ok _ =>
          match ← walkAndAdd source source listing with
          | .error e => return .error e
          | .ok _ =>
              match ← finish with
              | .error e => return .error (.zip e)
              | .ok _ => return .ok ()

/-- A zip entry: what its accessors answer, and the bytes that are read from it. -/
structure ZipEntry where
  name : String
  enclosedName : Option Path
  isDir : Bool
  data : List UInt8

/-- What reading an archive yields: the entries by index, each of which may be
damaged. -/
abbrev ZipContents := Except String (List (Except String ZipEntry))

/-- Copy a file, one byte over the cap at most, and check the new total. -/
def copyBounded (kind : String) (limit : UInt64) (total : Nat) (data : List UInt8)
    (safeDest : Path) : TarProgram (Result Nat) := do
  match ← createParents safeDest with
  | .error e => return .error (.io e)
  | .ok _ =>
      let remaining := limit.toNat - total
      let bounded := data.take (saturatingAdd remaining 1)
      match ← createFile safeDest with
      | .error e => return .error (.io e)
      | .ok file =>
          match ← copy file bounded with
          | .error e => return .error (.io e)
          | .ok written =>
              let total := saturatingAdd total written
              if limit.toNat < total then
                return .error (.decompressionLimit limit.toNat kind)
              else
                return .ok total

/-- A regular tar entry is copied the same way. -/
theorem unpackRegular_eq (limit : UInt64) (total : Nat) (entry : TarEntry) (safeDest : Path) :
    unpackRegular limit total entry safeDest =
      copyBounded "tar-entry" limit total entry.data safeDest := rfl

/-- A bounded copy makes the directories above its file, creates it and copies to it. -/
theorem copyBounded_requests {allowed : TarOp → Prop} (kind : String) (limit : UInt64)
    (total : Nat) (data : List UInt8) {safeDest : Path}
    (parents : Requests allowed (createParents safeDest)) (creates : allowed (.createFile safeDest))
    (copies : ∀ file bytes, allowed (.copy file bytes)) :
    Requests allowed (copyBounded kind limit total data safeDest) := by
  refine parents.bind fun made => ?_
  cases made with
  | error e => trivial
  | ok _ =>
      refine Requests.bind (.perform creates) fun created => ?_
      cases created with
      | error e => trivial
      | ok file =>
          refine Requests.bind (.perform (copies ..)) fun copied => ?_
          cases copied with
          | error e => trivial
          | ok written =>
              dsimp only
              split <;> trivial

/-- The loop body of `unzip_with_limit`; it returns the new total. -/
def unzipEntry (dest : Path) (limit : UInt64) (total : Nat) (entry : ZipEntry) :
    TarProgram (Result Nat) :=
  match entry.enclosedName with
  | none => return .error (.unsafePath (ofText entry.name))
  | some entryPath =>
      match resolve dest entryPath with
      | .error e => return .error e
      | .ok safeDest =>
          if entry.isDir then do
            match ← createDirAll safeDest with
            | .error e => return .error (.io e)
            | .ok _ => return .ok total
          else
            copyBounded "zip-entry" limit total entry.data safeDest

/-- The loop of `unzip_with_limit`, with the total written so far. -/
def unzipLoop (dest : Path) (limit : UInt64) :
    Nat → List (Except String ZipEntry) → TarProgram (Result Unit)
  | _, [] => return .ok ()
  | _, .error e :: _ => return .error (.zip e)
  | total, .ok entry :: rest => do
      match ← unzipEntry dest limit total entry with
      | .error e => return .error e
      | .ok total => unzipLoop dest limit total rest

/-- `unzip_with_limit`. -/
def unzipWithLimit (archive : ZipContents) (dest : Path) (limit : UInt64) :
    TarProgram (Result Unit) := do
  match ← createDirAll dest with
  | .error e => return .error (.io e)
  | .ok _ =>
      match ← openArchive with
      | .error e => return .error (.io e)
      | .ok _ =>
          match archive with
          | .error e => return .error (.zip e)
          | .ok entries => unzipLoop dest limit 0 entries

/-- A path below the source root is stripped of it. -/
theorem relativeText_append (sourceRoot : Path) (names : List String) :
    relativeText sourceRoot (sourceRoot ++ named names) = .ok (toText (named names)) := by
  unfold relativeText stripPrefix
  rw [if_pos (List.prefix_append _ _), List.drop_left]

end AltairRs.Compress
