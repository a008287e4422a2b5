import AltairRs.Effect.Except
import AltairRs.Unix.FileSystem

/-!
# Zip-slip and tar-slip mitigation

The errors of the archive recipes, and the two lexical checks: `resolve` on the
path of an entry and `checkLinkTarget` on the target of a link.
-/

namespace AltairRs.Compress

open Effect Unix

/-- An `io::Error`, kept as its rendered text. -/
structure IoError where
  message : String
deriving DecidableEq, Repr

/-- `altair_compress::Error`. -/
inductive Error where
  | io (source : IoError)
  | compression (message : String)
  | zip (message : String)
  | unsafePath (path : Path)
  | invalidSource (path : Path) (reason : String)
  | decompressionLimit (limit : Nat) (kind : String)
deriving DecidableEq, Repr

/-- The crate's result alias. -/
abbrev Result (α : Type) := Except Error α

/-- The component loop of both checks; the error names the entry. -/
def rejectEscapes (entryPath : Path) : Path → Result Unit
  | [] => .ok ()
  | component :: rest =>
      match component with
      | .drive _ | .rootDir | .parentDir => .error (.unsafePath entryPath)
      | .curDir | .normal _ => rejectEscapes entryPath rest

/-- `safe_path::resolve`. -/
def resolve (destRoot entryPath : Path) : Result Path := do
  rejectEscapes entryPath entryPath
  return join destRoot entryPath

/-- `safe_path::check_link_target`. -/
def checkLinkTarget (entryPath linkTarget : Path) : Result Unit :=
  rejectEscapes entryPath linkTarget

/-- The loop accepts exactly the paths that lead down. -/
theorem rejectEscapes_eq_ok_iff (entryPath path : Path) :
    rejectEscapes entryPath path = .ok () ↔ Descends path := by
  induction path with
  | nil => exact ⟨fun _ => nofun, fun _ => rfl⟩
  | cons component rest ih =>
      cases component <;> simp [rejectEscapes, Descends, Component.Descends, ih]

/-- A resolved path is the entry's path below the root. -/
theorem resolve_eq_ok_iff (destRoot entryPath safeDest : Path) :
    resolve destRoot entryPath = .ok safeDest ↔
      Descends entryPath ∧ join destRoot entryPath = safeDest := by
  unfold resolve
  rw [bind_eq_ok_iff]
  constructor
  · rintro ⟨_, checked, joined⟩
    exact ⟨(rejectEscapes_eq_ok_iff entryPath entryPath).mp checked, Except.ok.inj joined⟩
  · rintro ⟨descends, joined⟩
    exact ⟨(), (rejectEscapes_eq_ok_iff entryPath entryPath).mpr descends, congrArg _ joined⟩

end AltairRs.Compress
