import AltairRs.Compress.Zip
import AltairRs.Data.Keyed
import AltairRs.Io.BufWriter

/-!
# Files whose writes may fail

Every file a recipe creates is filled through a `BufWriter` that is dropped after
the copy. `Filled` says what each file holds once the copies have returned: what
was handed to its writer, or less if the drop lost bytes.
-/

namespace AltairRs.Compress

open Effect Io Keyed Unix

/-- The created files: what each holds, whether the drop of its writer lost bytes,
and the order in which they were created. A file created again is emptied. -/
structure Files where
  content : Nat → Option (List UInt8) := fun _ => none
  lost : Nat → Bool := fun _ => false
  created : List Nat := []

/-- Leave a file as its dropped writer does. -/
def Files.save (files : Files) (file : Nat) (isLost : Bool) (content : List UInt8) : Files :=
  { files with
    content := Function.update files.content file (some content)
    lost := Function.update files.lost file isLost }

/-- Create a file. -/
def Files.create (files : Files) (file : Nat) : Files :=
  { files.save file false [] with created := files.created ++ [file] }

/-- Bytes are copied into a file through a new `BufWriter`, which is then dropped. -/
inductive Copies (capacity : Nat) (files : Files) (file : Nat) (bytes : List UInt8) (isOk : Bool) :
    Files → Prop where
  | intro {held writer isLost content} (opened : files.content file = some held)
      (writes : Writes capacity ⟨held, []⟩ bytes isOk writer)
      (drops : Drops writer isLost content) :
      Copies capacity files file bytes isOk (files.save file isLost content)

/-- The calls of a recipe, on files any write to which may fail. Directories do not
matter here, and what `Entry::unpack` writes the `tar` crate writes itself. -/
def failingFiles (capacity : Nat) : World tarSignature Files where
  Answers here op response next :=
    match op, response with
    | .openArchive, _ | .createDirAll _, _ | .unpack .., _ => next = here
    | .createFile _, .ok file => next = here.create file
    | .createFile _, .error _ => next = here
    | .copy file bytes, .ok copied =>
        copied = bytes.length ∧ Copies capacity here file bytes true next
    -- Reading or writing has failed, after a part.
    | .copy file bytes, .error _ =>
        ∃ front isOk, front <+: bytes ∧ Copies capacity here file front isOk next

/-- What a recipe produces: the bytes that are meant, and those it hands to the
writer. -/
structure Output where
  data : List UInt8
  handed : List UInt8
deriving DecidableEq, Repr

/-- The output each file is for: the files in the order of their creation take the
outputs in order. -/
def Files.output (files : Files) (outputs : List Output) : Nat → Option Output :=
  enterAll (files.created.zip outputs) fun _ => none

/-- What a file holds of its output, given whether the drop of its writer lost bytes. -/
inductive Holds : Option Output → Bool → Option (List UInt8) → Prop where
  | absent {isLost} : Holds none isLost none
  | kept {output} : Holds (some output) false (some output.handed)
  | cut {output held} (isPrefix : held <+: output.handed) (isShorter : held ≠ output.handed) :
      Holds (some output) true (some held)

/-- Each file holds what was handed to its writer, or less where bytes were lost. -/
structure Filled (outputs : List Output) (files : Files) : Prop where
  created : files.created.length = outputs.length
  holds : ∀ file, Holds (files.output outputs file) (files.lost file) (files.content file)

variable {capacity : Nat} {files next : Files} {file : Nat} {outputs : List Output}

/-- An output of a file is one of the outputs. -/
theorem Files.mem_of_output {output : Output}
    (isOutput : files.output outputs file = some output) : output ∈ outputs := by
  rcases mem_of_enterAll isOutput with entered | before
  · exact (List.of_mem_zip entered).2
  · cases before

/-- Before the first call nothing is filled. -/
theorem filled_none : Filled [] {} := ⟨rfl, fun _ => .absent⟩

/-- One more output goes to the file created last. -/
theorem Files.output_create (filled : Filled outputs files) (output : Output) (isLost : Bool)
    (content : List UInt8) :
    ((files.create file).save file isLost content).output (outputs ++ [output]) =
      Function.update (files.output outputs) file (some output) := by
  have isZip : (files.created ++ [file]).zip (outputs ++ [output]) =
      files.created.zip outputs ++ [(file, output)] := List.zip_append filled.created
  change enterAll ((files.created ++ [file]).zip (outputs ++ [output])) _ = _
  rw [isZip, enterAll_concat]
  rfl

/-- What a dropped writer leaves of what it was handed. -/
theorem Holds.of_drops {writer : BufWriter UInt8} {isLost : Bool} {content : List UInt8}
    {output : Output} (drops : Drops writer isLost content)
    (isAccepted : writer.accepted = output.handed) :
    Holds (some output) isLost (some content) := by
  cases isLost with
  | false =>
      rw [drops.kept, isAccepted]
      exact .kept
  | true =>
      obtain ⟨isPrefix, isShorter⟩ := drops.cut
      rw [isAccepted] at isPrefix isShorter
      exact .cut isPrefix isShorter

/-- A file that is created and copied into gets the next output. -/
theorem Filled.copy (filled : Filled outputs files) (output : Output)
    (copies : Copies capacity (files.create file) file output.handed true next) :
    Filled (outputs ++ [output]) next := by
  cases copies with
  | @intro held writer isLost content opened writes drops =>
      obtain rfl : [] = held := by simpa [Files.create, Files.save] using opened
      have isAccepted : writer.accepted = output.handed := by
        simpa [BufWriter.accepted] using writes.accepted rfl
      refine ⟨by simp [Files.save, Files.create, filled.created], fun other => ?_⟩
      rw [Files.output_create filled]
      by_cases same : other = file
      · subst same
        simpa [Files.save] using Holds.of_drops drops isAccepted
      · simpa [Files.save, Files.create, same] using filled.holds other

end AltairRs.Compress
