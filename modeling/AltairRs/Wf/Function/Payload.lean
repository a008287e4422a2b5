import AltairRs.Data.CharClass
import AltairRs.Data.Text
import AltairRs.Effect.Except
import AltairRs.Wf.Types

/-!
# Payloads of named functions

What a handler takes and returns, what the activity takes and returns, and the check
of a function name. A duration counts nanoseconds.
-/

namespace AltairRs.Wf.Function

open Data Effect
open scoped Computability

/-- Input passed to a handler. -/
structure FunctionInput where
  args : Parameters String := ∅
  data : List UInt8 := []
  env : Parameters String := ∅
  workDir : String := ""

/-- Output returned by a handler. -/
structure FunctionOutput where
  result : Parameters String := ∅
  data : List UInt8 := []

/-- Input of the activity: the name of the handler and what it will see. -/
structure FunctionExecutionInput where
  name : String := ""
  args : Parameters String := ∅
  data : List UInt8 := []
  env : Parameters String := ∅
  workDir : String := ""
  timeout : Nat := 0
  labels : Parameters String := ∅

/-- `into_function_input`; `to_function_input` copies the same fields. -/
def FunctionExecutionInput.intoFunctionInput (input : FunctionExecutionInput) : FunctionInput :=
  ⟨input.args, input.data, input.env, input.workDir⟩

/-- A character after the first one of a name. -/
def isNameChar (char : Char) : Bool :=
  char.isAlphanum || char = '_' || char = '-'

/-- `FunctionExecutionInput::validate`. -/
def FunctionExecutionInput.validate [DebugText String] (input : FunctionExecutionInput) :
    Result Unit := do
  if input.name.toList.all isWhitespace then
    .error (.invalidInput "function name is required")
  let first := input.name.toList.headD '_'
  if !first.isAlpha then
    .error (.invalidInput
      s!"function name {DebugText.debug input.name} must start with an ASCII letter")
  forM input.name.toList.tail fun char =>
    if isNameChar char then .ok ()
    else .error (.invalidInput
      (s!"function name {DebugText.debug input.name} may only contain ASCII letters, " ++
        "digits, '_' or '-'"))
  if 255 < input.name.utf8ByteSize then
    .error (.invalidInput "function name must be <= 255 characters")

instance [DebugText String] : TaskInput FunctionExecutionInput where
  validate := FunctionExecutionInput.validate

/-- Output of the activity. -/
structure FunctionExecutionOutput where
  name : String := ""
  success : Bool := false
  error : String := ""
  result : Parameters String := ∅
  data : List UInt8 := []
  duration : Nat := 0
  elapsedNanos : UInt64 := 0
  startedAtMillis : UInt64 := 0
  finishedAtMillis : UInt64 := 0

instance : TaskOutput FunctionExecutionOutput where
  isSuccess out := out.success
  error out := if out.error.isEmpty then none else some out.error

/-- The class `[a-zA-Z]`. -/
def letters (char : Char) : Prop :=
  ('a' ≤ char ∧ char ≤ 'z') ∨ ('A' ≤ char ∧ char ≤ 'Z')

/-- The class `[a-zA-Z0-9_-]`. -/
def nameChars (char : Char) : Prop :=
  ('a' ≤ char ∧ char ≤ 'z') ∨ ('A' ≤ char ∧ char ≤ 'Z') ∨ ('0' ≤ char ∧ char ≤ '9') ∨
    char = '_' ∨ char = '-'

/-- The names `^[a-zA-Z][a-zA-Z0-9_-]*$` matches. -/
def functionNames : Language Char := charClass letters * (charClass nameChars)∗

/-- The ASCII letters are the class of letters. -/
theorem isAlpha_iff {char : Char} : char.isAlpha = true ↔ letters char := by
  have isUpper : char.isUpper = true ↔ 'A' ≤ char ∧ char ≤ 'Z' := decide_eq_true_iff
  have isLower : char.isLower = true ↔ 'a' ≤ char ∧ char ≤ 'z' :=
    Bool.and_eq_true_iff.trans (and_congr decide_eq_true_iff decide_eq_true_iff)
  exact Bool.or_eq_true_iff.trans ((or_congr isUpper isLower).trans or_comm)

/-- The check of one character is the class of the others. -/
theorem isNameChar_iff {char : Char} : isNameChar char = true ↔ nameChars char := by
  have isDigit : char.isDigit = true ↔ '0' ≤ char ∧ char ≤ '9' :=
    Bool.and_eq_true_iff.trans (and_congr decide_eq_true_iff decide_eq_true_iff)
  have isAlphanum : char.isAlphanum = true ↔ letters char ∨ '0' ≤ char ∧ char ≤ '9' :=
    Bool.or_eq_true_iff.trans (or_congr isAlpha_iff isDigit)
  simp only [isNameChar, Bool.or_eq_true, decide_eq_true_eq, isAlphanum, letters, nameChars,
    or_assoc]

/-- The codes of the letters. -/
theorem toNat_of_isAlpha {char : Char} (isAlpha : char.isAlpha) :
    (65 ≤ char.toNat ∧ char.toNat ≤ 90) ∨ (97 ≤ char.toNat ∧ char.toNat ≤ 122) := by
  rcases (Bool.or_eq_true _ _).mp isAlpha with isUpper | isLower
  · have bounds : 'A'.val ≤ char.val ∧ char.val ≤ 'Z'.val := of_decide_eq_true isUpper
    exact .inl ⟨UInt32.le_iff_toNat_le.mp bounds.1, UInt32.le_iff_toNat_le.mp bounds.2⟩
  · have bounds := (Bool.and_eq_true _ _).mp isLower
    exact .inr ⟨UInt32.le_iff_toNat_le.mp (of_decide_eq_true bounds.1),
      UInt32.le_iff_toNat_le.mp (of_decide_eq_true bounds.2)⟩

/-- A letter is no white space. -/
theorem isWhitespace_of_isAlpha {char : Char} (isAlpha : char.isAlpha) :
    isWhitespace char = false := by
  have isLetter := toNat_of_isAlpha isAlpha
  simp only [isWhitespace, Bool.or_eq_false_iff, Bool.and_eq_false_iff, decide_eq_false_iff_not]
  omega

/-- The last check, on its own. -/
theorem bounded_eq_ok_iff {length : Nat} {e : Error} :
    (if 255 < length then .error e else pure () : Result Unit) = .ok () ↔ length ≤ 255 := by
  by_cases long : 255 < length
  · rw [if_pos long]
    exact iff_of_false nofun fun short => absurd long (Nat.not_lt.mpr short)
  · rw [if_neg long]
    exact iff_of_true rfl (Nat.not_lt.mp long)

/-- The check of one character. -/
theorem isNameChar_eq_ok_iff {char : Char} {e : Error} :
    (if isNameChar char then .ok () else .error e : Result Unit) = .ok () ↔
      isNameChar char = true := by
  by_cases isName : isNameChar char = true
  · rw [if_pos isName]
    exact iff_of_true rfl isName
  · rw [if_neg isName]
    exact iff_of_false nofun isName

/-- The check accepts the names of the expression, up to 255 bytes. -/
theorem FunctionExecutionInput.accepts_exactly [DebugText String] (input : FunctionExecutionInput) :
    input.validate = .ok () ↔
      input.name.toList ∈ functionNames ∧ input.name.utf8ByteSize ≤ 255 := by
  unfold validate functionNames
  rw [guarded_eq_ok_iff]
  dsimp only
  rw [guarded_eq_ok_iff, bind_eq_ok_iff]
  cases isName : input.name.toList with
  | nil => exact iff_of_false (fun both => both.1 rfl) fun accepted =>
      nil_notMem_charClass_mul_kstar accepted.1
  | cons first rest =>
      rw [cons_mem_charClass_mul_kstar, bounded_eq_ok_iff, List.headD_cons, List.tail_cons]
      constructor
      · rintro ⟨-, isAlpha, ⟨⟩, allNameChars, short⟩
        have each := forM_eq_ok_iff.mp allNameChars
        refine ⟨⟨isAlpha_iff.mp ?_, fun char member => ?_⟩, short⟩
        · simpa using isAlpha
        · exact isNameChar_iff.mp (isNameChar_eq_ok_iff.mp (each char member))
      · rintro ⟨⟨isLetter, allNameChars⟩, short⟩
        have isAlpha := isAlpha_iff.mpr isLetter
        refine ⟨?_, ?_, ⟨⟩, forM_eq_ok_iff.mpr fun char member =>
          isNameChar_eq_ok_iff.mpr (isNameChar_iff.mpr (allNameChars char member)), short⟩
        · simp [isWhitespace_of_isAlpha isAlpha]
        · simp [isAlpha]

end AltairRs.Wf.Function
