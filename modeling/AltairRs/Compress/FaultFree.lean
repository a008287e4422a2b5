import AltairRs.Compress.ByteCount

/-!
# The run in which no call fails

`loopBytes` is what a fault-free run writes. Every other run writes less, and the
fault-free one is a run, so the cap is kept if and only if it keeps the cap.
-/

namespace AltairRs.Compress

open Effect Unix

/-- The entries; an archive that cannot be read has one that cannot. -/
def Archive.items : Archive → List (Except IoError TarEntry)
  | .error e => [.error e]
  | .ok entries => entries

/-- What one entry writes when nothing fails, and the total it leaves. -/
def entryBytes (dest : Path) (limit : UInt64) (total : Nat) (entry : TarEntry) :
    Nat × Option Nat :=
  match checkEntry dest entry with
  | .error _ => (0, none)
  | .ok _ =>
      if entry.entryType.isFile then
        let copied := (entry.data.take (saturatingAdd (limit.toNat - total) 1)).length
        let total := saturatingAdd total copied
        (copied, if limit.toNat < total then none else some total)
      else
        (entry.payload, some total)

/-- What the loop writes when nothing fails, and whether it returns `Ok`. -/
def loopBytes (dest : Path) (limit : UInt64) :
    Nat → List (Except IoError TarEntry) → Nat × Bool
  | _, [] => (0, true)
  | _, .error _ :: _ => (0, false)
  | total, .ok entry :: rest =>
      match entryBytes dest limit total entry with
      | (bytes, none) => (bytes, false)
      | (bytes, some total) =>
          let later := loopBytes dest limit total rest
          (bytes + later.1, later.2)

/-- Never more than so many bytes. -/
def AtMost (bound : Nat) : Contract tarSignature Nat where
  Inv _ written := written ≤ bound

variable {dest : Path} {limit : UInt64} {bound here : Nat} {history : List (Event tarSignature)}

/-- One call, if what it may write fits. -/
theorem perform_atMost (op : TarOp)
    (fits : ∀ response count, op.Bytes response count → here + count ≤ bound)
    (start : here ≤ bound) :
    Safe byteCount (AtMost bound)
      (fun response _ written => ∃ count, op.Bytes response count ∧ written = here + count)
      (Program.perform tarSignature op) history here := by
  refine ⟨start, ?_⟩
  rintro response _ ⟨count, isCount, rfl⟩
  exact ⟨trivial, fits response count isCount, count, isCount, rfl⟩

/-- Making directories writes no bytes. -/
theorem createParents_atMost (path : Path) (start : here ≤ bound) :
    Safe byteCount (AtMost bound) (fun _ _ written => written = here) (createParents path)
      history here := by
  unfold createParents
  cases parent path with
  | none => exact ⟨start, rfl⟩
  | some above =>
      have nothing : ∀ response count, (TarOp.createDirAll above).Bytes response count →
          count = 0 := fun _ _ isCount => isCount
      refine (perform_atMost (.createDirAll above) ?_ start).mono ?_
      · rintro response count isCount
        rw [nothing response count isCount]
        exact start
      · rintro response _ written ⟨count, isCount, rfl⟩ _
        rw [nothing response count isCount, Nat.add_zero]

/-- A copied prefix of an entry and the total after it. -/
theorem unpackRegular_atMost (total : Nat) (entry : TarEntry) (safeDest : Path)
    (copied : Nat)
    (isCopied : copied = (entry.data.take (saturatingAdd (limit.toNat - total) 1)).length)
    (fits : here + copied ≤ bound) :
    Safe byteCount (AtMost bound)
      (fun value _ written => written ≤ here + copied ∧ ∀ next, value = .ok next →
        (if limit.toNat < saturatingAdd total copied then none
          else some (saturatingAdd total copied)) = some next)
      (unpackRegular limit total entry safeDest) history here := by
  have start : here ≤ bound := by omega
  apply Safe.seq (createParents_atMost safeDest start)
  rintro made history _ rfl _
  cases made with
  | error e => exact ⟨start, by omega, nofun⟩
  | ok _ =>
      refine Safe.seq (perform_atMost (.createFile safeDest) ?_ start) ?_
      · rintro response count rfl
        exact start
      rintro created history _ ⟨_, rfl, rfl⟩ _
      cases created with
      | error e => exact ⟨start, by omega, nofun⟩
      | ok file =>
          refine Safe.seq (perform_atMost (.copy file _) ?_ start) ?_
          · rintro response count isCount
            cases response with
            | error e =>
                have partly : count ≤ _ := isCount
                omega
            | ok written =>
                obtain ⟨_, isCount⟩ := isCount
                omega
          rintro response history written ⟨count, isCount, rfl⟩ _
          cases response with
          | error e =>
              have partly : count ≤ _ := isCount
              exact ⟨by omega, by omega, nofun⟩
          | ok written =>
              obtain ⟨isWritten, isCount⟩ := isCount
              rw [← isCopied] at isWritten isCount
              subst isWritten isCount
              by_cases exceeds : limit.toNat < saturatingAdd total count
              · simp only [exceeds, if_true]
                exact ⟨fits, Nat.le_refl _, nofun⟩
              · simp only [exceeds, if_false]
                exact ⟨fits, Nat.le_refl _, fun _ isNext => congrArg some (Except.ok.inj isNext)⟩

/-- An entry writes no more than its fault-free bytes, and goes on only with the
fault-free total. -/
theorem unpackEntry_atMost (total : Nat) (entry : TarEntry)
    (fits : here + (entryBytes dest limit total entry).1 ≤ bound) :
    Safe byteCount (AtMost bound)
      (fun value _ written => written ≤ here + (entryBytes dest limit total entry).1 ∧
        ∀ next, value = .ok next → (entryBytes dest limit total entry).2 = some next)
      (unpackEntry dest limit total entry) history here := by
  have start : here ≤ bound := by omega
  unfold unpackEntry
  cases checked : checkEntry dest entry with
  | error e => exact ⟨start, by omega, nofun⟩
  | ok safeDest =>
      by_cases isFile : entry.entryType.isFile
      · simp only [entryBytes, checked, isFile, if_true] at fits ⊢
        exact unpackRegular_atMost total entry safeDest _ rfl fits
      · simp only [entryBytes, checked, isFile] at fits ⊢
        refine Safe.seq (perform_atMost (.unpack entry safeDest) ?_ start) ?_
        · rintro response count isCount
          cases response with
          | error e =>
              have partly : count ≤ entry.payload := isCount
              exact (Nat.add_le_add_left partly here).trans fits
          | ok _ =>
              rw [show count = entry.payload from isCount]
              exact fits
        · rintro response history written ⟨count, isCount, rfl⟩ within
          cases response with
          | error e =>
              have partly : count ≤ entry.payload := isCount
              exact ⟨within, Nat.add_le_add_left partly here, nofun⟩
          | ok _ =>
              rw [show count = entry.payload from isCount] at within ⊢
              exact ⟨within, Nat.le_refl _, fun next isNext => congrArg some (Except.ok.inj isNext)⟩

/-- The loop writes no more than its fault-free bytes, and returns `Ok` only if the
fault-free run does. -/
theorem unpackLoop_atMost (total : Nat) (items : List (Except IoError TarEntry))
    (fits : here + (loopBytes dest limit total items).1 ≤ bound) :
    Safe byteCount (AtMost bound)
      (fun value _ _ => value = .ok () → (loopBytes dest limit total items).2 = true)
      (unpackLoop dest limit total items) history here := by
  have start : here ≤ bound := by omega
  induction items generalizing total here history with
  | nil => exact ⟨start, fun _ => rfl⟩
  | cons item rest ih =>
      cases item with
      | error e => exact ⟨start, nofun⟩
      | ok entry =>
          unfold loopBytes at fits ⊢
          rcases isEntry : entryBytes dest limit total entry with ⟨bytes, onward⟩
          rw [isEntry] at fits
          have entryFits : here + (entryBytes dest limit total entry).1 ≤ bound := by
            rw [isEntry]
            cases onward with
            | none => exact fits
            | some total => exact (Nat.add_le_add_left (Nat.le_add_right _ _) here).trans fits
          apply Safe.seq (unpackEntry_atMost total entry entryFits)
          rintro value history written ⟨bounded, goesOn⟩ within
          rw [isEntry] at bounded goesOn
          cases value with
          | error e => exact ⟨within, nofun⟩
          | ok next =>
              obtain rfl : onward = some next := goesOn next rfl
              exact ih next (by simp only at bounded fits; omega) within

/-- The run in which no call fails. -/
def faultFree : Handler tarSignature Nat
  | written, .openArchive => (.ok (), written)
  | written, .createDirAll _ => (.ok (), written)
  | written, .createFile _ => (.ok 0, written)
  | written, .copy _ bytes => (.ok bytes.length, written + bytes.length)
  | written, .unpack entry _ => (.ok (), written + entry.payload)

/-- What is answered without faults counts the bytes. -/
theorem faultFree_counts (written : Nat) (op : TarOp) (response : tarSignature.Response op)
    (next : Nat) (answer : faultFree.world.Answers written op response next) :
    byteCount.Answers written op response next := by
  cases op with
  | openArchive =>
      cases answer
      exact ⟨0, rfl, rfl⟩
  | createDirAll path =>
      cases answer
      exact ⟨0, rfl, rfl⟩
  | createFile path =>
      cases answer
      exact ⟨0, rfl, rfl⟩
  | copy file bytes =>
      cases answer
      exact ⟨bytes.length, ⟨rfl, rfl⟩, rfl⟩
  | unpack entry dst =>
      cases answer
      exact ⟨entry.payload, rfl, rfl⟩

/-- Without faults the directories are made. -/
theorem faultFree_createParents (path : Path) (written : Nat) :
    (faultFree.eval (createParents path) written).value = .ok () ∧
      (faultFree.eval (createParents path) written).state = written := by
  unfold createParents
  cases parent path with
  | none => exact ⟨rfl, rfl⟩
  | some above => exact ⟨rfl, rfl⟩

/-- Without faults a file is copied up to one byte over the cap. -/
theorem faultFree_unpackRegular (limit : UInt64) (total : Nat) (entry : TarEntry) (safeDest : Path)
    (written copied : Nat)
    (isCopied : copied = (entry.data.take (saturatingAdd (limit.toNat - total) 1)).length) :
    let outcome := faultFree.eval (unpackRegular limit total entry safeDest) written
    outcome.state = written + copied ∧
      outcome.value = if limit.toNat < saturatingAdd total copied then
          .error (.decompressionLimit limit.toNat "tar-entry")
        else .ok (saturatingAdd total copied) := by
  unfold unpackRegular
  rw [Handler.eval_bind]
  obtain ⟨isMade, atStart⟩ := faultFree_createParents safeDest written
  simp only [isMade, atStart]
  subst isCopied
  -- Both calls succeed, so what is left is the check of the new total.
  generalize entry.data.take (saturatingAdd (limit.toNat - total) 1) = bounded
  let final : TarProgram (Result Nat) :=
    if limit.toNat < saturatingAdd total bounded.length then
      return .error (.decompressionLimit limit.toNat "tar-entry")
    else
      return .ok (saturatingAdd total bounded.length)
  change (faultFree.eval final (written + bounded.length)).state = _ ∧
    (faultFree.eval final (written + bounded.length)).value = _
  simp only [final]
  split_ifs with exceeds
  · exact ⟨rfl, rfl⟩
  · exact ⟨rfl, rfl⟩

/-- Without faults an entry ends as its bytes say. -/
theorem faultFree_unpackEntry (dest : Path) (limit : UInt64) (total : Nat) (entry : TarEntry)
    (written : Nat) :
    let outcome := faultFree.eval (unpackEntry dest limit total entry) written
    outcome.state = written + (entryBytes dest limit total entry).1 ∧
      ((entryBytes dest limit total entry).2 = none → ∃ e, outcome.value = .error e) ∧
      ∀ next, (entryBytes dest limit total entry).2 = some next → outcome.value = .ok next := by
  unfold unpackEntry entryBytes
  cases checkEntry dest entry with
  | error e => exact ⟨rfl, fun _ => ⟨e, rfl⟩, nofun⟩
  | ok safeDest =>
      by_cases isFile : entry.entryType.isFile
      · simp only [isFile, if_true]
        obtain ⟨isState, isValue⟩ :=
          faultFree_unpackRegular limit total entry safeDest written _ rfl
        refine ⟨isState, ?_⟩
        rw [isValue]
        split_ifs with exceeds
        · exact ⟨fun _ => ⟨_, rfl⟩, nofun⟩
        · exact ⟨nofun, fun next isNext => congrArg Except.ok (Option.some.inj isNext)⟩
      · simp only [isFile]
        exact ⟨rfl, nofun, fun next isNext => congrArg Except.ok (Option.some.inj isNext)⟩

/-- The fault-free run writes what `loopBytes` says and ends as it says. -/
theorem faultFree_unpackLoop (dest : Path) (limit : UInt64) (total : Nat)
    (items : List (Except IoError TarEntry)) (written : Nat) :
    let outcome := faultFree.eval (unpackLoop dest limit total items) written
    outcome.state = written + (loopBytes dest limit total items).1 ∧
      ((loopBytes dest limit total items).2 = true → outcome.value = .ok ()) := by
  induction items generalizing total written with
  | nil => exact ⟨rfl, fun _ => rfl⟩
  | cons item rest ih =>
      cases item with
      | error e => exact ⟨rfl, nofun⟩
      | ok entry =>
          obtain ⟨isState, stops, goesOn⟩ :=
            faultFree_unpackEntry dest limit total entry written
          unfold unpackLoop loopBytes
          rw [Handler.eval_bind]
          rcases isEntry : entryBytes dest limit total entry with ⟨bytes, onward⟩
          rw [isEntry] at isState stops goesOn
          cases onward with
          | none =>
              obtain ⟨e, isError⟩ := stops rfl
              simp only [isState, isError]
              exact ⟨rfl, nofun⟩
          | some next =>
              obtain ⟨restState, restValue⟩ := ih next (written + bytes)
              simp only [isState, goesOn next rfl]
              exact ⟨by rw [restState, Nat.add_assoc], restValue⟩

/-- The cap is kept exactly when the fault-free run keeps it. -/
theorem keepsLimit_iff (archive : Archive) (dest : Path) (limit : UInt64) :
    KeepsLimit limit (untarWithLimit archive dest limit) ↔
      (loopBytes dest limit 0 archive.items).1 ≤ saturatingAdd limit.toNat 1 ∧
        ((loopBytes dest limit 0 archive.items).2 = true →
          (loopBytes dest limit 0 archive.items).1 ≤ limit.toNat) := by
  have isLoop : unpackEntries archive dest limit = unpackLoop dest limit 0 archive.items := by
    cases archive with
    | error e => rfl
    | ok items => rfl
  constructor
  · intro keeps
    let outcome := faultFree.eval (untarWithLimit archive dest limit) 0
    have run : Returns byteCount _ 0 outcome.events outcome.value outcome.state :=
      (Handler.eval_returns faultFree _ 0).in_world faultFree_counts
    have loop := faultFree_unpackLoop dest limit 0 archive.items 0
    rw [← isLoop, Nat.zero_add] at loop
    obtain ⟨isState, isValue⟩ := loop
    have isBytes : outcome.state = (loopBytes dest limit 0 archive.items).1 := isState
    rw [isBytes] at run
    refine ⟨keeps.written _ _ _ run, fun whole => keeps.returned outcome.events _ ?_⟩
    have isOk : outcome.value = .ok () := isValue whole
    rwa [isOk] at run
  · rintro ⟨written, returned⟩
    have safe : Safe byteCount (AtMost (loopBytes dest limit 0 archive.items).1)
        (fun value _ _ => value = .ok () → (loopBytes dest limit 0 archive.items).2 = true)
        (untarWithLimit archive dest limit) [] 0 := by
      refine Safe.seq (perform_atMost (.createDirAll dest) ?_ (Nat.zero_le _)) ?_
      · rintro response count rfl
        exact Nat.zero_le _
      rintro made history _ ⟨_, rfl, rfl⟩ start
      cases made with
      | error e => exact ⟨start, nofun⟩
      | ok _ =>
          refine Safe.seq (perform_atMost .openArchive ?_ start) ?_
          · rintro response count rfl
            exact start
          rintro opened history _ ⟨_, rfl, rfl⟩ start
          cases opened with
          | error e => exact ⟨start, nofun⟩
          | ok _ =>
              simp only [isLoop]
              exact unpackLoop_atMost 0 archive.items (by omega)
    refine ⟨fun events remainder bytes run => ?_, fun events bytes run => ?_⟩
    · exact (safe.inv_of_reaches run).trans written
    · exact (safe.inv_of_reaches run).trans (returned (safe.post_of_returns run rfl))

end AltairRs.Compress
