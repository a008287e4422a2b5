import AltairRs.Compress.FaultFree

/-!
# The byte cap of tar

The cap counts the bytes of regular entries only, so whether it is kept depends
on the payloads of the other types; at `u64::MAX` the running total saturates
below the bytes.
-/

namespace AltairRs.Compress

open Effect Unix

/-- The cap is kept for one archive, plain or compressed. -/
def WithinLimit (archive : Archive) (dest : Path) (limit : UInt64) : Prop :=
  KeepsLimit limit (untarWithLimit archive dest limit) ∧
    KeepsLimit limit (untarGzWithLimit archive dest limit)

/-- The entries before the first that cannot be read or is rejected. -/
def acceptedEntries (dest : Path) : List (Except IoError TarEntry) → List TarEntry
  | [] | .error _ :: _ => []
  | .ok entry :: rest =>
      match checkEntry dest entry with
      | .error _ => []
      | .ok _ => entry :: acceptedEntries dest rest

/-- Whether every entry is read and accepted. -/
def allAccepted (dest : Path) : List (Except IoError TarEntry) → Bool
  | [] => true
  | .error _ :: _ => false
  | .ok entry :: rest =>
      match checkEntry dest entry with
      | .error _ => false
      | .ok _ => allAccepted dest rest

/-- The payload bytes of a regular entry, which are counted. -/
def TarEntry.counted (entry : TarEntry) : Nat :=
  if entry.entryType.isFile then entry.data.length else 0

/-- The bytes written for another entry, which are not. -/
def TarEntry.uncounted (entry : TarEntry) : Nat :=
  if entry.entryType.isFile then 0 else entry.payload

def regularBytes (entries : List TarEntry) : Nat := (entries.map TarEntry.counted).sum

def uncountedBytes (entries : List TarEntry) : Nat := (entries.map TarEntry.uncounted).sum

/-- The exact condition on the entries of an archive, given those accepted. -/
def FitsLimit (limit : Nat) (accepted : List TarEntry) (isWhole : Bool) : Prop :=
  regularBytes accepted + uncountedBytes accepted ≤ limit ∨
    limit < 2 ^ 64 - 1 ∧
      ((∃ front, front <+: accepted ∧ limit < regularBytes front ∧ uncountedBytes front = 0) ∨
        isWhole = false ∧ regularBytes accepted + uncountedBytes accepted ≤ limit + 1)

variable {dest : Path} {limit : UInt64}

/-- An entry that fits is written whole. -/
theorem entryBytes_of_fits {total : Nat} {entry : TarEntry} {safeDest : Path}
    (checked : checkEntry dest entry = .ok safeDest)
    (fits : total + entry.counted ≤ limit.toNat) :
    entryBytes dest limit total entry =
      (entry.counted + entry.uncounted, some (total + entry.counted)) := by
  have limitBound := limit.toNat_lt
  unfold TarEntry.counted at fits ⊢
  unfold entryBytes TarEntry.uncounted
  rw [checked]
  by_cases isFile : entry.entryType.isFile
  · simp only [isFile, if_true] at fits ⊢
    have whole : (entry.data.take (saturatingAdd (limit.toNat - total) 1)).length =
        entry.data.length := by
      rw [List.length_take]
      unfold saturatingAdd
      omega
    have isSum : saturatingAdd total entry.data.length = total + entry.data.length := by
      unfold saturatingAdd
      omega
    rw [whole, isSum, if_neg (Nat.not_lt.mpr fits), Nat.add_zero]
  · simp [isFile]

/-- Below `u64::MAX`, an entry that passes the cap is cut one byte over it. -/
theorem entryBytes_of_exceeds {total : Nat} {entry : TarEntry} {safeDest : Path}
    (checked : checkEntry dest entry = .ok safeDest) (below : limit.toNat < 2 ^ 64 - 1)
    (within : total ≤ limit.toNat) (exceeds : limit.toNat < total + entry.counted) :
    entryBytes dest limit total entry = (limit.toNat + 1 - total, none) ∧
      entry.uncounted = 0 := by
  unfold TarEntry.counted at exceeds
  unfold entryBytes TarEntry.uncounted
  rw [checked]
  by_cases isFile : entry.entryType.isFile
  · simp only [isFile, if_true] at exceeds ⊢
    have isCut : (entry.data.take (saturatingAdd (limit.toNat - total) 1)).length =
        limit.toNat + 1 - total := by
      rw [List.length_take]
      unfold saturatingAdd
      omega
    have isSum : saturatingAdd total (limit.toNat + 1 - total) = limit.toNat + 1 := by
      unfold saturatingAdd
      omega
    rw [isCut, isSum, if_pos (Nat.lt_succ_self _)]
    exact ⟨rfl, trivial⟩
  · simp only [isFile] at exceeds
    exact absurd exceeds (by simpa using within)

/-- At `u64::MAX`, an entry that passes the cap is written past it. -/
theorem entryBytes_of_max {total : Nat} {entry : TarEntry} {safeDest : Path}
    (checked : checkEntry dest entry = .ok safeDest) (isMax : limit.toNat = 2 ^ 64 - 1)
    (within : total ≤ limit.toNat) (exceeds : limit.toNat < total + entry.counted) :
    limit.toNat < total + (entryBytes dest limit total entry).1 := by
  have sizeBound := entry.size_lt
  unfold TarEntry.counted at exceeds
  unfold entryBytes
  rw [checked]
  by_cases isFile : entry.entryType.isFile
  · simp only [isFile, if_true, List.length_take] at exceeds ⊢
    unfold saturatingAdd
    omega
  · simp only [isFile] at exceeds
    exact absurd exceeds (by simpa using within)

@[simp] theorem regularBytes_nil : regularBytes [] = 0 := rfl

@[simp] theorem uncountedBytes_nil : uncountedBytes [] = 0 := rfl

@[simp] theorem regularBytes_cons (entry : TarEntry) (rest : List TarEntry) :
    regularBytes (entry :: rest) = entry.counted + regularBytes rest := rfl

@[simp] theorem uncountedBytes_cons (entry : TarEntry) (rest : List TarEntry) :
    uncountedBytes (entry :: rest) = entry.uncounted + uncountedBytes rest := rfl

/-- A front has no more regular bytes. -/
theorem regularBytes_le {front entries : List TarEntry} (isFront : front <+: entries) :
    regularBytes front ≤ regularBytes entries := by
  obtain ⟨rest, rfl⟩ := isFront
  simp [regularBytes]

/-- A front has no more uncounted bytes. -/
theorem uncountedBytes_le {front entries : List TarEntry} (isFront : front <+: entries) :
    uncountedBytes front ≤ uncountedBytes entries := by
  obtain ⟨rest, rfl⟩ := isFront
  simp [uncountedBytes]

/-- The bytes of the loop, entry by entry. -/
theorem loopBytes_cons {total next bytes : Nat} {entry : TarEntry}
    {rest : List (Except IoError TarEntry)}
    (isEntry : entryBytes dest limit total entry = (bytes, some next)) :
    loopBytes dest limit total (.ok entry :: rest) =
      (bytes + (loopBytes dest limit next rest).1, (loopBytes dest limit next rest).2) := by
  rw [loopBytes, isEntry]

/-- When the counted bytes fit, everything accepted is written whole. -/
theorem loopBytes_of_fits (total : Nat) (items : List (Except IoError TarEntry))
    (fits : total + regularBytes (acceptedEntries dest items) ≤ limit.toNat) :
    loopBytes dest limit total items =
      (regularBytes (acceptedEntries dest items) + uncountedBytes (acceptedEntries dest items),
        allAccepted dest items) := by
  induction items generalizing total with
  | nil => rfl
  | cons item rest ih =>
      cases item with
      | error e => rfl
      | ok entry =>
          cases checked : checkEntry dest entry with
          | error e => simp [loopBytes, entryBytes, acceptedEntries, allAccepted, checked]
          | ok safeDest =>
              simp only [acceptedEntries, allAccepted, checked, regularBytes_cons,
                uncountedBytes_cons] at fits ⊢
              have entryFits : total + entry.counted ≤ limit.toNat := by omega
              rw [loopBytes_cons (entryBytes_of_fits checked entryFits), ih _ (by omega)]
              exact Prod.ext (by simp only; omega) rfl

/-- Below `u64::MAX`, the shortest front whose counted bytes pass the cap is
written up to one byte over it, and the loop fails. -/
theorem loopBytes_of_exceeds (below : limit.toNat < 2 ^ 64 - 1) (total : Nat)
    (items : List (Except IoError TarEntry)) (within : total ≤ limit.toNat)
    (exceeds : limit.toNat < total + regularBytes (acceptedEntries dest items)) :
    ∃ front, front <+: acceptedEntries dest items ∧ limit.toNat < total + regularBytes front ∧
      loopBytes dest limit total items =
        (limit.toNat + 1 - total + uncountedBytes front, false) ∧
      ∀ other, other <+: acceptedEntries dest items → limit.toNat < total + regularBytes other →
        front <+: other := by
  induction items generalizing total with
  | nil => exact absurd exceeds (by simpa [acceptedEntries] using within)
  | cons item rest ih =>
      cases item with
      | error e => exact absurd exceeds (by simpa [acceptedEntries] using within)
      | ok entry =>
          cases checked : checkEntry dest entry with
          | error e => exact absurd exceeds (by simpa [acceptedEntries, checked] using within)
          | ok safeDest =>
              simp only [acceptedEntries, checked] at exceeds ⊢
              -- Every front that passes the cap starts with this entry.
              have starts : ∀ other, other <+: entry :: acceptedEntries dest rest →
                  limit.toNat < total + regularBytes other →
                  ∃ more, other = entry :: more ∧ more <+: acceptedEntries dest rest := by
                intro other isFront passes
                cases other with
                | nil => exact absurd passes (by simpa using within)
                | cons first more =>
                    obtain ⟨rfl, isRest⟩ := List.cons_prefix_cons.mp isFront
                    exact ⟨more, rfl, isRest⟩
              by_cases entryFits : total + entry.counted ≤ limit.toNat
              · rw [regularBytes_cons, ← Nat.add_assoc] at exceeds
                obtain ⟨front, isFront, passes, isBytes, shortest⟩ := ih _ entryFits exceeds
                refine ⟨entry :: front, List.cons_prefix_cons.mpr ⟨rfl, isFront⟩, ?_, ?_, ?_⟩
                · rw [regularBytes_cons]
                  omega
                · rw [loopBytes_cons (entryBytes_of_fits checked entryFits), isBytes]
                  exact Prod.ext (by simp only [uncountedBytes_cons]; omega) rfl
                · intro other isOther otherPasses
                  obtain ⟨more, rfl, isMore⟩ := starts other isOther otherPasses
                  rw [regularBytes_cons, ← Nat.add_assoc] at otherPasses
                  exact List.cons_prefix_cons.mpr ⟨rfl, shortest more isMore otherPasses⟩
              · obtain ⟨isEntry, nothing⟩ :=
                  entryBytes_of_exceeds checked below within (Nat.lt_of_not_le entryFits)
                refine ⟨[entry], List.cons_prefix_cons.mpr ⟨rfl, List.nil_prefix⟩, ?_, ?_, ?_⟩
                · simpa using entryFits
                · simp [loopBytes, isEntry, nothing]
                · intro other isOther otherPasses
                  obtain ⟨more, rfl, _⟩ := starts other isOther otherPasses
                  exact List.cons_prefix_cons.mpr ⟨rfl, List.nil_prefix⟩

/-- At `u64::MAX`, counted bytes that pass the cap are written past it. -/
theorem loopBytes_of_max (isMax : limit.toNat = 2 ^ 64 - 1) (total : Nat)
    (items : List (Except IoError TarEntry)) (within : total ≤ limit.toNat)
    (exceeds : limit.toNat < total + regularBytes (acceptedEntries dest items)) :
    limit.toNat < total + (loopBytes dest limit total items).1 := by
  induction items generalizing total with
  | nil => exact absurd exceeds (by simpa [acceptedEntries] using within)
  | cons item rest ih =>
      cases item with
      | error e => exact absurd exceeds (by simpa [acceptedEntries] using within)
      | ok entry =>
          cases checked : checkEntry dest entry with
          | error e => exact absurd exceeds (by simpa [acceptedEntries, checked] using within)
          | ok safeDest =>
              simp only [acceptedEntries, checked, regularBytes_cons] at exceeds
              by_cases entryFits : total + entry.counted ≤ limit.toNat
              · rw [loopBytes_cons (entryBytes_of_fits checked entryFits)]
                have later := ih _ entryFits (by omega)
                simp only
                omega
              · have passes :=
                  entryBytes_of_max checked isMax within (Nat.lt_of_not_le entryFits)
                unfold loopBytes
                rcases isEntry : entryBytes dest limit total entry with ⟨bytes, onward⟩
                rw [isEntry] at passes
                cases onward with
                | none => exact passes
                | some next => exact passes.trans_le (by simp only; omega)

/-- The fault-free run keeps the cap exactly if the entries fit. -/
theorem loopBytes_keeps_iff (dest : Path) (limit : UInt64)
    (items : List (Except IoError TarEntry)) :
    ((loopBytes dest limit 0 items).1 ≤ saturatingAdd limit.toNat 1 ∧
        ((loopBytes dest limit 0 items).2 = true →
          (loopBytes dest limit 0 items).1 ≤ limit.toNat)) ↔
      FitsLimit limit.toNat (acceptedEntries dest items) (allAccepted dest items) := by
  have limitBound := limit.toNat_lt
  have oneOver : saturatingAdd limit.toNat 1 = min (limit.toNat + 1) (2 ^ 64 - 1) := rfl
  unfold FitsLimit
  by_cases fits : regularBytes (acceptedEntries dest items) ≤ limit.toNat
  · rw [loopBytes_of_fits 0 items (by rwa [Nat.zero_add]), oneOver]
    constructor
    · rintro ⟨written, returned⟩
      cases isWhole : allAccepted dest items with
      | true => exact .inl (returned isWhole)
      | false =>
          by_cases allFit : regularBytes (acceptedEntries dest items) +
              uncountedBytes (acceptedEntries dest items) ≤ limit.toNat
          · exact .inl allFit
          · exact .inr ⟨by omega, .inr ⟨rfl, by omega⟩⟩
    · rintro (allFit | ⟨below, ⟨front, isFront, passes, _⟩ | ⟨notWhole, oneMore⟩⟩)
      · exact ⟨by omega, fun _ => allFit⟩
      · have bounded := regularBytes_le isFront
        omega
      · rw [notWhole]
        exact ⟨by omega, nofun⟩
  · have exceeds : limit.toNat < 0 + regularBytes (acceptedEntries dest items) := by omega
    by_cases below : limit.toNat < 2 ^ 64 - 1
    · obtain ⟨front, isFront, passes, isBytes, shortest⟩ :=
        loopBytes_of_exceeds below 0 items (Nat.zero_le _) exceeds
      rw [isBytes, oneOver]
      constructor
      · rintro ⟨written, _⟩
        exact .inr ⟨below, .inl ⟨front, isFront, by omega, by omega⟩⟩
      · intro fitting
        have nothing : uncountedBytes front = 0 := by
          rcases fitting with allFit | ⟨_, ⟨other, isOther, otherPasses, none⟩ | ⟨_, oneMore⟩⟩
          · omega
          · have bounded := uncountedBytes_le (shortest other isOther (by omega))
            omega
          · have bounded := uncountedBytes_le isFront
            omega
        exact ⟨by omega, nofun⟩
    · have past := loopBytes_of_max (by omega) 0 items (Nat.zero_le _) exceeds
      constructor
      · rintro ⟨written, _⟩
        omega
      · rintro (allFit | ⟨isBelow, _⟩)
        · omega
        · exact absurd isBelow below

/-- The cap is kept exactly by the archives that fit: all their bytes stay below
it, or the counted bytes alone stop the extraction, or a bad entry does. -/
theorem withinLimit_iff (archive : Archive) (dest : Path) (limit : UInt64) :
    WithinLimit archive dest limit ↔
      FitsLimit limit.toNat (acceptedEntries dest archive.items)
        (allAccepted dest archive.items) := by
  have same : WithinLimit archive dest limit ↔
      KeepsLimit limit (untarWithLimit archive dest limit) :=
    and_iff_left_of_imp id
  rw [same, keepsLimit_iff, loopBytes_keeps_iff]

/-- A contiguous file of three bytes. -/
def continuousEntry : TarEntry where
  entryType := .continuous
  path := .ok [.normal "x"]
  data := [1, 2, 3]

/-- It is unpacked whole under a cap of nothing. -/
theorem continuousEntry_exceeds : ¬ WithinLimit (.ok [.ok continuousEntry]) [.normal "out"] 0 := by
  intro within
  have returned := ((keepsLimit_iff _ _ _).mp within.1).2 (by decide)
  revert returned
  decide

end AltairRs.Compress
