import Mathlib.Data.List.Lex
import AltairRs.Base32.U64

/-!
# Sortable ids

The texts of `encodeU64` have one width, and the bytes of the alphabet are in the
order of their symbols, so the texts sort as their numbers do.
-/

namespace AltairRs.Base32

open Positional

/-- The alphabet is in the order of its bytes. -/
theorem letterByte_lt {first second : Symbol} (below : first < second) :
    letterByte first < letterByte second := by
  revert first second
  decide

/-- Of two symbol sequences of one width the smaller one spells the smaller number. -/
theorem symbolValue_lt {first second : List Symbol} (sameWidth : first.length = second.length)
    (smaller : first < second) : symbolValue first < symbolValue second := by
  have values : first.map Fin.val < second.map Fin.val :=
    List.map_lt (fun _ _ below => below) smaller
  exact value_lt_value (by decide) (by simpa using sameWidth) lt_of_mem_symbols values

/-- A `u64` has thirteen symbols. -/
theorem length_u64Symbols (n : UInt64) : (u64Symbols n).length = u64EncodedLen := by
  rw [u64Symbols, List.length_map, length_digits]

/-- Different numbers have different symbols. -/
theorem u64Symbols_injective : Function.Injective u64Symbols := by
  intro n m same
  have sameNumber := congrArg symbolValue same
  rw [symbolValue_u64Symbols, symbolValue_u64Symbols] at sameNumber
  exact UInt64.toNat_inj.mp sameNumber

/-- A smaller number has the smaller symbols. -/
theorem u64Symbols_lt {n m : UInt64} (below : n < m) : u64Symbols n < u64Symbols m := by
  have sameWidth : ∀ first second, (u64Symbols first).length = (u64Symbols second).length := by
    intro first second
    rw [length_u64Symbols, length_u64Symbols]
  rcases lt_trichotomy (u64Symbols n) (u64Symbols m) with less | same | greater
  · exact less
  · rw [u64Symbols_injective same] at below
    exact absurd below (UInt64.lt_irrefl m)
  · have above := symbolValue_lt (sameWidth m n) greater
    rw [symbolValue_u64Symbols, symbolValue_u64Symbols] at above
    exact absurd above (Nat.lt_asymm below)

/-- The encoding's bytes are those of its letters. -/
theorem asBytes_encodeU64 (n : UInt64) :
    asBytes (encodeU64 n) = (u64Symbols n).map letterByte := by
  rw [encodeU64_eq, asBytes_letters]

/-- A smaller number sorts first. -/
theorem asBytes_encodeU64_lt {n m : UInt64} (below : n < m) :
    asBytes (encodeU64 n) < asBytes (encodeU64 m) := by
  rw [asBytes_encodeU64, asBytes_encodeU64]
  exact List.map_lt (fun _ _ => letterByte_lt) (u64Symbols_lt below)

/-- The texts sort bytewise as the numbers do, and are different for different
numbers. -/
theorem encodeU64_sortable (n m : UInt64) :
    (n < m ↔ asBytes (encodeU64 n) < asBytes (encodeU64 m)) ∧
      (encodeU64 n = encodeU64 m → n = m) := by
  refine ⟨⟨asBytes_encodeU64_lt, fun smaller => ?_⟩, fun same => ?_⟩
  · rcases Nat.lt_trichotomy n.toNat m.toNat with less | same | greater
    · exact less
    · rw [UInt64.toNat_inj.mp same] at smaller
      exact absurd smaller (List.lt_irrefl _)
    · exact absurd smaller (List.lt_asymm (asBytes_encodeU64_lt greater))
  · rw [encodeU64_eq, encodeU64_eq] at same
    exact u64Symbols_injective
      (List.map_injective_iff.mpr letter_injective (String.ofList_injective same))

end AltairRs.Base32
