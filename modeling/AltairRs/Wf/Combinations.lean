import Mathlib.Data.String.Basic
import AltairRs.Data.Keyed
import AltairRs.Data.MixedRadix
import AltairRs.Wf.Helpers

/-!
# The cartesian expansion is exact and ordered

`fill` never clears its scratch map on the way back: an entry left over from an
earlier branch stands until it is overwritten. Each collected map therefore
reads the tuple of its position, because every key that still has to be chosen
is entered before the map is collected.
-/

namespace AltairRs.Wf

/-- A map reads as a tuple of values for its keys, over what stands below it. -/
def ReadsTuple (keys : List String) (below : String → Option String)
    (map : Parameters String) (tuple : List String) : Prop :=
  ∀ key, map.lookup key = ((keys.zip tuple).lookup key).or (below key)

/-- The scratch map may hold anything under the keys still to be chosen. -/
def StaleOnlyAt (keys : List String) (below : String → Option String)
    (scratch : Parameters String) : Prop :=
  ∀ key ∉ keys, scratch.lookup key = below key

/-- Inserting a key makes what is stored for it fresh. -/
theorem staleOnlyAt_insert {keys : List String} {key : String} {below : String → Option String}
    {scratch : Parameters String} (stale : StaleOnlyAt (key :: keys) below scratch)
    (value : String) :
    StaleOnlyAt keys (Function.update below key (some value)) (scratch.insert key value) := by
  intro other notLater
  by_cases same : other = key
  · subst same
    rw [AList.lookup_insert, Function.update_self]
  · rw [AList.lookup_insert_ne same, Function.update_of_ne same]
    exact stale other (List.not_mem_cons_of_ne_of_not_mem same notLater)

/-- A stale entry under a chosen key is no more than a stale entry. -/
theorem staleOnlyAt_of_update {keys : List String} {key : String} {value : Option String}
    {below : String → Option String} {scratch : Parameters String}
    (stale : StaleOnlyAt keys (Function.update below key value) scratch) :
    StaleOnlyAt (key :: keys) below scratch := by
  intro other notChosen
  obtain ⟨different, notLater⟩ := not_or.mp (mt List.mem_cons.mpr notChosen)
  rw [stale other notLater, Function.update_of_ne different]

/-- The tuple that is read has the new value in front. -/
theorem readsTuple_of_update {keys : List String} {key value : String}
    {below : String → Option String} {map : Parameters String} {tuple : List String}
    (fresh : key ∉ keys)
    (reads : ReadsTuple keys (Function.update below key (some value)) map tuple) :
    ReadsTuple (key :: keys) below map (value :: tuple) := by
  intro other
  rw [reads other, List.zip_cons_cons, List.lookup_cons]
  by_cases same : other = key
  · subst same
    have notLater : (keys.zip tuple).lookup other = none :=
      List.lookup_eq_none_iff.mpr fun entry member =>
        bne_iff_ne.mpr fun isKey => fresh (isKey ▸ (List.of_mem_zip member).1)
    rw [notLater, beq_self_eq_true, Function.update_self]
    rfl
  · rw [beq_false_of_ne same, Function.update_of_ne same]

/-- What a call of `fill` collects, and what it leaves in the scratch map. -/
structure Fills (choices : List (String × List String)) (below : String → Option String)
    (out : List (Parameters String)) (filled : Parameters String × List (Parameters String)) :
    Prop where
  collected : ∃ emitted, filled.2 = out ++ emitted ∧
    List.Forall₂ (ReadsTuple (choices.map Prod.fst) below) emitted
      (MixedRadix.tuples (choices.map Prod.snd))
  scratch : StaleOnlyAt (choices.map Prod.fst) below filled.1

/-- The loop over the values of one key: each turn leaves the scratch map as stale as before. -/
theorem values_fills {key : String} {deeper : List (String × List String)}
    {below : String → Option String} (fresh : key ∉ deeper.map Prod.fst)
    (deeperFills : ∀ {below : String → Option String} {current : Parameters String},
      StaleOnlyAt (deeper.map Prod.fst) below current →
        ∀ out, Fills deeper below out (fill deeper current out))
    (values : List String) {current : Parameters String}
    (stale : StaleOnlyAt (key :: deeper.map Prod.fst) below current)
    (out : List (Parameters String)) :
    Fills ((key, values) :: deeper) below out (fill ((key, values) :: deeper) current out) := by
  rw [fill]
  induction values generalizing current out with
  | nil => exact ⟨⟨[], (List.append_nil out).symm, .nil⟩, stale⟩
  | cons value values turn =>
      obtain ⟨⟨first, firstOut, firstReads⟩, firstStale⟩ :=
        deeperFills (staleOnlyAt_insert stale value) out
      obtain ⟨⟨later, laterOut, laterReads⟩, laterStale⟩ :=
        turn (staleOnlyAt_of_update firstStale) (fill deeper (current.insert key value) out).2
      refine ⟨⟨first ++ later, ?_, ?_⟩, laterStale⟩
      · rw [← List.append_assoc, ← firstOut]
        exact laterOut
      · apply List.rel_append _ laterReads
        rw [List.forall₂_map_right_iff]
        exact firstReads.imp fun map tuple reads => readsTuple_of_update fresh reads

/-- Whatever an earlier branch left under the keys still to be chosen, `fill` collects one map
for each tuple, in the order of the tuples. -/
theorem fill_fills {choices : List (String × List String)}
    (distinct : (choices.map Prod.fst).Nodup) {below : String → Option String}
    {current : Parameters String} (stale : StaleOnlyAt (choices.map Prod.fst) below current)
    (out : List (Parameters String)) : Fills choices below out (fill choices current out) := by
  induction choices generalizing below current out with
  | nil =>
      refine ⟨⟨[current], rfl, .cons ?_ .nil⟩, stale⟩
      intro key
      exact stale key List.not_mem_nil
  | cons choice deeper ih =>
      obtain ⟨fresh, deeperDistinct⟩ := List.nodup_cons.mp distinct
      exact values_fills fresh (ih deeperDistinct) choice.2 stale out

/-- The values a parameter may take. -/
def valuesOf (params : Parameters (List String)) (key : String) : List String :=
  (params.lookup key).getD []

/-- The keys in the order in which `fill` chooses them. -/
def sortedKeys (params : Parameters (List String)) : List String :=
  params.keys.mergeSort (· ≤ ·)

/-- How many values each key has, in that order: the radices of the counting. -/
def valueCounts (params : Parameters (List String)) : List Nat :=
  (sortedKeys params).map fun key => (valuesOf params key).length

/-- Sorting loses no key. -/
theorem sortedKeys_perm (params : Parameters (List String)) :
    (sortedKeys params).Perm params.keys :=
  List.mergeSort_perm _ _

/-- Sorted keys increase. -/
theorem sortedKeys_increasing (params : Parameters (List String)) :
    (sortedKeys params).Pairwise (· < ·) := by
  have sorted :
      (sortedKeys params).Pairwise fun first second => decide (first ≤ second) = true := by
    apply List.pairwise_mergeSort
    · intro first second third below above
      rw [decide_eq_true_eq] at below above ⊢
      exact below.trans above
    · intro first second
      simp [le_total]
  have distinct : (sortedKeys params).Nodup :=
    (sortedKeys_perm params).nodup_iff.mpr params.keys_nodup
  exact sorted.imp₂ (fun _ _ below different => lt_of_le_of_ne (of_decide_eq_true below) different)
    distinct

/-- The keys are those of the parameters. -/
theorem mem_sortedKeys {params : Parameters (List String)} {key : String} :
    key ∈ sortedKeys params ↔ key ∈ params :=
  (sortedKeys_perm params).mem_iff

/-- The combinations, in terms of the sorted keys alone. -/
theorem generateParameterCombinations_eq {params : Parameters (List String)}
    (nonempty : params.entries ≠ []) :
    generateParameterCombinations params =
      (fill ((sortedKeys params).map fun key => (key, valuesOf params key)) ∅ []).2 := by
  rw [generateParameterCombinations, List.isEmpty_eq_false_iff.mpr nonempty]
  have paired : ((sortedKeys params).map id).zip ((sortedKeys params).map (valuesOf params)) =
      (sortedKeys params).map fun key => (key, valuesOf params key) := List.zip_map'
  rw [List.map_id] at paired
  exact congrArg (fun choices => (fill choices ∅ []).2) paired

/-- The combinations read the tuples of the value lists, one each and in order. -/
theorem generateParameterCombinations_tuples {params : Parameters (List String)}
    (nonempty : params.entries ≠ []) :
    List.Forall₂ (ReadsTuple (sortedKeys params) fun _ => none)
      (generateParameterCombinations params)
      (MixedRadix.tuples ((sortedKeys params).map (valuesOf params))) := by
  have keys : ((sortedKeys params).map fun key => (key, valuesOf params key)).map Prod.fst =
      sortedKeys params := by
    rw [List.map_map]
    exact List.map_id _
  have values : ((sortedKeys params).map fun key => (key, valuesOf params key)).map Prod.snd =
      (sortedKeys params).map (valuesOf params) := List.map_map
  have distinct : (sortedKeys params).Nodup :=
    (sortedKeys_increasing params).imp fun less => less.ne
  obtain ⟨⟨emitted, emittedAll, reads⟩, -⟩ :=
    fill_fills (keys.symm ▸ distinct) (fun key _ => AList.lookup_empty key) []
  rw [keys, values] at reads
  rw [generateParameterCombinations_eq nonempty, emittedAll]
  exact reads

/-- Every key has a count. -/
theorem length_valueCounts (params : Parameters (List String)) :
    (valueCounts params).length = (sortedKeys params).length :=
  List.length_map _

/-- The counts multiply to the number of combinations. -/
theorem valueCounts_prod (params : Parameters (List String)) :
    (valueCounts params).prod = (params.entries.map fun entry => entry.2.length).prod := by
  have perm : (valueCounts params).Perm
      (params.keys.map fun key => (valuesOf params key).length) :=
    (sortedKeys_perm params).map _
  rw [perm.prod_eq, AList.keys, List.keys, List.map_map]
  congr 1
  apply List.map_congr_left
  intro entry member
  have found : params.lookup entry.1 = some entry.2 := AList.mem_lookup_iff.mpr member
  simp only [Function.comp_apply, valuesOf, found, Option.getD_some]

/-- So many combinations are generated. -/
theorem length_generateParameterCombinations {params : Parameters (List String)}
    (nonempty : params.entries ≠ []) :
    (generateParameterCombinations params).length =
      (params.entries.map fun entry => entry.2.length).prod := by
  rw [(generateParameterCombinations_tuples nonempty).length_eq, MixedRadix.length_tuples,
    List.map_map, ← valueCounts_prod]
  rfl

/-- Every combination reads as the tuple its position counts to. -/
theorem reads_generateParameterCombinations {params : Parameters (List String)}
    (nonempty : params.entries ≠ []) {i : Nat}
    (inside : i < (generateParameterCombinations params).length) :
    ∃ tuple, tuple.length = (sortedKeys params).length ∧
      ReadsTuple (sortedKeys params) (fun _ => none)
        (generateParameterCombinations params)[i] tuple ∧
      List.Forall₂ (fun value (row : List String × Nat) => row.1[row.2]? = some value) tuple
        (((sortedKeys params).map (valuesOf params)).zip
          (MixedRadix.digits (valueCounts params) i)) := by
  have reads := generateParameterCombinations_tuples nonempty
  have counts : ((sortedKeys params).map (valuesOf params)).map List.length =
      valueCounts params := List.map_map
  have small : i < (((sortedKeys params).map (valuesOf params)).map List.length).prod := by
    rw [← MixedRadix.length_tuples, ← reads.length_eq]
    exact inside
  obtain ⟨tuple, there, rows⟩ := MixedRadix.getElem?_tuples small
  obtain ⟨insideTuples, isTuple⟩ := List.getElem?_eq_some_iff.mp there
  refine ⟨tuple, ?_, ?_, counts ▸ rows⟩
  · rw [MixedRadix.length_of_mem_tuples (List.mem_of_getElem? there), List.length_map]
  · rw [← isTuple]
    exact reads.get inside insideTuples

/-- Each combination assigns to a key the value that the digit at the key's place picks. -/
theorem lookup_generateParameterCombinations {params : Parameters (List String)}
    (nonempty : params.entries ≠ []) {i : Nat}
    (inside : i < (generateParameterCombinations params).length) {place : Nat}
    (atKey : place < (sortedKeys params).length) :
    ∃ digit value, (MixedRadix.digits (valueCounts params) i)[place]? = some digit ∧
      (valuesOf params (sortedKeys params)[place])[digit]? = some value ∧
        (generateParameterCombinations params)[i].lookup (sortedKeys params)[place] =
          some value := by
  obtain ⟨tuple, sameLength, reads, rows⟩ := reads_generateParameterCombinations nonempty inside
  have fits : MixedRadix.Numeral (valueCounts params)
      (MixedRadix.digits (valueCounts params) i) := by
    apply MixedRadix.digits_numeral
    rw [valueCounts_prod, ← length_generateParameterCombinations nonempty]
    exact inside
  have digitThere : place < (MixedRadix.digits (valueCounts params) i).length := by
    rw [fits.length_eq, length_valueCounts]
    exact atKey
  have rowThere : place < (((sortedKeys params).map (valuesOf params)).zip
      (MixedRadix.digits (valueCounts params) i)).length := by
    rw [List.length_zip, List.length_map]
    exact lt_min atKey digitThere
  have valueThere : place < tuple.length := sameLength ▸ atKey
  refine ⟨(MixedRadix.digits (valueCounts params) i)[place], tuple[place],
    List.getElem?_eq_getElem digitThere, ?_, ?_⟩
  · have picked := rows.get valueThere rowThere
    simpa only [List.get_eq_getElem, List.getElem_zip, List.getElem_map] using picked
  · have entered : ((sortedKeys params)[place], tuple[place]) ∈ (sortedKeys params).zip tuple := by
      rw [List.mem_iff_getElem]
      refine ⟨place, ?_, List.getElem_zip⟩
      rw [List.length_zip]
      exact lt_min atKey valueThere
    have distinct : (((sortedKeys params).zip tuple).map Prod.fst).Nodup := by
      rw [List.map_fst_zip sameLength.ge]
      exact (sortedKeys_increasing params).imp fun less => less.ne
    rw [reads, (Keyed.lookup_eq_some_iff distinct _ _).mpr entered]
    rfl

/-- No other key is assigned. -/
theorem lookup_generateParameterCombinations_eq_none {params : Parameters (List String)}
    (nonempty : params.entries ≠ []) {i : Nat}
    (inside : i < (generateParameterCombinations params).length) {key : String}
    (other : key ∉ params) : (generateParameterCombinations params)[i].lookup key = none := by
  obtain ⟨tuple, -, reads, -⟩ := reads_generateParameterCombinations nonempty inside
  have notListed : ((sortedKeys params).zip tuple).lookup key = none :=
    List.lookup_eq_none_iff.mpr fun entry member =>
      bne_iff_ne.mpr fun isKey =>
        other (mem_sortedKeys.mp (isKey ▸ (List.of_mem_zip member).1))
  rw [reads, notListed]
  rfl

/-- The order in which a map iterates its entries does not show. -/
theorem generateParameterCombinations_perm {params shuffled : Parameters (List String)}
    (perm : shuffled.entries.Perm params.entries) :
    generateParameterCombinations shuffled = generateParameterCombinations params := by
  have sameValues : valuesOf shuffled = valuesOf params := by
    ext key
    rw [valuesOf, valuesOf, AList.perm_lookup perm]
  have samePerm : (sortedKeys shuffled).Perm (sortedKeys params) :=
    ((sortedKeys_perm shuffled).trans (perm.map Sigma.fst)).trans (sortedKeys_perm params).symm
  have sameKeys : sortedKeys shuffled = sortedKeys params :=
    samePerm.eq_of_pairwise (fun _ _ _ _ below above => absurd (below.trans above) (lt_irrefl _))
      (sortedKeys_increasing shuffled) (sortedKeys_increasing params)
  by_cases empty : params.entries = []
  · have emptyToo : shuffled.entries = [] := List.perm_nil.mp (empty ▸ perm)
    rw [generateParameterCombinations, generateParameterCombinations, empty, emptyToo]
    rfl
  · have nonempty : shuffled.entries ≠ [] := fun isNil =>
      empty (List.nil_perm.mp (isNil ▸ perm))
    rw [generateParameterCombinations_eq nonempty, generateParameterCombinations_eq empty,
      sameKeys, sameValues]

/-- The expansion is the product of the value lists: as many combinations as the product of
their lengths, the one at a position assigning to every key, and no other, the value which the
position's digits pick for it, the last key in sorted order varying fastest. Every tuple of
positions is met exactly once, a key without values leaves nothing, and the order of the map
does not matter. -/
theorem generateParameterCombinations_exact (params : Parameters (List String))
    (nonempty : params.entries ≠ []) :
    let combinations := generateParameterCombinations params
    let positions := MixedRadix.digits (valueCounts params)
    ((sortedKeys params).Pairwise (· < ·) ∧ ∀ key, key ∈ sortedKeys params ↔ key ∈ params) ∧
      combinations.length = (params.entries.map fun entry => entry.2.length).prod ∧
      (∀ (i : Nat) (inside : i < combinations.length),
        (∀ (place : Nat) (atKey : place < (sortedKeys params).length),
          ∃ digit value, (positions i)[place]? = some digit ∧
            (valuesOf params (sortedKeys params)[place])[digit]? = some value ∧
              combinations[i].lookup (sortedKeys params)[place] = some value) ∧
          ∀ key ∉ params, combinations[i].lookup key = none) ∧
      (∀ i < combinations.length, MixedRadix.Numeral (valueCounts params) (positions i)) ∧
      (∀ tuple, MixedRadix.Numeral (valueCounts params) tuple →
        ∃! i, i < combinations.length ∧ positions i = tuple) ∧
      ((∃ key, params.lookup key = some []) → combinations = []) ∧
      ∀ shuffled : Parameters (List String), shuffled.entries.Perm params.entries →
        generateParameterCombinations shuffled = combinations := by
  intro combinations positions
  have counted : combinations.length = (valueCounts params).prod := by
    rw [valueCounts_prod]
    exact length_generateParameterCombinations nonempty
  refine ⟨⟨sortedKeys_increasing params, fun _ => mem_sortedKeys⟩,
    length_generateParameterCombinations nonempty, ?_, ?_, ?_, ?_, ?_⟩
  · intro i inside
    exact ⟨fun _ atKey => lookup_generateParameterCombinations nonempty inside atKey,
      fun _ other => lookup_generateParameterCombinations_eq_none nonempty inside other⟩
  · intro i inside
    exact MixedRadix.digits_numeral (counted ▸ inside)
  · intro tuple fits
    rw [counted]
    exact MixedRadix.existsUnique_digits fits
  · rintro ⟨key, noValues⟩
    have listed : ⟨key, []⟩ ∈ params.entries := AList.mem_lookup_iff.mp noValues
    rw [← List.length_eq_zero_iff, length_generateParameterCombinations nonempty,
      List.prod_eq_zero_iff_exists_zero_nat]
    exact ⟨0, List.mem_map.mpr ⟨_, listed, rfl⟩, rfl⟩
  · intro shuffled perm
    exact generateParameterCombinations_perm perm

/-- Two regions and two sizes. -/
def regionsAndSizes : Parameters (List String) :=
  (AList.singleton "size" ["s", "l"]).insert "region" ["eu", "us"]

/-- Two regions and two sizes. -/
theorem generateParameterCombinations_exact_regionsAndSizes :
    (generateParameterCombinations regionsAndSizes).length = 4 ∧
      ∀ tuple, MixedRadix.Numeral (valueCounts regionsAndSizes) tuple →
        ∃! i, i < 4 ∧ MixedRadix.digits (valueCounts regionsAndSizes) i = tuple := by
  obtain ⟨-, counted, -, -, met, -, -⟩ :=
    generateParameterCombinations_exact regionsAndSizes (by decide)
  have four : (generateParameterCombinations regionsAndSizes).length = 4 := counted
  exact ⟨four, four ▸ met⟩

end AltairRs.Wf
