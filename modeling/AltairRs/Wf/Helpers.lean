import AltairRs.Wf.Types

/-!
# Parameter combinations

The expansion of a parameter map into one map for each combination. Keys are
sorted first, so that the order does not depend on the map.
-/

namespace AltairRs.Wf

/-- `fill`: extend `current` by every choice for the remaining keys, and collect
it when no key is left. The scratch map is handed back with what was left in it. -/
def fill : List (String × List String) → Parameters String → List (Parameters String) →
    Parameters String × List (Parameters String)
  | [], current, out => (current, out ++ [current])
  | (key, values) :: deeper, current, out =>
      values.foldl (fun (current, out) value => fill deeper (current.insert key value) out)
        (current, out)

/-- `generate_parameter_combinations`. -/
def generateParameterCombinations (params : Parameters (List String)) :
    List (Parameters String) :=
  if params.entries.isEmpty then []
  else
    let keys := params.keys.mergeSort (· ≤ ·)
    let values := keys.map fun key => (params.lookup key).getD []
    (fill (keys.zip values) ∅ []).2

end AltairRs.Wf
