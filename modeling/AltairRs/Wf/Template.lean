import AltairRs.Data.Replacement
import AltairRs.Wf.Types

/-!
# Template substitution

`substituteTemplate` replaces the placeholders of one parameter after those of another,
in the order in which the map iterates, and each time in the whole text: values that
were put in are searched again. The order is of no consequence where no placeholder of
one parameter ever meets what belongs to another.
-/

namespace AltairRs.Wf

open Replacement

/-- The placeholder of a name, whose value is put in its place. -/
def placeholder (name value : String) : Rule Char where
  pattern := "\x7b\x7b".toList ++ name.toList ++ "\x7d\x7d".toList
  replacement := value.toList
  nonempty := by simp

/-- The placeholder of a name, with a dot. -/
def dottedPlaceholder (name value : String) : Rule Char where
  pattern := "\x7b\x7b.".toList ++ name.toList ++ "\x7d\x7d".toList
  replacement := value.toList
  nonempty := by simp

/-- `str::replace` with the placeholder of a name. -/
def replace (text : String) (rule : Rule Char) : String := String.ofList (rule.apply text.toList)

/-- `substitute_template`. -/
def substituteTemplate (tmpl item : String) (index : Nat) (params : Parameters String) : String :=
  let out := replace tmpl (placeholder "item" item)
  let out := replace out (placeholder "index" (toString index))
  params.entries.foldl (fun out entry =>
    let out := replace out (dottedPlaceholder entry.1 entry.2)
    replace out (placeholder entry.1 entry.2)) out

/-- The same text, whatever order the map iterates in. -/
def OrderFree (tmpl item : String) (index : Nat) (params : Parameters String) : Prop :=
  ∀ shuffled : Parameters String, shuffled.entries.Perm params.entries →
    substituteTemplate tmpl item index shuffled = substituteTemplate tmpl item index params

/-- The template once the item and the index have been filled in. -/
def filledIn (tmpl item : String) (index : Nat) : String :=
  replace (replace tmpl (placeholder "item" item)) (placeholder "index" (toString index))

/-- The turn of one parameter. -/
def replacements (entry : (_ : String) × String) : List (Rule Char) :=
  [dottedPlaceholder entry.1 entry.2, placeholder entry.1 entry.2]

/-- The template falls into pieces that each concern one parameter at most: whichever
parameters have been put in, every other one finds its placeholders only within its own
pieces. -/
def Separable (tmpl item : String) (index : Nat) (params : Parameters String) : Prop :=
  ∃ pieces, textOf pieces = (filledIn tmpl item index).toList ∧
    Separates replacements params.entries pieces

/-- `str::replace`, by characters. -/
theorem toList_replace (text : String) (rule : Rule Char) :
    (replace text rule).toList = rule.apply text.toList := String.toList_ofList

/-- The substitution, by characters. -/
theorem substituteTemplate_toList (tmpl item : String) (index : Nat) (params : Parameters String) :
    (substituteTemplate tmpl item index params).toList =
      applyKeys replacements params.entries (filledIn tmpl item index).toList := by
  change (params.entries.foldl _ (filledIn tmpl item index)).toList = _
  generalize filledIn tmpl item index = out
  induction params.entries generalizing out with
  | nil => rfl
  | cons entry entries ih =>
      rw [List.foldl_cons, ih, toList_replace, toList_replace]
      rfl

/-- A template that falls into such pieces becomes the same text in every order. -/
theorem substituteTemplate_orderFree (tmpl item : String) (index : Nat)
    (params : Parameters String) (separable : Separable tmpl item index params) :
    OrderFree tmpl item index params := by
  intro shuffled perm
  obtain ⟨pieces, whole, separates⟩ := separable
  have nodup : params.entries.Nodup := params.nodupKeys.nodup
  apply String.toList_injective
  rw [substituteTemplate_toList, substituteTemplate_toList, ← whole]
  exact separates.order_free nodup perm

/-- A region and a size. -/
def regionAndSize : Parameters String := (AList.singleton "size" "s").insert "region" "eu"

/-- `{{.region}}-{{size}}-{{index}}` -/
def regionSizeIndex : String :=
  "\x7b\x7b.region\x7d\x7d-\x7b\x7bsize\x7d\x7d-\x7b\x7bindex\x7d\x7d"

/-- A region and a size, in either order. -/
theorem substituteTemplate_orderFree_regionAndSize :
    OrderFree regionSizeIndex "" 7 regionAndSize := by
  let pieces : List (Piece ((_ : String) × String) Char) := [
    ⟨some ⟨"region", "eu"⟩, (dottedPlaceholder "region" "eu").pattern⟩,
    ⟨none, "-".toList⟩,
    ⟨some ⟨"size", "s"⟩, (placeholder "size" "s").pattern⟩,
    ⟨none, "-7".toList⟩]
  have whole : textOf pieces = (filledIn regionSizeIndex "" 7).toList := by decide
  have separates : Separates replacements regionAndSize.entries pieces := by decide
  exact substituteTemplate_orderFree _ _ _ _ ⟨pieces, whole, separates⟩

/-- A value with the placeholder of another parameter. -/
def nestedValue : Parameters String := (AList.singleton "b" "x").insert "a" "\x7b\x7bb\x7d\x7d"

/-- Whether that placeholder is replaced depends on whose turn comes first. -/
theorem nestedValue_orderMatters : ¬ OrderFree "\x7b\x7ba\x7d\x7d" "" 0 nestedValue := by
  intro orderFree
  let shuffled : Parameters String := (AList.singleton "a" "\x7b\x7bb\x7d\x7d").insert "b" "x"
  have perm : shuffled.entries.Perm nestedValue.entries := by decide
  have same := orderFree shuffled perm
  revert same
  decide

end AltairRs.Wf
