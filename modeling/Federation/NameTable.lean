/-!
# Name tables

A table of all texts mentioned so far, in the order of their first mention. It only ever grows, so
the position of a text, once given, never changes.
-/

namespace Federation

/-- A table of texts, with the latest first mention in front. -/
structure NameTable where
  newestFirst : List String := []
deriving Repr, Inhabited

namespace NameTable

/-- The texts in the order of their first mention. -/
def toList (t : NameTable) : List String :=
  t.newestFirst.reverse

/-- A text that is new goes to the end of the table. -/
def mention (t : NameTable) (text : String) : NameTable :=
  if text ∈ t.newestFirst then t else { newestFirst := text :: t.newestFirst }

/-- Several texts, mentioned one after the other. -/
def mentionAll (t : NameTable) (texts : List String) : NameTable :=
  texts.foldl mention t

/-- The position of a text. -/
def rank? (t : NameTable) (text : String) : Option Nat :=
  t.toList.idxOf? text

/-- Sorts by the position of a key; equal keys keep their order, and keys that were never mentioned
come last. -/
def sortBy {α : Type} (t : NameTable) (key : α → String) (items : List α) : List α :=
  let ranked := items.map fun item => ((t.rank? (key item)).getD t.newestFirst.length, item)
  (ranked.mergeSort fun a b => a.1 ≤ b.1).map Prod.snd

/-! ## Growth -/

theorem toList_mention (t : NameTable) (text : String) :
    (t.mention text).toList = if text ∈ t.toList then t.toList else t.toList ++ [text] := by
  unfold mention toList
  by_cases h : text ∈ t.newestFirst <;> simp [h]

theorem mem_toList_mention (t : NameTable) (text : String) : text ∈ (t.mention text).toList := by
  rw [toList_mention]
  split <;> simp_all

end NameTable

end Federation
