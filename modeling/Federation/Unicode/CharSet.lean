import Federation.Text.Character

/-!
# Character sets

A property of characters is a table of the code points that have it. Tables are written as words of
hexadecimal numbers between blanks, in ascending order.
-/

namespace Federation.Unicode

/-! ## Tables -/

/-- The words of a table. -/
def tableWords (table : String) : List (List Char) :=
  (table.toList.splitOnP Text.isBlank).filter (!·.isEmpty)

/-- The code point that hexadecimal digits write. -/
def codePoint (ds : List Char) : Nat :=
  ds.foldl (fun n d => 16 * n + (Text.hexValue? d).getD 0) 0

/-! ## Sets -/

/-- A set of characters, given by the first and the last code point of each of its ranges. -/
structure CharSet where
  ranges : List (Nat × Nat)
deriving Repr, Inhabited

namespace CharSet

/-- The range that a word such as `61-7a` or `5f` of a table stands for. -/
def rangeOfWord (word : List Char) : Nat × Nat :=
  let first := word.takeWhile (· != '-')
  match word.dropWhile (· != '-') with
  | _ :: last => (codePoint first, codePoint last)
  | [] => (codePoint first, codePoint first)

/-- The set that a table lists. -/
def ofTable (table : String) : CharSet :=
  ⟨(tableWords table).map rangeOfWord⟩

/-- The character is in one of the ranges. -/
def contains (set : CharSet) (c : Char) : Bool :=
  set.ranges.any fun (first, last) => first ≤ c.toNat && c.toNat ≤ last

theorem contains_iff {set : CharSet} {c : Char} :
    set.contains c = true ↔ ∃ r ∈ set.ranges, r.1 ≤ c.toNat ∧ c.toNat ≤ r.2 := by
  simp [contains]

end CharSet

end Federation.Unicode
