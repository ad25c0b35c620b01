import Federation.Proofs.Ingestion.Sources
import Mathlib.Data.List.Sort

/-!
# Evaluation

The kernel can evaluate what schemas are taken into, except that fields are sorted by merging, which
recurses on the length of lists. Sorting by insertion gives the same, because both ways are stable.
Texts are better taken as lists of characters, since the kernel is slow at decoding them.
-/

namespace Federation

/-- The characters of a text that is given by its characters. -/
theorem toList_eq_of_ofList_eq {text : String} {cs : List Char} (h : String.ofList cs = text) :
    text.toList = cs := by
  rw [← h, String.toList_ofList]

/-- A text can be scanned as the list of its characters. -/
theorem Document.Token.scan_eq_scanFor (text : String) :
    scan text = scanFor text.toList.length text.toList := by
  rw [scan, String.length_toList]

section

variable {α : Type} {r : α → α → Prop} [DecidableRel r]

/-- An item is inserted between smaller items and items that are not smaller. -/
theorem orderedInsert_append {a : α} {front back : List α} (hfront : ∀ b ∈ front, ¬ r a b)
    (hback : ∀ b ∈ back, r a b) :
    (front ++ back).orderedInsert r a = front ++ a :: back := by
  induction front with
  | nil =>
    cases back with
    | nil => rfl
    | cons b back => exact if_pos (hback b List.mem_cons_self)
  | cons b front ih =>
    obtain ⟨hfirst, hothers⟩ := List.forall_mem_cons.mp hfront
    rw [List.cons_append, List.orderedInsert_cons, if_neg hfirst, ih hothers, List.cons_append]

/-- Both ways of sorting leave items in their order of which none is smaller. -/
theorem mergeSort_eq_insertionSort (htrans : ∀ a b c, r a b → r b c → r a c)
    (htotal : ∀ a b, r a b ∨ r b a) (items : List α) :
    (items.mergeSort fun a b => decide (r a b)) = items.insertionSort r := by
  have htrans' : ∀ a b c, decide (r a b) = true → decide (r b c) = true → decide (r a c) = true := by
    simpa using htrans
  have htotal' : ∀ a b, (decide (r a b) || decide (r b a)) = true := by simpa using htotal
  induction items with
  | nil => simp
  | cons a items ih =>
    obtain ⟨front, back, hsorted, hothers, hfront⟩ := List.mergeSort_cons htrans' htotal' a items
    have hpairwise := List.pairwise_mergeSort htrans' htotal' (a :: items)
    rw [hsorted] at hpairwise
    have hback := (List.pairwise_cons.mp (List.pairwise_append.mp hpairwise).2.1).1
    rw [List.insertionSort_cons, ← ih, hothers, hsorted, orderedInsert_append]
    · simpa using hfront
    · simpa using hback

end

/-- Sorts by the position of a key, by insertion. -/
def NameTable.insertionSortBy {α : Type} (t : NameTable) (key : α → String) (items : List α) :
    List α :=
  let ranked := items.map fun item => ((t.rank? (key item)).getD t.newestFirst.length, item)
  (ranked.insertionSort fun a b => a.1 ≤ b.1).map Prod.snd

theorem NameTable.sortBy_eq_insertionSortBy {α : Type} (t : NameTable) (key : α → String)
    (items : List α) : t.sortBy key items = t.insertionSortBy key items := by
  refine congrArg (List.map Prod.snd)
    (mergeSort_eq_insertionSort (r := fun a b : Nat × α => a.1 ≤ b.1) ?_ ?_ _)
  · exact fun _ _ _ => Nat.le_trans
  · exact fun _ _ => Nat.le_total _ _

/-- The subgraph with its fields sorted by insertion. -/
def Subgraph.insertionSorted (names : NameTable) (s : Subgraph) : Subgraph where
  __ := s
  definitions := s.definitions.map fun d =>
    { d with
      fields := names.insertionSortBy Field.name d.fields
      members := (s.definitionsIn d.members).map TypeDef.name
      interfaces := (s.definitionsIn d.interfaces).map TypeDef.name }

theorem Subgraph.sorted_eq_insertionSorted (names : NameTable) (s : Subgraph) :
    s.sorted names = s.insertionSorted names := by
  simp only [sorted, insertionSorted, NameTable.sortBy_eq_insertionSortBy]

namespace SubgraphSet

/-- Adds a schema to a set, with its fields sorted by insertion. -/
def insertSource (set : SubgraphSet) (source : SchemaSource) :
    Except Document.ReadError SubgraphSet := do
  let schema ← Document.Schema.read source.text
  if set.hasName source.name then set.add schema source.name source.url
  else
    let (names, empty) := set.start source.name source.url
    let p := ((ingestSchema schema).run { names, subgraph := empty }).2
    let s := p.subgraph.withUsages.insertionSorted p.names
    if p.isBeyondLimit then .error .beyondLimit
    else .ok { names := p.names, subgraphs := set.subgraphs ++ [s] }

/-- A schema can be taken in by insertion. -/
theorem addSource_eq_insertSource : addSource = insertSource := by
  funext set source
  unfold addSource addText insertSource
  refine bind_congr fun schema => ?_
  split
  · rfl
  · simp only [add, build, Subgraph.sorted_eq_insertionSorted, if_neg ‹_›]

/-- Schemas can be taken in by insertion. -/
theorem ofSources_eq_foldlM_insertSource (sources : List SchemaSource) :
    ofSources sources = sources.foldlM insertSource {} := by
  rw [ofSources, addSource_eq_insertSource]

end SubgraphSet

/-- What has been evaluated holds of a result. -/
theorem exists_ok_of_any {ε α : Type} {result : Except ε α} {p : α → Bool}
    (h : result.toOption.any p = true) : ∃ a, result = .ok a ∧ p a = true := by
  cases result with
  | error e => cases h
  | ok a => exact ⟨a, rfl, h⟩

end Federation
