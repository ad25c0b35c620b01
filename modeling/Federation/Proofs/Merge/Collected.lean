import Federation.Proofs.Merge.Consensus
import Federation.Proofs.Merge.Origins

/-!
# Definitions collected by name

What the subgraphs define under names can be collected: every name once, in the order in which the
names come up, with the subgraphs that define something under it. Every table that merging builds is
such a collection, because a change adds a name that is new and the entry of one subgraph.
-/

namespace Federation

/-! ## Parts of subgraphs -/

namespace SubgraphSet

variable {α β : Type}

/-- What all subgraphs define, each part at the place of its subgraph. -/
def parts (set : SubgraphSet) (partsIn : Subgraph → List α) : List (SubgraphId × α) :=
  set.enumerated.flatMap fun entry => (partsIn entry.2).map fun part => (entry.1, part)

/-- The subgraphs that define something under a name, in their order, each with what it defines. Of
several things under the name the last one counts. -/
def defining (set : SubgraphSet) (namedIn : Subgraph → List (String × α)) (name : String) :
    ByGraph α :=
  set.enumerated.filterMap fun entry =>
    ((namedIn entry.2).filter fun part => part.1 == name).getLast?.map fun part => (entry.1, part.2)

/-- What the subgraphs define under names, collected in the order in which the names come up. -/
def collected (set : SubgraphSet) (namedIn : Subgraph → List (String × α)) :
    List (String × ByGraph α) :=
  (Attributes.distinct ((set.parts namedIn).map fun part => part.2.1)).map fun name =>
    (name, set.defining namedIn name)

theorem mem_parts {set : SubgraphSet} {partsIn : Subgraph → List α} {id : SubgraphId} {part : α} :
    (id, part) ∈ set.parts partsIn ↔ ∃ s, set.subgraph? id = some s ∧ part ∈ partsIn s := by
  rw [parts, List.mem_flatMap]
  constructor
  · rintro ⟨⟨i, s⟩, hs, hpart⟩
    obtain ⟨p, hp, heq⟩ := List.mem_map.mp hpart
    obtain ⟨rfl, rfl⟩ := Prod.mk.inj heq
    exact ⟨s, mem_enumerated.mp hs, hp⟩
  · rintro ⟨s, hs, hpart⟩
    exact ⟨(id, s), mem_enumerated.mpr hs, List.mem_map_of_mem hpart⟩

/-- Sets with the same parts in each subgraph have the same parts. -/
theorem parts_congr {set : SubgraphSet} {partsIn partsIn' : Subgraph → List α}
    (h : ∀ s ∈ set.subgraphs, partsIn s = partsIn' s) : set.parts partsIn = set.parts partsIn' := by
  refine List.flatMap_congr fun entry hentry => ?_
  rw [h entry.2 (List.mem_of_getElem? (mem_enumerated.mp hentry))]

theorem filter_parts (set : SubgraphSet) (partsIn : Subgraph → List α) (p : α → Bool) :
    (set.parts partsIn).filter (fun part => p part.2) =
      set.parts fun s => (partsIn s).filter p := by
  unfold parts
  rw [List.filter_flatMap]
  refine List.flatMap_congr fun entry _ => ?_
  rw [List.filter_map]
  rfl

theorem map_parts (set : SubgraphSet) (partsIn : Subgraph → List α) (f : α → β) :
    (set.parts partsIn).map (fun part => (part.1, f part.2)) =
      set.parts fun s => (partsIn s).map f := by
  unfold parts
  rw [List.map_flatMap]
  refine List.flatMap_congr fun entry _ => ?_
  rw [List.map_map, List.map_map]
  rfl

/-- Parts of parts are parts of the same subgraph. -/
theorem flatMap_parts (set : SubgraphSet) (partsIn : Subgraph → List α) (more : α → List β) :
    (set.parts partsIn).flatMap (fun part => (more part.2).map fun b => (part.1, b)) =
      set.parts fun s => (partsIn s).flatMap more := by
  unfold parts
  rw [List.flatMap_assoc]
  refine List.flatMap_congr fun entry _ => ?_
  rw [List.flatMap_map, List.map_flatMap]

/-- A subgraph defines something under a name exactly if it has an entry. -/
theorem mem_ids_defining {set : SubgraphSet} {namedIn : Subgraph → List (String × α)}
    {name : String} {id : SubgraphId} :
    id ∈ (set.defining namedIn name).ids ↔
      ∃ s, set.subgraph? id = some s ∧ ∃ part ∈ namedIn s, part.1 = name := by
  have hsome : ∀ s : Subgraph,
      ((namedIn s).filter fun part => part.1 == name).getLast?.isSome ↔
        ∃ part ∈ namedIn s, part.1 = name := by
    intro s
    rw [List.getLast?_isSome, ← List.isEmpty_eq_false_iff, List.isEmpty_eq_false_iff_exists_mem]
    simp only [List.mem_filter, beq_iff_eq]
  rw [ByGraph.ids, List.mem_map]
  constructor
  · rintro ⟨entry, hentry, rfl⟩
    obtain ⟨⟨i, s⟩, hs, hlast⟩ := List.mem_filterMap.mp hentry
    obtain ⟨part, hpart, rfl⟩ := Option.map_eq_some_iff.mp hlast
    exact ⟨s, mem_enumerated.mp hs, (hsome s).mp (Option.isSome_of_eq_some hpart)⟩
  · rintro ⟨s, hs, hpart⟩
    obtain ⟨part, hlast⟩ := Option.isSome_iff_exists.mp ((hsome s).mpr hpart)
    exact ⟨(id, part.2), List.mem_filterMap.mpr ⟨(id, s), mem_enumerated.mpr hs, by rw [hlast]; rfl⟩,
      rfl⟩

/-- What is collected under a name is what the subgraphs define under it, if any of them does. -/
theorem mem_collected {set : SubgraphSet} {namedIn : Subgraph → List (String × α)} {name : String}
    {entries : ByGraph α} :
    (name, entries) ∈ set.collected namedIn ↔
      (∃ s ∈ set.subgraphs, ∃ part ∈ namedIn s, part.1 = name) ∧
        entries = set.defining namedIn name := by
  have hnames : name ∈ Attributes.distinct ((set.parts namedIn).map fun part => part.2.1) ↔
      ∃ s ∈ set.subgraphs, ∃ part ∈ namedIn s, part.1 = name := by
    rw [Attributes.distinct, Attributes.mem_foldl_addNew, List.mem_map, or_iff_right List.not_mem_nil]
    constructor
    · rintro ⟨⟨id, part⟩, hpart, rfl⟩
      obtain ⟨s, hs, hmem⟩ := mem_parts.mp hpart
      exact ⟨s, List.mem_of_getElem? hs, part, hmem, rfl⟩
    · rintro ⟨s, hs, part, hmem, rfl⟩
      obtain ⟨id, hid⟩ := List.mem_iff_getElem?.mp hs
      exact ⟨(id, part), mem_parts.mpr ⟨s, hid, hmem⟩, rfl⟩
  rw [collected, List.mem_map, ← hnames]
  constructor
  · rintro ⟨other, hother, heq⟩
    obtain ⟨rfl, rfl⟩ := Prod.mk.inj heq
    exact ⟨hother, rfl⟩
  · rintro ⟨hname, rfl⟩
    exact ⟨name, hname, rfl⟩

end SubgraphSet

/-! ## Parts of types -/

/-- With unique names, there is at most one item of a name. -/
theorem filter_key_eq_toList {α : Type} {key : α → String} {items : List α}
    (h : (items.map key).Nodup) (name : String) :
    (items.filter fun a => key a == name) = (items.find? fun a => key a == name).toList := by
  cases hfound : items.find? fun a => key a == name with
  | none =>
    rw [Option.toList_none, List.filter_eq_nil_iff]
    exact fun a ha => List.find?_eq_none.mp hfound a ha
  | some a =>
    have hname : key a = name := by simpa using List.find?_some hfound
    rw [← hname]
    exact filter_key_eq_singleton h (List.mem_of_find?_eq_some hfound)

namespace Subgraph

/-- What a subgraph defines in the type of a name. -/
def partsOf {α : Type} (typeName : String) (partsIn : Subgraph → TypeDef → List α) (s : Subgraph) :
    List α :=
  (s.definition? typeName).toList.flatMap (partsIn s)

theorem HasProperNames.filter_definitions {s : Subgraph} (h : s.HasProperNames) (name : String) :
    (s.definitions.filter fun d => d.name == name) = (s.definition? name).toList :=
  filter_key_eq_toList h.types name

end Subgraph

namespace SubgraphSet

variable {α : Type} {set : SubgraphSet} {typeName : String} {partsIn : Subgraph → TypeDef → List α}

theorem mem_parts_partsOf {id : SubgraphId} {part : α} :
    (id, part) ∈ set.parts (Subgraph.partsOf typeName partsIn) ↔
      ∃ s, set.subgraph? id = some s ∧
        ∃ d, s.definition? typeName = some d ∧ part ∈ partsIn s d := by
  rw [mem_parts]
  simp [Subgraph.partsOf]

/-- Some part of types of a name is as wanted. -/
theorem exists_mem_parts_iff (P : α → Prop) :
    (∃ c ∈ set.parts (Subgraph.partsOf typeName partsIn), P c.2) ↔
      ∃ s ∈ set.subgraphs, ∃ d, s.definition? typeName = some d ∧ ∃ part ∈ partsIn s d, P part := by
  constructor
  · rintro ⟨⟨id, part⟩, hpart, hP⟩
    obtain ⟨s, hs, d, hd, hmem⟩ := mem_parts_partsOf.mp hpart
    exact ⟨s, List.mem_of_getElem? hs, d, hd, part, hmem, hP⟩
  · rintro ⟨s, hs, d, hd, part, hmem, hP⟩
    obtain ⟨id, hid⟩ := List.mem_iff_getElem?.mp hs
    exact ⟨(id, part), mem_parts_partsOf.mpr ⟨s, hid, d, hd, hmem⟩, hP⟩

end SubgraphSet

/-- What the subgraphs define in the types of a name, as merging goes through it. -/
theorem SubgraphSet.HasProperNames.flatMap_entriesOf {α : Type} {set : SubgraphSet}
    (hset : set.HasProperNames) (typeName : String) (partsIn : Subgraph → TypeDef → List α) :
    ((set.entriesOf typeName).flatMap fun e =>
        (partsIn e.subgraph e.definition).map fun part => (e.id, part)) =
      set.parts (Subgraph.partsOf typeName partsIn) := by
  unfold entriesOf typeEntries parts
  rw [List.filter_flatMap, List.flatMap_assoc]
  refine List.flatMap_congr fun entry hentry => ?_
  have hs := hset entry.2 (List.mem_of_getElem? (mem_enumerated.mp hentry))
  rw [List.filter_map, List.flatMap_map, Subgraph.partsOf, List.map_flatMap,
    ← hs.filter_definitions]
  rfl

/-! ## Entries by subgraph -/

namespace ByGraph

variable {α β : Type}

/-- Setting the entry of a new subgraph again and again leaves the last one. -/
theorem foldl_set_same {entries : ByGraph α} {id : SubgraphId} (h : id ∉ entries.ids)
    (value : β → α) (items : List β) :
    items.foldl (fun entries item => ByGraph.set entries id (value item)) entries =
      entries ++ (items.getLast?.map fun item => (id, value item)).toList := by
  induction items using List.reverseRecOn with
  | nil => exact (List.append_nil entries).symm
  | append_singleton items item ih =>
    rw [List.foldl_concat, ih, List.getLast?_concat]
    cases items.getLast? with
    | none =>
      rw [Option.map_none, Option.toList_none, List.append_nil]
      exact set_of_notMem h _
    | some last =>
      have hothers : (entries.map fun entry => if entry.1 == id then (id, value item) else entry) =
          entries := by
        refine (List.map_congr_left fun entry hentry => if_neg fun heq => h ?_).trans
          (List.map_id entries)
        exact List.mem_map.mpr ⟨entry, hentry, beq_iff_eq.mp heq⟩
      unfold set
      rw [if_pos (has_eq_true_iff.mpr (by simp [ids])), List.map_append, hothers]
      simp

end ByGraph

/-- Setting the entries of all parts leaves the last part of each subgraph. -/
theorem SubgraphSet.foldl_set_parts {α β : Type} (set : SubgraphSet) (partsIn : Subgraph → List β)
    (value : β → α) :
    (set.parts partsIn).foldl (fun entries part => ByGraph.set entries part.1 (value part.2)) [] =
      set.enumerated.filterMap fun entry =>
        (partsIn entry.2).getLast?.map fun part => (entry.1, value part) := by
  have hdifferent := set.pairwise_enumerated
  unfold parts
  generalize set.enumerated = entries at hdifferent ⊢
  induction entries using List.reverseRecOn with
  | nil => rfl
  | append_singleton entries entry ih =>
    obtain ⟨hentries, -, hlast⟩ := List.pairwise_append.mp hdifferent
    rw [List.flatMap_append, List.flatMap_singleton, List.foldl_append, ih hentries,
      List.foldl_map, ByGraph.foldl_set_same, List.filterMap_append]
    · cases h : (partsIn entry.2).getLast? <;> simp [h]
    · intro hmem
      obtain ⟨other, hother, heq⟩ := List.mem_map.mp hmem
      obtain ⟨first, hfirst, hpart⟩ := List.mem_filterMap.mp hother
      obtain ⟨part, -, rfl⟩ := Option.map_eq_some_iff.mp hpart
      exact hlast first hfirst entry (List.mem_singleton_self entry) heq

/-! ## Tables -/

section

variable {α β γ : Type} {key : α → String}

/-- The names of items after many changes are those that come up, in their order. -/
theorem map_key_upsertAll {keyOf : β → String} {fresh : β → α} {step : β → α → α}
    (hfresh : ∀ b, key (fresh b) = keyOf b) (hstep : ∀ b a, key (step b a) = key a)
    (items : List α) (changes : List β) :
    (upsertAll key keyOf fresh step items changes).map key =
      (changes.map keyOf).foldl Attributes.addNew (items.map key) := by
  induction changes generalizing items with
  | nil => rfl
  | cons b changes ih =>
    have hkey : key (step b (fresh b)) = keyOf b := (hstep b _).trans (hfresh b)
    rw [upsertAll, List.foldl_cons, ← upsertAll, ih, map_key_upsert hkey (hstep b), List.map_cons,
      List.foldl_cons, Attributes.addNew]
    simp only [List.contains_iff_mem]

/-- **A table is a collection.** If every change of an item sets the entry of its subgraph, the items
are what the subgraphs define, collected by name. -/
theorem SubgraphSet.table_eq_collected (set : SubgraphSet) (nameOf : γ → String) (value : γ → β)
    (entries : α → ByGraph β) {fresh : SubgraphId × γ → α} {step : SubgraphId × γ → α → α}
    (hfresh : ∀ c, key (fresh c) = nameOf c.2) (hstep : ∀ c a, key (step c a) = key a)
    (hempty : ∀ c, entries (fresh c) = [])
    (hset : ∀ c a, entries (step c a) = (entries a).set c.1 (value c.2))
    (partsIn : Subgraph → List γ) :
    (upsertAll key (fun c => nameOf c.2) fresh step [] (set.parts partsIn)).map
        (fun a => (key a, entries a)) =
      set.collected fun s => (partsIn s).map fun c => (nameOf c, value c) := by
  have hnames := map_key_upsertAll hfresh hstep [] (set.parts partsIn)
  have hentries : ∀ a ∈ upsertAll key (fun c => nameOf c.2) fresh step [] (set.parts partsIn),
      entries a =
        set.defining (fun s => (partsIn s).map fun c => (nameOf c, value c)) (key a) := by
    intro a ha
    obtain ⟨first, rest, hchanges, hmade⟩ := exists_of_mem_upsertAll hfresh hstep ha
    have hfold : (first :: rest).foldl (fun e c => ByGraph.set e c.1 (value c.2))
        (entries (fresh first)) =
          entries ((first :: rest).foldl (fun a c => step c a) (fresh first)) :=
      List.foldl_hom entries fun a c => (hset c a).symm
    rw [← hmade, hempty, ← hchanges, set.filter_parts partsIn fun c => nameOf c == key a,
      set.foldl_set_parts] at hfold
    rw [← hfold, defining]
    refine List.filterMap_congr fun entry _ => ?_
    rw [List.filter_map, List.getLast?_map, Option.map_map]
    rfl
  have hlisted : (set.parts fun s => (partsIn s).map fun c => (nameOf c, value c)).map
      (fun part => part.2.1) = (set.parts partsIn).map fun c => nameOf c.2 := by
    rw [← set.map_parts, List.map_map]
    rfl
  rw [collected, hlisted, Attributes.distinct, ← List.map_nil (f := key), ← hnames, List.map_map]
  exact List.map_congr_left fun a ha => congrArg _ (hentries a ha)

end

end Federation
