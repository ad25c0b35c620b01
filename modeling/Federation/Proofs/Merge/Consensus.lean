import Federation.Proofs.Access.Conjunction
import Federation.Proofs.Merge.Fields

/-!
# Consensus in any order

What the subgraphs agree on for an element does not depend on their order: not the tags, the
visibility, the access requirements and the cost, and not the merged list size, except for the order
in which names are listed.
-/

namespace Federation

/-! ## Metadata -/

/-- The same consensus, perhaps with the tags in another order. -/
structure Metadata.SameConsensus (m m' : Metadata) : Prop where
  tags : ∀ tag, tag ∈ m.tags ↔ tag ∈ m'.tags
  isInaccessible : m.isInaccessible = m'.isInaccessible
  access : m.access = m'.access
  cost : m.cost = m'.cost

theorem larger?_right_comm (a b c : Option Int) :
    larger? (larger? a b) c = larger? (larger? a c) b := by
  cases a <;> cases b <;> cases c <;> simp only [larger?, Option.or]
  · rw [max_comm]
  · rw [max_right_comm]

theorem Attributes.mem_addNew {α : Type} [BEq α] [LawfulBEq α] {items : List α} {item x : α} :
    x ∈ addNew items item ↔ x ∈ items ∨ x = item := by
  unfold addNew
  split
  · rename_i hmem
    have hitem : item ∈ items := List.contains_iff_mem.mp hmem
    exact ⟨Or.inl, fun h => h.elim id fun heq => heq ▸ hitem⟩
  · simp

theorem Attributes.mem_foldl_addNew {α : Type} [BEq α] [LawfulBEq α] {items more : List α} {x : α} :
    x ∈ more.foldl addNew items ↔ x ∈ items ∨ x ∈ more := by
  induction more generalizing items with
  | nil => simp
  | cons item more ih => rw [List.foldl_cons, ih, mem_addNew, List.mem_cons, or_assoc]

namespace Metadata

theorem mem_tags_absorbAll {m : Metadata} {statements : List (Attributes × Option String)}
    {tag : String} :
    tag ∈ (m.absorbAll statements).tags ↔
      tag ∈ m.tags ∨ ∃ statement ∈ statements, tag ∈ statement.1.tags := by
  induction statements generalizing m with
  | nil => simp [absorbAll]
  | cons statement statements ih =>
    rw [absorbAll, List.foldl_cons, ← absorbAll, ih, absorb, Attributes.mem_foldl_addNew]
    simp [or_assoc]

theorem isInaccessible_absorbAll (m : Metadata) (statements : List (Attributes × Option String)) :
    (m.absorbAll statements).isInaccessible =
      statements.foldl (fun flag statement => flag || statement.1.isInaccessible)
        m.isInaccessible :=
  (List.foldl_hom Metadata.isInaccessible fun _ _ => rfl).symm

/-- An element is inaccessible exactly if it was before or some subgraph says so. -/
theorem isInaccessible_absorbAll_iff {m : Metadata}
    {statements : List (Attributes × Option String)} :
    (m.absorbAll statements).isInaccessible = true ↔
      m.isInaccessible = true ∨ ∃ statement ∈ statements, statement.1.isInaccessible = true := by
  induction statements generalizing m with
  | nil => simp [absorbAll]
  | cons statement statements ih =>
    rw [absorbAll, List.foldl_cons, ← absorbAll, ih, absorb]
    simp [or_assoc]

theorem access_absorbAll (m : Metadata) (statements : List (Attributes × Option String)) :
    (m.absorbAll statements).access =
      statements.foldl (fun access statement => access.conjunction (.ofAttributes statement.1))
        m.access :=
  (List.foldl_hom Metadata.access fun _ _ => rfl).symm

theorem cost_absorbAll (m : Metadata) (statements : List (Attributes × Option String)) :
    (m.absorbAll statements).cost =
      statements.foldl (fun cost statement => larger? cost statement.1.cost) m.cost :=
  (List.foldl_hom Metadata.cost fun _ _ => rfl).symm

/-- What many subgraphs say about an element adds up to the same consensus in any order. -/
theorem sameConsensus_absorbAll (m : Metadata)
    {statements statements' : List (Attributes × Option String)} (h : statements.Perm statements') :
    (m.absorbAll statements).SameConsensus (m.absorbAll statements') where
  tags := fun tag => by
    rw [mem_tags_absorbAll, mem_tags_absorbAll]
    simp only [h.mem_iff]
  isInaccessible := by
    rw [isInaccessible_absorbAll, isInaccessible_absorbAll]
    exact h.foldl_eq' (fun _ _ _ _ _ => Bool.or_right_comm _ _ _) _
  access := by
    rw [access_absorbAll, access_absorbAll]
    exact h.foldl_eq' (fun _ _ _ _ _ => AccessRequirements.conjunction_right_comm _ _ _) _
  cost := by
    rw [cost_absorbAll, cost_absorbAll]
    exact h.foldl_eq' (fun _ _ _ _ _ => larger?_right_comm _ _ _) _

end Metadata

/-! ## List sizes -/

/-- The same list size, perhaps with names in another order. -/
structure ListSize.SameUpToOrder (a b : ListSize) : Prop where
  assumedSize : a.assumedSize = b.assumedSize
  slicingArguments : a.slicingArguments.Perm b.slicingArguments
  sizedFields : a.sizedFields.Perm b.sizedFields
  requireOneSlicingArgument : a.requireOneSlicingArgument = b.requireOneSlicingArgument

theorem Attributes.mem_distinct {α : Type} [BEq α] [LawfulBEq α] {items : List α} {x : α} :
    x ∈ distinct items ↔ x ∈ items := by
  rw [distinct, mem_foldl_addNew, or_iff_right List.not_mem_nil]

theorem Attributes.nodup_distinct {α : Type} [BEq α] [LawfulBEq α] (items : List α) :
    (distinct items).Nodup := by
  unfold distinct
  induction items using List.reverseRecOn with
  | nil => exact List.nodup_nil
  | append_singleton items item ih =>
    rw [List.foldl_concat]
    exact nodup_addNew ih item

/-- Different items stay as they are. -/
theorem Attributes.distinct_of_nodup {α : Type} [BEq α] [LawfulBEq α] {items : List α}
    (h : items.Nodup) : distinct items = items := by
  unfold distinct
  induction items using List.reverseRecOn with
  | nil => rfl
  | append_singleton items item ih =>
    have hnew : item ∉ items := fun hmem =>
      List.disjoint_of_nodup_append h hmem (List.mem_singleton_self item)
    rw [List.foldl_concat, ih (List.Nodup.of_append_left h), addNew,
      if_neg (mt List.contains_iff_mem.mp hnew)]

/-- The different items of a list, in any order. -/
theorem Attributes.distinct_perm {α : Type} [BEq α] [LawfulBEq α] {items items' : List α}
    (h : items.Perm items') : (distinct items).Perm (distinct items') := by
  refine (List.perm_ext_iff_of_nodup (nodup_distinct items) (nodup_distinct items')).mpr fun x => ?_
  unfold distinct
  rw [mem_foldl_addNew, mem_foldl_addNew, h.mem_iff]

/-- The largest number of a list, in any order. -/
theorem max?_eq_of_perm {numbers numbers' : List Nat} (h : numbers.Perm numbers') :
    numbers.max? = numbers'.max? := by
  refine Option.ext fun n => ?_
  rw [List.max?_eq_some_iff, List.max?_eq_some_iff]
  simp only [h.mem_iff]

/-- The merged list size depends on what the subgraphs say, and not on their order or places. -/
theorem MergedField.sameUpToOrder_listSize {m m' : MergedField}
    (h : (m.byGraph.map Prod.snd).Perm (m'.byGraph.map Prod.snd)) :
    Option.Rel ListSize.SameUpToOrder m.listSize.merged m'.listSize.merged := by
  have hsizes : m.listSizes.Perm m'.listSizes := by
    have hlist : ∀ m : MergedField, m.listSizes =
        (m.byGraph.map Prod.snd).filterMap fun f => f.definition.attributes.listSize := fun m => by
      rw [List.filterMap_map]
      rfl
    rw [hlist, hlist]
    exact h.filterMap _
  have heverywhere : m.hasArgumentEverywhere = m'.hasArgumentEverywhere := by
    funext name
    have hall : ∀ m : MergedField, m.hasArgumentEverywhere name =
        (m.byGraph.map Prod.snd).all fun f => f.isExternal || (f.definition.argument? name).isSome :=
      fun m => by
        rw [List.all_map]
        rfl
    rw [hall, hall]
    exact h.all_eq
  have hcandidates := Attributes.distinct_perm (hsizes.flatMap_right ListSize.slicingArguments)
  have hslicing := hcandidates.filter m'.hasArgumentEverywhere
  unfold listSize
  dsimp only
  rw [List.partition_eq_filter_filter, List.partition_eq_filter_filter, heverywhere,
    hsizes.isEmpty_eq, hcandidates.isEmpty_eq, hslicing.isEmpty_eq]
  split
  · exact .none
  · split
    · exact .none
    · refine .some ⟨max?_eq_of_perm (hsizes.filterMap _), hslicing, ?_, hsizes.all_eq⟩
      exact Attributes.distinct_perm (hsizes.flatMap_right ListSize.sizedFields)

end Federation
