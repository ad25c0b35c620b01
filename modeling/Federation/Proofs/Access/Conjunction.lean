import Federation.Access
import Mathlib.Data.List.Induction
import Mathlib.Data.List.Pairwise
import Mathlib.Data.List.Perm.Subperm
import Mathlib.Data.String.Basic

/-!
# Conjunction of access requirements

A grant meets the conjunction of two lists of groups exactly if it meets both lists, and the
conjunction has one form only: groups in order, each in order, none of which contains another. The
form comes from keeping, shortest groups first, those that contain no group kept before. Two lists
of groups in this form that are met by the same grants are equal, unless only one of them is empty;
so conjunctions of several requirements do not depend on the order.
-/

namespace Federation

/-! ## Groups in order -/

namespace Group

/-- A name goes to its place in an ordered group. -/
theorem pairwise_insert {name : String} {g : Group} (h : g.Pairwise (· < ·)) :
    (insert name g).Pairwise (· < ·) := by
  induction g with
  | nil => exact List.pairwise_singleton _ _
  | cons first others ih =>
    obtain ⟨hfirst, hothers⟩ := List.pairwise_cons.mp h
    rw [insert]
    split_ifs with hlt heq
    · refine List.pairwise_cons.mpr ⟨fun x hx => ?_, h⟩
      rcases List.mem_cons.mp hx with rfl | hx
      · exact hlt
      · exact lt_trans hlt (hfirst x hx)
    · exact h
    · have hgt : first < name := lt_of_le_of_ne (not_lt.mp hlt) (Ne.symm heq)
      refine List.pairwise_cons.mpr ⟨fun x hx => ?_, ih hothers⟩
      rcases mem_insert.mp hx with rfl | hx
      · exact hgt
      · exact hfirst x hx

/-- Adding names one after the other keeps a group in order. -/
theorem pairwise_foldr_insert (names : List String) {g : Group} (h : g.Pairwise (· < ·)) :
    (names.foldr insert g).Pairwise (· < ·) := by
  induction names with
  | nil => exact h
  | cons name names ih => exact pairwise_insert ih

/-- A normalized group is in order. -/
theorem pairwise_normalize (names : Group) : (normalize names).Pairwise (· < ·) :=
  pairwise_foldr_insert names List.Pairwise.nil

/-- The union with an ordered group is in order. -/
theorem pairwise_union (a : Group) {b : Group} (h : b.Pairwise (· < ·)) :
    (union a b).Pairwise (· < ·) :=
  pairwise_foldr_insert a h

theorem isSubset_iff {a b : Group} : a.isSubset b = true ↔ a ⊆ b := by
  simp [isSubset, List.subset_def]

/-- An ordered group that is not longer than one of its subgroups is contained in it. -/
theorem subset_of_length_le {a b : Group} (ha : a.Pairwise (· < ·)) (h : a ⊆ b)
    (hle : b.length ≤ a.length) : b ⊆ a := by
  have hnodup : a.Nodup := ha.imp ne_of_lt
  exact ((hnodup.subperm h).perm_of_length_le hle).symm.subset

/-! ### The two orders -/

theorem nameLe_iff {a b : Group} : nameLe a b = true ↔ a ≤ b := by
  simp [nameLe]

theorem nameLe_trans (a b c : Group) (hab : nameLe a b = true) (hbc : nameLe b c = true) :
    nameLe a c = true := by
  rw [nameLe_iff] at *
  exact le_trans hab hbc

theorem nameLe_total (a b : Group) : (nameLe a b || nameLe b a) = true := by
  rw [Bool.or_eq_true, nameLe_iff, nameLe_iff]
  exact le_total a b

theorem sizeLe_iff {a b : Group} :
    sizeLe a b = true ↔ a.length < b.length ∨ a.length = b.length ∧ a ≤ b := by
  simp [sizeLe]

theorem sizeLe_trans (a b c : Group) (hab : sizeLe a b = true) (hbc : sizeLe b c = true) :
    sizeLe a c = true := by
  rw [sizeLe_iff] at *
  rcases hab with hab | ⟨hab, hle⟩ <;> rcases hbc with hbc | ⟨hbc, hle'⟩
  · left; omega
  · left; omega
  · left; omega
  · right
    exact ⟨hab.trans hbc, le_trans hle hle'⟩

theorem sizeLe_total (a b : Group) : (sizeLe a b || sizeLe b a) = true := by
  rw [Bool.or_eq_true, sizeLe_iff, sizeLe_iff]
  rcases lt_trichotomy a.length b.length with h | h | h
  · exact Or.inl (Or.inl h)
  · rcases le_total a b with hle | hle
    · exact Or.inl (Or.inr ⟨h, hle⟩)
    · exact Or.inr (Or.inr ⟨h.symm, hle⟩)
  · exact Or.inr (Or.inl h)

/-- A group comes before no shorter one. -/
theorem length_le_of_sizeLe {a b : Group} (h : sizeLe a b = true) : a.length ≤ b.length := by
  rw [sizeLe_iff] at h
  omega

end Group

/-! ## What is kept of a list of groups -/

namespace Groups

/-- Some groups that stand for a list of groups: all of them come from the list, every group of the
list contains one of them, and none of them contains another. -/
structure IsMinimalPart (kept groups : List Group) : Prop where
  subset : kept ⊆ groups
  covers : ∀ g ∈ groups, ∃ k ∈ kept, k ⊆ g
  antichain : kept.Pairwise fun a b => ¬ a ⊆ b ∧ ¬ b ⊆ a

/-- The order of the groups on either side does not matter. -/
theorem IsMinimalPart.perm {kept kept' groups groups' : List Group}
    (h : IsMinimalPart kept groups) (hkept : kept'.Perm kept) (hgroups : groups'.Perm groups) :
    IsMinimalPart kept' groups' where
  subset := fun k hk => hgroups.mem_iff.mpr (h.subset (hkept.mem_iff.mp hk))
  covers := fun g hg => by
    obtain ⟨k, hk, hsub⟩ := h.covers g (hgroups.mem_iff.mp hg)
    exact ⟨k, hkept.mem_iff.mpr hk, hsub⟩
  antichain := (hkept.pairwise_iff And.symm).mpr h.antichain

/-- Only equal groups of the part contain each other. -/
theorem IsMinimalPart.eq_of_subset {kept groups : List Group} (h : IsMinimalPart kept groups)
    {a b : Group} (ha : a ∈ kept) (hb : b ∈ kept) (hsub : a ⊆ b) : a = b := by
  by_contra hne
  have hsymm : Std.Symm fun a b : Group => ¬ a ⊆ b ∧ ¬ b ⊆ a := ⟨fun _ _ => And.symm⟩
  exact (h.antichain.forall ha hb hne).1 hsub

/-- A further group that is in order and not shorter than any group so far. -/
theorem IsMinimalPart.keepMinimal {kept groups : List Group} {group : Group}
    (h : IsMinimalPart kept groups) (hgroup : group.Pairwise (· < ·))
    (hlength : ∀ g ∈ groups, g.length ≤ group.length) :
    IsMinimalPart (keepMinimal kept group) (groups ++ [group]) := by
  unfold Groups.keepMinimal
  split_ifs with hany
  · obtain ⟨k, hk, hsub⟩ := List.any_eq_true.mp hany
    rw [Group.isSubset_iff] at hsub
    refine ⟨fun g hg => List.mem_append_left _ (h.subset hg), fun g hg => ?_, h.antichain⟩
    rcases List.mem_append.mp hg with hg | hg
    · exact h.covers g hg
    · exact ⟨k, hk, List.mem_singleton.mp hg ▸ hsub⟩
  · have hnot : ∀ k ∈ kept, ¬ k ⊆ group := fun k hk hsub =>
      hany (List.any_eq_true.mpr ⟨k, hk, Group.isSubset_iff.mpr hsub⟩)
    refine ⟨?_, fun g hg => ?_, ?_⟩
    · exact List.append_subset.mpr ⟨fun g hg => List.mem_append_left _ (h.subset hg),
        List.subset_append_right _ _⟩
    · rcases List.mem_append.mp hg with hg | hg
      · obtain ⟨k, hk, hsub⟩ := h.covers g hg
        exact ⟨k, List.mem_append_left _ hk, hsub⟩
      · exact ⟨g, List.mem_append_right _ hg, List.Subset.refl g⟩
    · refine List.pairwise_append.mpr ⟨h.antichain, List.pairwise_singleton _ _, ?_⟩
      intro k hk g hg
      obtain rfl := List.mem_singleton.mp hg
      refine ⟨hnot k hk, fun hsub => hnot k hk ?_⟩
      -- the new group is not shorter, so it can only be inside `k` by having the same names
      exact Group.subset_of_length_le hgroup hsub (hlength k (h.subset hk))

/-- What is kept of ordered groups, the shortest first. -/
theorem isMinimalPart_foldl {groups : List Group}
    (hsize : groups.Pairwise fun a b => Group.sizeLe a b = true)
    (horder : ∀ g ∈ groups, g.Pairwise (· < ·)) :
    IsMinimalPart (groups.foldl Groups.keepMinimal []) groups := by
  induction groups using List.reverseRecOn with
  | nil => exact ⟨List.Subset.refl [], by simp, List.Pairwise.nil⟩
  | append_singleton groups group ih =>
    obtain ⟨hinit, -, hlast⟩ := List.pairwise_append.mp hsize
    rw [List.foldl_append, List.foldl_cons, List.foldl_nil]
    refine IsMinimalPart.keepMinimal (ih hinit fun g hg => ?_) (horder group (by simp)) ?_
    · exact horder g (List.mem_append_left _ hg)
    · intro g hg
      exact Group.length_le_of_sizeLe (hlast g hg group (List.mem_singleton_self group))

/-- The minimal groups of ordered groups stand for all of them. -/
theorem isMinimalPart_minimal {groups : List Group} (horder : ∀ g ∈ groups, g.Pairwise (· < ·)) :
    IsMinimalPart (minimal groups) groups := by
  have hsort := List.mergeSort_perm groups Group.sizeLe
  have hkept := isMinimalPart_foldl
    (List.pairwise_mergeSort Group.sizeLe_trans Group.sizeLe_total groups)
    (fun g hg => horder g (hsort.mem_iff.mp hg))
  exact hkept.perm (List.mergeSort_perm _ _) hsort.symm

/-- The minimal groups stand in strictly increasing order. -/
theorem pairwise_minimal {groups : List Group} (horder : ∀ g ∈ groups, g.Pairwise (· < ·)) :
    (minimal groups).Pairwise (· < ·) := by
  have hsorted : (minimal groups).Pairwise fun a b => Group.nameLe a b = true :=
    List.pairwise_mergeSort Group.nameLe_trans Group.nameLe_total _
  refine (hsorted.and (isMinimalPart_minimal horder).antichain).imp ?_
  rintro a b ⟨hle, hnot, -⟩
  refine lt_of_le_of_ne (Group.nameLe_iff.mp hle) ?_
  rintro rfl
  exact hnot (List.Subset.refl a)

/-! ## What is met -/

variable {granted : String → Prop}

/-- A part that stands for a list of groups is met by the same grants. -/
theorem IsMinimalPart.met_iff {kept groups : List Group} (h : IsMinimalPart kept groups) :
    Met granted kept ↔ Met granted groups := by
  constructor
  · rintro (rfl | ⟨k, hk, hmet⟩)
    · left
      refine List.eq_nil_iff_forall_not_mem.mpr fun g hg => ?_
      obtain ⟨k, hk, -⟩ := h.covers g hg
      exact List.not_mem_nil hk
    · exact Or.inr ⟨k, h.subset hk, hmet⟩
  · rintro (rfl | ⟨g, hg, hmet⟩)
    · exact Or.inl (List.subset_nil.mp h.subset)
    · obtain ⟨k, hk, hsub⟩ := h.covers g hg
      exact Or.inr ⟨k, hk, fun name hname => hmet name (hsub hname)⟩

/-- Normal forms of groups ask for the same names. -/
theorem met_map_normalize {groups : List Group} :
    Met granted (groups.map Group.normalize) ↔ Met granted groups := by
  simp [Met, Group.mem_normalize]

/-- Groups that are joined in pairs ask for both. -/
theorem met_pairwise {left right : List Group} :
    Met granted (pairwise left right) ↔ Met granted left ∧ Met granted right := by
  unfold pairwise
  by_cases hleft : left = []
  · simp [hleft, Met]
  by_cases hright : right = []
  · simp [hleft, hright, Met]
  rw [if_neg (by simpa using hleft), if_neg (by simpa using hright)]
  simp only [Met, List.flatMap_eq_nil_iff, List.map_eq_nil_iff, hleft, hright, false_or]
  constructor
  · rintro (hnil | ⟨g, hg, hmet⟩)
    · obtain ⟨l, hl⟩ := List.exists_mem_of_ne_nil left hleft
      exact absurd (hnil l hl) (by simp)
    · obtain ⟨l, hl, hg⟩ := List.mem_flatMap.mp hg
      obtain ⟨r, hr, rfl⟩ := List.mem_map.mp hg
      exact ⟨⟨l, hl, fun name hname => hmet name (Group.mem_union.mpr (Or.inl hname))⟩,
        ⟨r, hr, fun name hname => hmet name (Group.mem_union.mpr (Or.inr hname))⟩⟩
  · rintro ⟨⟨l, hl, hmetl⟩, ⟨r, hr, hmetr⟩⟩
    refine Or.inr ⟨l.union r, List.mem_flatMap.mpr ⟨l, hl, List.mem_map_of_mem hr⟩, ?_⟩
    intro name hname
    rcases Group.mem_union.mp hname with hname | hname
    · exact hmetl name hname
    · exact hmetr name hname

/-- Joining ordered groups in pairs gives ordered groups. -/
theorem pairwise_of_mem_pairwise {left right : List Group}
    (hleft : ∀ g ∈ left, g.Pairwise (· < ·)) (hright : ∀ g ∈ right, g.Pairwise (· < ·)) :
    ∀ g ∈ pairwise left right, g.Pairwise (· < ·) := by
  intro g hg
  unfold pairwise at hg
  split_ifs at hg with h1 h2
  · exact hright g hg
  · exact hleft g hg
  · obtain ⟨l, hl, hg⟩ := List.mem_flatMap.mp hg
    obtain ⟨r, hr, rfl⟩ := List.mem_map.mp hg
    exact Group.pairwise_union l (hright r hr)

/-- Joining in pairs gives no group only if there is none on either side. -/
theorem pairwise_eq_nil_iff {left right : List Group} :
    pairwise left right = [] ↔ left = [] ∧ right = [] := by
  unfold pairwise
  split_ifs with h1 h2
  · simp [List.isEmpty_iff.mp h1]
  · simp [List.isEmpty_iff.mp h2]
  · simp only [List.isEmpty_iff] at h1 h2
    simp only [h1, h2, and_self, iff_false, List.flatMap_eq_nil_iff, List.map_eq_nil_iff]
    obtain ⟨l, hl⟩ := List.exists_mem_of_ne_nil left h1
    exact fun hnil => hnil l hl

/-! ## Conjunction -/

/-- The groups that a conjunction chooses from are in order. -/
theorem pairwise_of_mem_candidates {left right : List Group} :
    ∀ g ∈ pairwise (left.map Group.normalize) (right.map Group.normalize),
      g.Pairwise (· < ·) := by
  have horder : ∀ groups : List Group, ∀ g ∈ groups.map Group.normalize, g.Pairwise (· < ·) := by
    intro groups g hg
    obtain ⟨names, -, rfl⟩ := List.mem_map.mp hg
    exact Group.pairwise_normalize names
  exact pairwise_of_mem_pairwise (horder left) (horder right)

/-- A conjunction stands for all joined groups. -/
theorem isMinimalPart_conjunction (left right : List Group) :
    IsMinimalPart (conjunction left right)
      (pairwise (left.map Group.normalize) (right.map Group.normalize)) :=
  isMinimalPart_minimal pairwise_of_mem_candidates

/-- A grant meets a conjunction exactly if it meets both sides. -/
theorem met_conjunction {left right : List Group} :
    Met granted (conjunction left right) ↔ Met granted left ∧ Met granted right := by
  rw [(isMinimalPart_conjunction left right).met_iff, met_pairwise, met_map_normalize,
    met_map_normalize]

/-- A conjunction requires nothing only if neither side does. -/
theorem conjunction_eq_nil_iff {left right : List Group} :
    conjunction left right = [] ↔ left = [] ∧ right = [] := by
  have hpart := isMinimalPart_conjunction left right
  have hnil : pairwise (left.map Group.normalize) (right.map Group.normalize) = [] ↔
      left = [] ∧ right = [] := by
    rw [pairwise_eq_nil_iff, List.map_eq_nil_iff, List.map_eq_nil_iff]
  rw [← hnil]
  constructor
  · intro hnil
    refine List.eq_nil_iff_forall_not_mem.mpr fun g hg => ?_
    obtain ⟨k, hk, -⟩ := hpart.covers g hg
    exact List.not_mem_nil (hnil ▸ hk)
  · intro hnil
    exact List.subset_nil.mp (hnil ▸ hpart.subset)

/-- **Conjunction is exact and canonical.** A grant meets the conjunction of two lists of groups
exactly if it meets both of them. The conjunction lists its groups in strictly increasing order, each
group lists its names in strictly increasing order, and no group contains another. It is empty only
if both lists are. -/
theorem conjunction_exact_and_canonical (left right : List Group) :
    (∀ granted, Met granted (conjunction left right) ↔ Met granted left ∧ Met granted right) ∧
      (conjunction left right).Pairwise (· < ·) ∧
      (∀ g ∈ conjunction left right, g.Pairwise (· < ·)) ∧
      (∀ a ∈ conjunction left right, ∀ b ∈ conjunction left right, a ⊆ b → a = b) ∧
      (conjunction left right = [] ↔ left = [] ∧ right = []) := by
  have hpart := isMinimalPart_conjunction left right
  refine ⟨fun _ => met_conjunction, pairwise_minimal pairwise_of_mem_candidates, fun g hg => ?_,
    fun a ha b hb => hpart.eq_of_subset ha hb, conjunction_eq_nil_iff⟩
  exact pairwise_of_mem_candidates g (hpart.subset hg)

/-! ## The canonical form -/

/-- Groups in order, each in order, none of which contains another. -/
structure IsCanonical (groups : List Group) : Prop where
  order : groups.Pairwise (· < ·)
  groupOrder : ∀ g ∈ groups, g.Pairwise (· < ·)
  antichain : ∀ a ∈ groups, ∀ b ∈ groups, a ⊆ b → a = b

/-- A conjunction is in canonical form. -/
theorem isCanonical_conjunction (left right : List Group) :
    IsCanonical (conjunction left right) where
  order := pairwise_minimal pairwise_of_mem_candidates
  groupOrder := fun g hg =>
    pairwise_of_mem_candidates g ((isMinimalPart_conjunction left right).subset hg)
  antichain := fun _ ha _ hb => (isMinimalPart_conjunction left right).eq_of_subset ha hb

/-- Lists in order with the same items are equal. -/
theorem eq_of_pairwise_of_subset {α : Type} [LinearOrder α] {a b : List α}
    (ha : a.Pairwise (· < ·)) (hb : b.Pairwise (· < ·)) (hab : a ⊆ b) (hba : b ⊆ a) : a = b := by
  have hperm : a.Perm b :=
    (List.perm_ext_iff_of_nodup (ha.imp ne_of_lt) (hb.imp ne_of_lt)).mpr fun x =>
      ⟨fun hx => hab hx, fun hx => hba hx⟩
  exact hperm.eq_of_pairwise (fun x y _ _ hxy hyx => absurd hxy (lt_asymm hyx)) ha hb

/-- Every group contains a group of a list that is met by the same finite grants. -/
theorem exists_subset_of_met {groups groups' : List Group}
    (hmet : ∀ names : List String, Met (· ∈ names) groups → Met (· ∈ names) groups')
    (hne : groups' ≠ []) {g : Group} (hg : g ∈ groups) : ∃ g' ∈ groups', g' ⊆ g := by
  -- whoever is granted just the names of `g` meets `groups`
  obtain hnil | ⟨g', hg', hsub⟩ := hmet g (Or.inr ⟨g, hg, fun _ hname => hname⟩)
  · exact absurd hnil hne
  · exact ⟨g', hg', hsub⟩

/-- One of two canonical lists that are met by the same grants contains the other. -/
theorem IsCanonical.subset {groups groups' : List Group} (h : IsCanonical groups)
    (h' : IsCanonical groups') (hmet : ∀ granted, Met granted groups ↔ Met granted groups')
    (hnil : groups = [] ↔ groups' = []) : groups ⊆ groups' := by
  intro g hg
  have hne : groups ≠ [] := List.ne_nil_of_mem hg
  have hne' : groups' ≠ [] := fun h => hne (hnil.mpr h)
  obtain ⟨g', hg', hsub⟩ := exists_subset_of_met (fun _ => (hmet _).mp) hne' hg
  obtain ⟨g'', hg'', hsub'⟩ := exists_subset_of_met (fun _ => (hmet _).mpr) hne hg'
  -- `g''` is a group of the same list within `g`, so it is `g`, and `g'` is between them
  have heq : g'' = g := h.antichain g'' hg'' g hg (List.Subset.trans hsub' hsub)
  have hgg' : g = g' := eq_of_pairwise_of_subset (h.groupOrder g hg) (h'.groupOrder g' hg')
    (heq ▸ hsub') hsub
  exact hgg' ▸ hg'

/-- A canonical form is unique. -/
theorem IsCanonical.eq {groups groups' : List Group} (h : IsCanonical groups)
    (h' : IsCanonical groups') (hmet : ∀ granted, Met granted groups ↔ Met granted groups')
    (hnil : groups = [] ↔ groups' = []) : groups = groups' :=
  eq_of_pairwise_of_subset h.order h'.order (h.subset h' hmet hnil)
    (h'.subset h (fun granted => (hmet granted).symm) hnil.symm)

/-- Requirements are added in any order. -/
theorem conjunction_right_comm (a b c : List Group) :
    conjunction (conjunction a b) c = conjunction (conjunction a c) b := by
  refine (isCanonical_conjunction _ _).eq (isCanonical_conjunction _ _) (fun granted => ?_) ?_
  · rw [met_conjunction, met_conjunction, met_conjunction, met_conjunction]
    exact and_right_comm
  · rw [conjunction_eq_nil_iff, conjunction_eq_nil_iff, conjunction_eq_nil_iff,
      conjunction_eq_nil_iff]
    exact and_right_comm

end Groups

namespace AccessRequirements

/-- Access requirements are added in any order. -/
theorem conjunction_right_comm (a b c : AccessRequirements) :
    (a.conjunction b).conjunction c = (a.conjunction c).conjunction b := by
  unfold conjunction
  rw [Bool.or_right_comm, Groups.conjunction_right_comm a.policies,
    Groups.conjunction_right_comm a.scopes]

/-- A grant meets both requirements at once exactly if it meets each of them. -/
theorem meets_conjunction {g : Grant} {a b : AccessRequirements} :
    g.Meets (a.conjunction b) ↔ g.Meets a ∧ g.Meets b := by
  unfold Grant.Meets conjunction
  rw [Groups.met_conjunction, Groups.met_conjunction, Bool.or_eq_true, or_imp]
  tauto

end AccessRequirements

end Federation
