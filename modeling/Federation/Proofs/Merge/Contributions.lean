import Federation.Proofs.Merge.NamedTypes
import Federation.Proofs.Merge.Order

/-!
# Fields that several interfaces contribute

Objects that stand in for interfaces may add fields of one name to several interfaces of an object,
which has no field of that name itself. The object gets a copy of the first of them, and the others
are passed over. So the copy has the consensus over all of them exactly if the first one covers the
others: it has all their tags, and their visibility, access requirements and cost add nothing to its
own. In another order of the subgraphs another one may come first.
-/

namespace Federation

/-! ## Adding up -/

/-- What is added later can be added first. -/
theorem foldl_right_comm {α β : Type} {op : α → β → α}
    (hcomm : ∀ a b c, op (op a b) c = op (op a c) b) (a : α) (items : List β) (b : β) :
    op (items.foldl op a) b = items.foldl op (op a b) := by
  induction items generalizing a with
  | nil => rfl
  | cons item items ih => rw [List.foldl_cons, List.foldl_cons, ih, hcomm]

/-- Many items add nothing exactly if none of them adds anything, if it does not matter in which order
and how often they are added. -/
theorem foldl_eq_self_iff {α β : Type} {op : α → β → α}
    (hcomm : ∀ a b c, op (op a b) c = op (op a c) b) (hidem : ∀ a b, op (op a b) b = op a b)
    {a : α} {items : List β} : items.foldl op a = a ↔ ∀ b ∈ items, op a b = a := by
  have habsorbed : ∀ (items : List β) (a : α), ∀ b ∈ items,
      op (items.foldl op a) b = items.foldl op a := by
    intro items a b hb
    induction items generalizing a with
    | nil => cases hb
    | cons item items ih =>
      rw [List.foldl_cons]
      rcases List.mem_cons.mp hb with rfl | hb
      · rw [foldl_right_comm hcomm, hidem]
      · exact ih (op a item) hb
  constructor
  · intro h b hb
    have hb' := habsorbed items a b hb
    rwa [h] at hb'
  · intro h
    induction items with
    | nil => rfl
    | cons item items ih =>
      obtain ⟨hitem, hitems⟩ := List.forall_mem_cons.mp h
      rw [List.foldl_cons, hitem, ih hitems]

/-- A conjunction that is required again requires nothing new. -/
theorem Groups.conjunction_conjunction_self (a b : List Group) :
    conjunction (conjunction a b) b = conjunction a b := by
  refine (isCanonical_conjunction _ _).eq (isCanonical_conjunction _ _) (fun granted => ?_) ?_
  · rw [met_conjunction, met_conjunction]
    exact and_iff_left_of_imp And.right
  · rw [conjunction_eq_nil_iff, conjunction_eq_nil_iff]
    exact and_iff_left_of_imp And.right

theorem AccessRequirements.conjunction_conjunction_self (a b : AccessRequirements) :
    (a.conjunction b).conjunction b = a.conjunction b := by
  unfold conjunction
  rw [Groups.conjunction_conjunction_self, Groups.conjunction_conjunction_self, Bool.or_assoc,
    Bool.or_self]

theorem larger?_larger?_self (a b : Option Int) : larger? (larger? a b) b = larger? a b := by
  cases a <;> cases b <;> simp [larger?, Option.or]

/-! ## Consensus over several elements -/

namespace Metadata

/-- The consensus over two elements: all tags, the stricter visibility, both access requirements and
the higher cost. -/
def merge (m other : Metadata) : Metadata where
  description := m.description.or other.description
  tags := other.tags.foldl Attributes.addNew m.tags
  isInaccessible := m.isInaccessible || other.isInaccessible
  access := m.access.conjunction other.access
  cost := larger? m.cost other.cost
  deprecation := m.deprecation.or other.deprecation

/-- The consensus over an element and others. -/
def mergeAll (m : Metadata) (others : List Metadata) : Metadata :=
  others.foldl merge m

/-- Another element adds nothing to the consensus on an element. -/
structure Covers (m other : Metadata) : Prop where
  tags : other.tags ⊆ m.tags
  isInaccessible : other.isInaccessible = true → m.isInaccessible = true
  access : m.access.conjunction other.access = m.access
  cost : larger? m.cost other.cost = m.cost

variable {m : Metadata} {others : List Metadata}

theorem mem_tags_mergeAll {tag : String} :
    tag ∈ (m.mergeAll others).tags ↔ tag ∈ m.tags ∨ ∃ other ∈ others, tag ∈ other.tags := by
  induction others generalizing m with
  | nil => simp [mergeAll]
  | cons other others ih =>
    rw [mergeAll, List.foldl_cons, ← mergeAll, ih, merge, Attributes.mem_foldl_addNew]
    simp [or_assoc]

theorem isInaccessible_mergeAll (m : Metadata) (others : List Metadata) :
    (m.mergeAll others).isInaccessible =
      (others.map isInaccessible).foldl Bool.or m.isInaccessible := by
  rw [List.foldl_map]
  exact (List.foldl_hom Metadata.isInaccessible fun _ _ => rfl).symm

theorem access_mergeAll (m : Metadata) (others : List Metadata) :
    (m.mergeAll others).access =
      (others.map access).foldl AccessRequirements.conjunction m.access := by
  rw [List.foldl_map]
  exact (List.foldl_hom Metadata.access fun _ _ => rfl).symm

theorem cost_mergeAll (m : Metadata) (others : List Metadata) :
    (m.mergeAll others).cost = (others.map cost).foldl larger? m.cost := by
  rw [List.foldl_map]
  exact (List.foldl_hom Metadata.cost fun _ _ => rfl).symm

/-- **An element has the consensus over itself and others exactly if it covers them.** -/
theorem sameConsensus_mergeAll_iff :
    m.SameConsensus (m.mergeAll others) ↔ ∀ other ∈ others, m.Covers other := by
  have htags : (∀ tag, tag ∈ m.tags ↔ tag ∈ (m.mergeAll others).tags) ↔
      ∀ other ∈ others, other.tags ⊆ m.tags := by
    simp only [mem_tags_mergeAll]
    constructor
    · intro h other hother tag htag
      exact (h tag).mpr (.inr ⟨other, hother, htag⟩)
    · intro h tag
      exact ⟨.inl, fun htag => htag.elim id fun ⟨other, hother, hmem⟩ => h other hother hmem⟩
  have hinaccessible : m.isInaccessible = (m.mergeAll others).isInaccessible ↔
      ∀ other ∈ others, other.isInaccessible = true → m.isInaccessible = true := by
    rw [eq_comm, isInaccessible_mergeAll, foldl_eq_self_iff Bool.or_right_comm
      fun a b => by rw [Bool.or_assoc, Bool.or_self], List.forall_mem_map]
    refine forall₂_congr fun other _ => ?_
    cases m.isInaccessible <;> cases other.isInaccessible <;> simp
  have haccess : m.access = (m.mergeAll others).access ↔
      ∀ other ∈ others, m.access.conjunction other.access = m.access := by
    rw [eq_comm, access_mergeAll, foldl_eq_self_iff AccessRequirements.conjunction_right_comm
      AccessRequirements.conjunction_conjunction_self, List.forall_mem_map]
  have hcost : m.cost = (m.mergeAll others).cost ↔
      ∀ other ∈ others, larger? m.cost other.cost = m.cost := by
    rw [eq_comm, cost_mergeAll, foldl_eq_self_iff larger?_right_comm larger?_larger?_self,
      List.forall_mem_map]
  constructor
  · intro h other hother
    exact ⟨htags.mp h.tags other hother, hinaccessible.mp h.isInaccessible other hother,
      haccess.mp h.access other hother, hcost.mp h.cost other hother⟩
  · intro h
    exact ⟨htags.mpr fun other hother => (h other hother).tags,
      hinaccessible.mpr fun other hother => (h other hother).isInaccessible,
      haccess.mpr fun other hother => (h other hother).access,
      hcost.mpr fun other hother => (h other hother).cost⟩

end Metadata

/-! ## Copies of the first field -/

namespace MergedType

/-- A copied field is found under its name, unless the type has a field of this name. -/
theorem field?_withCopy {t : MergedType} (hkind : t.kind = .object) (copy : String × MergedField)
    (name : String) :
    (t.withCopy copy).field? name =
      (t.field? name).or (if copy.1 == t.name && copy.2.name == name then
        some (MergedSchema.copyOf copy.2) else none) := by
  unfold field?
  rw [fields_withCopy hkind]
  by_cases hname : copy.1 == t.name && copy.2.name == name
  · rw [if_pos hname]
    rw [Bool.and_eq_true, beq_iff_eq, beq_iff_eq] at hname
    obtain ⟨hcopy, rfl⟩ := hname
    split
    · rw [List.find?_append, List.find?_singleton, if_pos]
      exact beq_self_eq_true copy.2.name
    · -- the type has a field of the name, so nothing is added
      rename_i hnot
      have hmem : copy.2.name ∈ t.fields.map MergedField.name := by
        by_contra hnew
        exact hnot ⟨hcopy.symm, hnew⟩
      obtain ⟨field, hfield, hsame⟩ := List.mem_map.mp hmem
      have hsome : (t.fields.find? fun field => field.name == copy.2.name).isSome :=
        List.find?_isSome.mpr ⟨field, hfield, beq_iff_eq.mpr hsame⟩
      rw [Option.or_of_isSome hsome]
  · rw [if_neg hname, Option.or_none]
    rw [Bool.and_eq_true, beq_iff_eq, beq_iff_eq, not_and] at hname
    split
    · rename_i hcopy
      rw [List.find?_append, List.find?_singleton, if_neg, Option.or_none]
      exact fun heq => hname hcopy.1.symm (beq_iff_eq.mp heq)
    · rfl

/-- The field of a name after copies is the one before or else a copy of the first field that is
copied to the type under this name. -/
theorem field?_foldl_withCopy {t : MergedType} (hkind : t.kind = .object) (name : String)
    (copies : List (String × MergedField)) :
    (copies.foldl withCopy t).field? name =
      (t.field? name).or ((copies.find? fun copy =>
        copy.1 == t.name && copy.2.name == name).map fun copy => MergedSchema.copyOf copy.2) := by
  induction copies generalizing t with
  | nil => exact Option.or_none.symm
  | cons copy copies ih =>
    rw [List.foldl_cons, ih (by rw [kind_withCopy, hkind]), name_withCopy, field?_withCopy hkind,
      Option.or_assoc, List.find?_cons]
    cases copy.1 == t.name && copy.2.name == name <;> rfl

end MergedType

namespace MergedSchema

/-- Copying leaves what there is to copy. -/
theorem copies_map_withCopy (types : List MergedType) (copied : List (String × MergedField)) :
    copies ⟨types.map fun t => copied.foldl MergedType.withCopy t⟩ = copies ⟨types⟩ := by
  have hinterfaces : (types.map fun t => copied.foldl MergedType.withCopy t).filter
      (fun t => t.kind == .interface) = types.filter fun t => t.kind == .interface := by
    rw [List.filter_map]
    simp only [Function.comp_def, MergedType.kind_foldl_withCopy]
    refine (List.map_congr_left fun t ht => ?_).trans (List.map_id _)
    -- an interface gets no copies
    have hkind : t.kind = .interface := beq_iff_eq.mp (List.mem_filter.mp ht).2
    exact MergedType.foldl_withCopy_of_kind_ne (by rw [hkind]; decide) copied
  unfold copies
  dsimp only
  rw [hinterfaces]

/-- The fields of a name that objects add to the interfaces of a type, in the order in which they are
copied to it. -/
def contributions (m : MergedSchema) (typeName name : String) : List MergedField :=
  (m.copies.filter fun copy => copy.1 == typeName && copy.2.name == name).map Prod.snd

section

variable {set : SubgraphSet} {m : MergedSchema}

/-- A field is a contribution to a type exactly if objects add it to an interface of the type. -/
theorem mem_contributions_iff (h : ofSubgraphs set = .ok m) {t : MergedType} (ht : t ∈ m.types)
    {name : String} {field : MergedField} :
    field ∈ m.contributions t.name name ↔ (∃ i ∈ m.types, i.kind = .interface ∧
      i.name ∈ t.interfaces ∧ i.IsAddedByObjects field) ∧ field.name = name := by
  have hcopied : (t.name, field) ∈ m.copies ↔ _ := mem_copies_iff h (fun _ _ => Iff.rfl) ht
  rw [← hcopied, contributions, List.mem_map]
  constructor
  · rintro ⟨⟨typeName, field⟩, hcopy, rfl⟩
    simp only [List.mem_filter, Bool.and_eq_true, beq_iff_eq] at hcopy
    obtain ⟨hmem, rfl, hname⟩ := hcopy
    exact ⟨hmem, hname⟩
  · rintro ⟨hmem, hname⟩
    refine ⟨(t.name, field), List.mem_filter.mpr ⟨hmem, ?_⟩, rfl⟩
    rw [Bool.and_eq_true, beq_iff_eq, beq_iff_eq]
    exact ⟨rfl, hname⟩

/-- A field that was not copied is defined by a subgraph. -/
theorem exists_hasField_of_mem_fields (hset : set.HasProperNames) (h : ofSubgraphs set = .ok m)
    {t : MergedType} (ht : t ∈ m.types) {field : MergedField} (hfield : field ∈ t.fields)
    (hown : field.isFromInterfaceObject = false) :
    ∃ g, set.HasField t.name g ∧ g.name = field.name := by
  have hfound := (hasUniqueNames_of_ofSubgraphs h).type?_eq_some ht
  have hdefined : field.byGraph ≠ [] := by
    intro hnil
    have hcopied := isFromInterfaceObject_of_byGraph_eq_nil hset h hfound hfield hnil
    exact Bool.false_ne_true (hown.symm.trans hcopied)
  obtain ⟨⟨id, f⟩, hentry⟩ := List.exists_mem_of_ne_nil _ hdefined
  obtain ⟨s, hs, d, hd, g, hg, hname, -⟩ := (mem_byGraph_of_mem_fields hset h ht hfield).mp hentry
  exact ⟨g, ⟨s, List.mem_of_getElem? hs, d, hd, hg⟩, hname⟩

/-- **An object gets a copy of the first contribution** of a name under which no subgraph defines a
field in it. -/
theorem field?_eq_copyOf_head (hset : set.HasProperNames) (h : ofSubgraphs set = .ok m)
    {t : MergedType} (ht : t ∈ m.types) (hobject : t.kind = .object) {name : String}
    (hundefined : ∀ field, set.HasField t.name field → field.name ≠ name) :
    t.field? name = (m.contributions t.name name).head?.map copyOf := by
  obtain ⟨before, htypes, -, htables⟩ := exists_before_copies h
  have hcopies : m.copies = before.copies := by
    have hm : m = ⟨before.types.map fun t => before.copies.foldl MergedType.withCopy t⟩ := by
      rw [← htypes]
    rw [hm, copies_map_withCopy]
  have hown : ∀ field ∈ t.fields, field.name = name → field.isFromInterfaceObject = true := by
    intro field hfield hname
    by_contra hnot
    rw [Bool.not_eq_true] at hnot
    obtain ⟨g, hg, hsame⟩ := exists_hasField_of_mem_fields hset h ht hfield hnot
    exact hundefined g hg (hsame.trans hname)
  rw [htypes] at ht
  obtain ⟨u, hu, rfl⟩ := List.mem_map.mp ht
  rw [MergedType.kind_foldl_withCopy] at hobject
  have hfound := MergedType.field?_foldl_withCopy hobject name before.copies
  have hnone : u.field? name = none := by
    -- a field of the type before copies would be found after copies as well, and be no copy
    cases hbefore : u.field? name with
    | none => rfl
    | some field =>
      rw [hbefore, Option.some_or] at hfound
      have hmark := hown field (List.mem_of_find?_eq_some hfound)
        (by simpa using List.find?_some hfound)
      obtain ⟨changes, hfields⟩ := htables u hu
      have hmem : field ∈ u.fields := List.mem_of_find?_eq_some hbefore
      rw [hfields] at hmem
      rw [MergedField.isFromInterfaceObject_of_mem_table hmem] at hmark
      cases hmark
  rw [hfound, hnone, Option.none_or, contributions, hcopies, List.head?_map, List.head?_filter,
    Option.map_map, MergedType.name_foldl_withCopy]
  rfl

/-! ## Contributions in any order -/

/-- Objects add a field to an interface exactly if some subgraph that defines objects for the
interface defines a field of its name in them. -/
theorem isAddedByObjects_iff (hset : set.HasProperNames) (h : ofSubgraphs set = .ok m)
    {i : MergedType} (hi : i ∈ m.types) {field : MergedField} (hfield : field ∈ i.fields) :
    i.IsAddedByObjects field ↔ ∃ s ∈ set.subgraphs, ∃ d, s.definition? i.name = some d ∧
      d.isInterfaceObject = true ∧ ∃ g ∈ d.fields, g.name = field.name := by
  constructor
  · rintro ⟨-, id, hid, d, hd, hobject⟩
    obtain ⟨⟨_, f⟩, hentry, rfl⟩ := List.mem_map.mp hid
    obtain ⟨s, hs, hdefines⟩ := (mem_byGraph_iff hset h hi).mp hd
    obtain ⟨s', hs', d', hd', g, hg, hname, -⟩ :=
      (mem_byGraph_of_mem_fields hset h hi hfield).mp hentry
    obtain rfl : s = s' := Option.some.inj (hs.symm.trans hs')
    obtain rfl : d = d' := Option.some.inj (hdefines.symm.trans hd')
    exact ⟨s, List.mem_of_getElem? hs, d, hdefines, hobject, g, hg, hname⟩
  · rintro ⟨s, hs, d, hd, hobject, g, hg, hname⟩
    obtain ⟨id, hid⟩ := List.mem_iff_getElem?.mp hs
    have hentry := (mem_byGraph_of_mem_fields hset h hi hfield).mpr
      ⟨s, hid, d, hd, g, hg, hname, rfl⟩
    exact ⟨hfield, id, List.mem_map_of_mem hentry, d, (mem_byGraph_iff hset h hi).mpr
      ⟨s, hid, hd⟩, hobject⟩

/-- The fields of an interface are no copies. -/
theorem isFromInterfaceObject_of_interface (h : ofSubgraphs set = .ok m) {i : MergedType}
    (hi : i ∈ m.types) (hkind : i.kind = .interface) {field : MergedField}
    (hfield : field ∈ i.fields) : field.isFromInterfaceObject = false := by
  by_contra hcopied
  rw [Bool.not_eq_false] at hcopied
  obtain ⟨hobject, -⟩ := (copiesTo_of_ofSubgraphs h hi).copied field hfield hcopied
  rw [hkind] at hobject
  cases hobject

/-- A field of an interface is its own field of the name. -/
theorem ownField?_of_interface (h : ofSubgraphs set = .ok m) {i : MergedType} (hi : i ∈ m.types)
    (hkind : i.kind = .interface) {field : MergedField} (hfield : field ∈ i.fields) :
    i.ownField? field.name = some field := by
  rw [← find?_key_eq_some (copiesTo_of_ofSubgraphs h hi).nodup_names hfield]
  refine find?_congr fun other hother => ?_
  rw [isFromInterfaceObject_of_interface h hi hkind hother, Bool.not_false, Bool.and_true]

end

/-- What a subgraph of one set defines in a type, a subgraph of the same set in another order defines,
as long as the order of fields does not matter. -/
theorem exists_definition?_of_shuffled {set set' : SubgraphSet}
    (h : Shuffled Subgraph.Alike set.subgraphs set'.subgraphs) {P : TypeDef → Prop}
    (hP : ∀ d d' : TypeDef, d.Alike d' → P d' → P d) {typeName : String}
    (hdefined : ∃ s ∈ set'.subgraphs, ∃ d, s.definition? typeName = some d ∧ P d) :
    ∃ s ∈ set.subgraphs, ∃ d, s.definition? typeName = some d ∧ P d := by
  obtain ⟨s', hs', d', hd', hd'P⟩ := hdefined
  obtain ⟨s, hs, halike⟩ := h.exists_of_mem_right hs'
  have htypes := halike.definition? typeName
  rw [hd'] at htypes
  cases hd : s.definition? typeName with
  | none =>
    rw [hd] at htypes
    cases htypes
  | some d =>
    rw [hd] at htypes
    cases htypes with
    | some hsame => exact ⟨s, hs, d, hd, hP d d' hsame hd'P⟩

/-- Subgraphs define fields of the same names in another order. -/
theorem exists_hasField_of_shuffled {set set' : SubgraphSet}
    (h : Shuffled Subgraph.Alike set.subgraphs set'.subgraphs) {typeName : String} {field' : Field}
    (hfield' : set'.HasField typeName field') :
    ∃ field, set.HasField typeName field ∧ field.name = field'.name := by
  obtain ⟨s', hs', d', hd', hmem'⟩ := hfield'
  obtain ⟨s, hs, d, hd, field, hfield, hname⟩ := exists_definition?_of_shuffled h
    (P := fun d => ∃ field ∈ d.fields, field.name = field'.name)
    (fun d d' hd ⟨field, hfield, hname⟩ => ⟨field, hd.fields.mem_iff.mp hfield, hname⟩)
    ⟨s', hs', d', hd', field', hmem', rfl⟩
  exact ⟨field, ⟨s, hs, d, hd, hfield⟩, hname⟩

section

variable {set set' : SubgraphSet} {m m' : MergedSchema} (hset : set.HasProperNames)
  (hset' : set'.HasProperNames) (h : Shuffled Subgraph.Alike set.subgraphs set'.subgraphs)
  (hm : ofSubgraphs set = .ok m) (hm' : ofSubgraphs set' = .ok m')

include hset hset' h hm hm'

/-- Every type has a type of its name in another order of the subgraphs. -/
theorem exists_sameConsensus_of_shuffled {t' : MergedType} (ht' : t' ∈ m'.types) :
    ∃ t ∈ m.types, t.name = t'.name ∧ t.SameConsensus t' := by
  have hsame := sameConsensus_of_shuffled hset hset' h hm hm' t'.name
  rw [(hasUniqueNames_of_ofSubgraphs hm').type?_eq_some ht'] at hsame
  cases hfound : m.type? t'.name with
  | none =>
    rw [hfound] at hsame
    cases hsame
  | some t =>
    rw [hfound] at hsame
    obtain ⟨ht, hname⟩ := mem_types_of_type?_eq_some hfound
    cases hsame with
    | some hconsensus => exact ⟨t, ht, hname, hconsensus⟩

/-- A type has the same interfaces in another order. -/
theorem mem_interfaces_of_shuffled {t t' : MergedType} (ht : t ∈ m.types) (ht' : t' ∈ m'.types)
    (hname : t.name = t'.name) {interfaceName : String} (hmem : interfaceName ∈ t'.interfaces) :
    interfaceName ∈ t.interfaces := by
  obtain ⟨hkind', hdeclared'⟩ := (mem_interfaces_iff hm' ht' hset').mp hmem
  have hdeclared := exists_definition?_of_shuffled h
    (P := fun d => interfaceName ∈ d.interfaces) (fun d d' hd hmem => by rwa [hd.rest] at hmem)
    hdeclared'
  obtain ⟨u, hu, huname, husame⟩ := exists_sameConsensus_of_shuffled hset hset' h hm hm' ht'
  obtain rfl : t = u := List.inj_on_of_nodup_map (hasUniqueNames_of_ofSubgraphs hm) ht hu
    (hname.trans huname.symm)
  rw [mem_interfaces_iff hm ht hset, hname, husame.kind]
  exact ⟨hkind', hdeclared⟩

/-- Objects add the same fields to an interface in another order. -/
theorem exists_isAddedByObjects_of_shuffled {i i' : MergedType} (hi : i ∈ m.types)
    (hi' : i' ∈ m'.types) (hname : i.name = i'.name) (hsame : i.SameConsensus i')
    (hinterface' : i'.kind = .interface) {field' : MergedField}
    (hadded' : i'.IsAddedByObjects field') :
    ∃ field, i.IsAddedByObjects field ∧ field.name = field'.name ∧
      field.metadata.SameConsensus field'.metadata := by
  have hfields := hsame.fields field'.name
  rw [ownField?_of_interface hm' hi' hinterface' hadded'.1] at hfields
  cases hown : i.ownField? field'.name with
  | none =>
    rw [hown] at hfields
    cases hfields
  | some field =>
    rw [hown] at hfields
    have hfield : field ∈ i.fields := List.mem_of_find?_eq_some hown
    have hfieldname : field.name = field'.name := by
      have htest := List.find?_some hown
      rw [Bool.and_eq_true, beq_iff_eq] at htest
      exact htest.1
    have hadded : i.IsAddedByObjects field := by
      rw [isAddedByObjects_iff hset hm hi hfield, hfieldname, hname]
      refine exists_definition?_of_shuffled h ?_
        ((isAddedByObjects_iff hset' hm' hi' hadded'.1).mp hadded')
      rintro d d' hd ⟨hobject, g, hg, hgname⟩
      refine ⟨?_, g, hd.fields.mem_iff.mp hg, hgname⟩
      rwa [hd.rest] at hobject
    cases hfields with
    | some hconsensus => exact ⟨field, hadded, hfieldname, hconsensus.metadata⟩

/-- **Contributions are the same in any order**, except that they may come in another order. -/
theorem exists_contribution_of_shuffled {t t' : MergedType} (ht : t ∈ m.types) (ht' : t' ∈ m'.types)
    (hname : t.name = t'.name) {name : String} {field' : MergedField}
    (hfield' : field' ∈ m'.contributions t'.name name) :
    ∃ field ∈ m.contributions t.name name, field.metadata.SameConsensus field'.metadata := by
  obtain ⟨⟨i', hi', hinterface', himplements', hadded'⟩, rfl⟩ :=
    (mem_contributions_iff hm' ht').mp hfield'
  obtain ⟨i, hi, hiname, hsame⟩ := exists_sameConsensus_of_shuffled hset hset' h hm hm' hi'
  have himplements : i.name ∈ t.interfaces :=
    hiname ▸ mem_interfaces_of_shuffled hset hset' h hm hm' ht ht' hname himplements'
  obtain ⟨field, hadded, hfieldname, hconsensus⟩ :=
    exists_isAddedByObjects_of_shuffled hset hset' h hm hm' hi hi' hiname hsame hinterface' hadded'
  have hmem := (mem_contributions_iff hm ht).mpr
    ⟨⟨i, hi, hsame.kind.trans hinterface', himplements, hadded⟩, hfieldname⟩
  exact ⟨field, hmem, hconsensus⟩

/-- There are as few contributions in another order. -/
theorem contributions_eq_nil_of_shuffled {t t' : MergedType} (ht : t ∈ m.types) (ht' : t' ∈ m'.types)
    (hname : t.name = t'.name) {name : String} (hnone : m.contributions t.name name = []) :
    m'.contributions t'.name name = [] := by
  refine List.eq_nil_iff_forall_not_mem.mpr fun field' hfield' => ?_
  obtain ⟨field, hfield, -⟩ :=
    exists_contribution_of_shuffled hset hset' h hm hm' ht ht' hname hfield'
  rw [hnone] at hfield
  cases hfield

end

/-- **Of the fields that several interfaces contribute, the first one is copied.** If objects add
fields of one name to interfaces of an object, and no subgraph defines such a field in the object, it
gets a copy of the first of them. The copy has the consensus over all of them exactly if the first one
covers each of the others. When the same schemas are taken in in another order, the object gets a field
of this name as well, with the consensus of one of the same contributions, which need not be the same
one. -/
theorem copies_are_first_contributions {set : SubgraphSet} (hset : set.Ingested)
    {m : MergedSchema} (hm : ofSubgraphs set = .ok m) {t : MergedType} (ht : t ∈ m.types)
    (hobject : t.kind = .object) {name : String}
    (hundefined : ∀ field, set.HasField t.name field → field.name ≠ name) :
    t.field? name = (m.contributions t.name name).head?.map copyOf ∧
      (∀ first rest, m.contributions t.name name = first :: rest →
        ((copyOf first).metadata.SameConsensus
            (first.metadata.mergeAll (rest.map MergedField.metadata)) ↔
          ∀ other ∈ rest, first.metadata.Covers other.metadata)) ∧
      ∀ sources sources' : List SchemaSource, sources.Perm sources' →
        (sources.map SchemaSource.name).Nodup → SubgraphSet.ofSources sources = .ok set →
          ∀ set', SubgraphSet.ofSources sources' = .ok set' → ∃ m', ofSubgraphs set' = .ok m' ∧
            ∃ t' ∈ m'.types, t'.name = t.name ∧
              (t'.field? name = none ↔ m.contributions t.name name = []) ∧
              ∀ field', t'.field? name = some field' →
                ∃ field ∈ m.contributions t.name name,
                  field.metadata.SameConsensus field'.metadata := by
  have hproper := hset.hasProperNames
  refine ⟨field?_eq_copyOf_head hproper hm ht hobject hundefined, fun first rest _ => ?_, ?_⟩
  · rw [show (copyOf first).metadata = first.metadata from rfl, Metadata.sameConsensus_mergeAll_iff,
      List.forall_mem_map]
  intro sources sources' hperm hnames hsources set' hsources'
  have hproper' := (SubgraphSet.ingested_ofSources hsources').hasProperNames
  have hnames' : (sources'.map SchemaSource.name).Nodup := (hperm.map _).nodup_iff.mp hnames
  have hshuffled := SubgraphSet.shuffled_of_ofSources hperm hnames hsources hsources'
  have hshuffled' := SubgraphSet.shuffled_of_ofSources hperm.symm hnames' hsources' hsources
  obtain ⟨m', hm'⟩ := (ofSubgraphs_ok_iff_of_shuffled hshuffled).mp ⟨m, hm⟩
  obtain ⟨t', ht', hname, hsame⟩ :=
    exists_sameConsensus_of_shuffled hproper' hproper hshuffled' hm' hm ht
  -- no subgraph defines the field in the other order either
  have hundefined' : ∀ field, set'.HasField t'.name field → field.name ≠ name := by
    intro field hfield hfieldname
    obtain ⟨g, hg, hgname⟩ := exists_hasField_of_shuffled hshuffled hfield
    exact hundefined g (hname ▸ hg) (hgname.trans hfieldname)
  have hcopied' := field?_eq_copyOf_head hproper' hm' ht' (hsame.kind.trans hobject) hundefined'
  refine ⟨m', hm', t', ht', hname, ?_, ?_⟩
  · rw [hcopied', Option.map_eq_none_iff, List.head?_eq_none_iff]
    constructor
    · exact contributions_eq_nil_of_shuffled hproper' hproper hshuffled' hm' hm ht' ht hname
    · exact contributions_eq_nil_of_shuffled hproper hproper' hshuffled hm hm' ht ht' hname.symm
  · intro field' hfield'
    rw [hcopied', Option.map_eq_some_iff] at hfield'
    obtain ⟨first, hfirst, rfl⟩ := hfield'
    obtain ⟨field, hfield, hconsensus⟩ := exists_contribution_of_shuffled hproper hproper' hshuffled
      hm hm' ht ht' hname.symm (List.mem_of_mem_head? hfirst)
    exact ⟨field, hfield, hconsensus⟩

end MergedSchema

/-- A schema with an object that implements two interfaces. -/
def SchemaSource.twoInterfaces : SchemaSource :=
  ⟨"type Query\x7bt:T\x7dinterface I@key(fields:\"i\")\x7bi:ID\x7d" ++
      "interface J@key(fields:\"i\")\x7bi:ID\x7d" ++
      "type T implements I&J@key(fields:\"i\")\x7bi:ID\x7d",
    "a", none⟩

/-- A schema that adds a field with different tags to both interfaces. -/
def SchemaSource.twoContributions : SchemaSource :=
  ⟨"type I@interfaceObject@key(fields:\"i\")\x7bi:ID f:Int@tag(name:\"x\")\x7d" ++
      "type J@interfaceObject@key(fields:\"i\")\x7bi:ID f:Int@tag(name:\"y\")\x7d",
    "b", none⟩

theorem SchemaSource.merges_contributions :
    ((SubgraphSet.ofSources [twoInterfaces, twoContributions]).toOption.any fun set =>
      (MergedSchema.ofSubgraphs set).toOption.any fun m =>
        ((m.types.any fun t => t.name == "T" && t.kind == .object) &&
          (m.contributions "T" "f").map (fun field => field.metadata.tags) == [["x"], ["y"]]) &&
        !(set.subgraphs.any fun s => (s.definition? "T").any fun d => d.fields.any fun field =>
          field.name == "f")) = true := by
  rw [SubgraphSet.ofSources_eq_foldlM_insertSource]
  decide +kernel

namespace MergedSchema

/-- The schemas are merged, and the object may get a copy of one of two fields with different tags. -/
theorem exists_merged_contributions :
    ∃ set m t first second, SubgraphSet.ofSources [.twoInterfaces, .twoContributions] = .ok set ∧
      set.Ingested ∧ ofSubgraphs set = .ok m ∧ (t ∈ m.types ∧ t.name = "T" ∧ t.kind = .object) ∧
      (∀ field, set.HasField t.name field → field.name ≠ "f") ∧
      m.contributions t.name "f" = [first, second] ∧
      first.metadata.tags = ["x"] ∧ second.metadata.tags = ["y"] := by
  obtain ⟨set, hset, hmerges⟩ := exists_ok_of_any SchemaSource.merges_contributions
  obtain ⟨m, hm, hmerged⟩ := exists_ok_of_any hmerges
  rw [Bool.and_eq_true, Bool.and_eq_true, beq_iff_eq, Bool.not_eq_true'] at hmerged
  obtain ⟨⟨hobject, htags⟩, hundefined⟩ := hmerged
  simp only [List.any_eq_true, Bool.and_eq_true, beq_iff_eq] at hobject
  obtain ⟨t, ht, hname, hkind⟩ := hobject
  obtain ⟨first, others, hcontributions, hfirst, hothers⟩ := List.map_eq_cons_iff.mp htags
  obtain ⟨second, rest, rfl, hsecond, hrest⟩ := List.map_eq_cons_iff.mp hothers
  obtain rfl := List.map_eq_nil_iff.mp hrest
  refine ⟨set, m, t, first, second, hset, SubgraphSet.ingested_ofSources hset, hm,
    ⟨ht, hname, hkind⟩, ?_, hname ▸ hcontributions, hfirst, hsecond⟩
  rintro field ⟨s, hs, d, hd, hfield⟩ hfieldname
  rw [hname] at hd
  simp only [List.any_eq_false, Option.any_eq_true, List.any_eq_true, beq_iff_eq] at hundefined
  exact hundefined s hs ⟨d, hd, field, hfield, hfieldname⟩

/-- The object gets the first field, which has not the tag of the second one. -/
theorem copies_are_first_contributions_of_twoInterfaces :
    ∃ set m t first second, SubgraphSet.ofSources [.twoInterfaces, .twoContributions] = .ok set ∧
      set.Ingested ∧ ofSubgraphs set = .ok m ∧ t ∈ m.types ∧
      m.contributions t.name "f" = [first, second] ∧ t.field? "f" = some (copyOf first) ∧
      ¬ (copyOf first).metadata.SameConsensus (first.metadata.mergeAll [second.metadata]) := by
  obtain ⟨set, m, t, first, second, hset, hingested, hm, ⟨ht, -, hobject⟩, hundefined,
    hcontributions, hfirst, hsecond⟩ := exists_merged_contributions
  obtain ⟨hcopied, hcovers, -⟩ :=
    copies_are_first_contributions hingested hm ht hobject hundefined
  refine ⟨set, m, t, first, second, hset, hingested, hm, ht, hcontributions, ?_, ?_⟩
  · rw [hcopied, hcontributions]
    rfl
  · intro hsame
    have hcovered :=
      (hcovers first [second] hcontributions).mp hsame second (List.mem_singleton_self second)
    have htag : "y" ∈ first.metadata.tags := hcovered.tags (by simp [hsecond])
    rw [hfirst] at htag
    exact absurd htag (by decide)

/-- A copied field need not have the consensus over the interfaces that contribute it. -/
theorem copied_field_lacks_tag_of_contribution :
    ¬ ∀ set : SubgraphSet, set.Ingested → ∀ m, ofSubgraphs set = .ok m →
      ∀ t ∈ m.types, t.kind = .object → ∀ field ∈ t.fields, field.isFromInterfaceObject = true →
        ∀ first rest, m.contributions t.name field.name = first :: rest →
          field.metadata.SameConsensus
            (first.metadata.mergeAll (rest.map MergedField.metadata)) := by
  intro hmerged
  obtain ⟨set, m, t, first, second, -, hingested, hm, ⟨ht, -, hobject⟩, hundefined,
    hcontributions, hfirst, hsecond⟩ := exists_merged_contributions
  have hcopied := field?_eq_copyOf_head hingested.hasProperNames hm ht hobject hundefined
  rw [hcontributions] at hcopied
  have hfield : copyOf first ∈ t.fields := List.mem_of_find?_eq_some hcopied
  have hname : (copyOf first).name = "f" := by simpa using List.find?_some hcopied
  have hsame := hmerged set hingested m hm t ht hobject (copyOf first) hfield rfl first [second]
    (hname ▸ hcontributions)
  have htag : "y" ∈ first.metadata.tags :=
    (hsame.tags "y").mpr (Metadata.mem_tags_mergeAll.mpr
      (.inr ⟨second.metadata, List.mem_singleton_self _, by simp [hsecond]⟩))
  rw [hfirst] at htag
  exact absurd htag (by decide)

end MergedSchema

end Federation
