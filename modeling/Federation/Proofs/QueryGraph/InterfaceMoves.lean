import Federation.Proofs.QueryGraph.EntityMoves
import Federation.Proofs.Validation.EntityInterfaces

/-!
# Moves to interface objects

Where objects stand in for an interface, each object type that implements the interface can be fetched
as such an object. The node of the interface is entered from each subgraph that defines the object
type, the same one included, by the cheapest key that can be filled in there, and in no other way.
-/

namespace Federation

/-- Objects of a type can be fetched as what stands in for an interface that the type implements, by
the cheapest key that can be filled in where they come from. -/
def SubgraphSet.CanStandInBy (set : SubgraphSet) (source : String × SubgraphId) (key : Key)
    (target : String × SubgraphId) : Prop :=
  set.HasImplementation target.1 source.1 ∧
    ∃ s d, set.subgraph? target.2 = some s ∧ s.definition? target.1 = some d ∧
      d.isInterfaceObject = true ∧
      ∃ s' d', set.subgraph? source.2 = some s' ∧ s'.definition? source.1 = some d' ∧
        Key.cheapestFrom? s' d' d.keys = some key

/-- An object of a schema is a type of its name. -/
theorem MergedSchema.object?_eq_some_iff {m : MergedSchema} {name : String} {o : MergedType} :
    m.object? name = some o ↔ m.type? name = some o ∧ o.kind = .object := by
  rw [object?, Option.filter_eq_some_iff, beq_iff_eq]

namespace QueryGraph

variable {set : SubgraphSet} {merged : MergedSchema}

/-! ## Joining subgraphs -/

section

variable {g : QueryGraph} {t o : MergedType} {source target : SubgraphId × TypeDef} {s : Subgraph}
  {key : Key}

/-- There is an edge from each subgraph where a key can be filled in for an implementation. -/
theorem movesBy_joinInterfaceObject (himplements : o.name ∈ t.implementations)
    (ho : merged.object? o.name = some o) (hsource : source ∈ o.byGraph)
    (hs : set.subgraph? source.1 = some s)
    (hkey : Key.cheapestFrom? s source.2 target.2.keys = some key)
    (hhead : g.HasNodeFor (o.name, source.1)) (htail : g.HasNodeFor (t.name, target.1)) :
    (joinInterfaceObject set merged t g target).MovesBy (o.name, source.1) (.interfaceObject key)
      (t.name, target.1) := by
  -- the edge comes about when it is the turn of the implementation
  obtain ⟨node, hnode⟩ := htail.exists_base?
  unfold joinInterfaceObject
  rw [hnode]
  refine foldl_establishes (f := joinImplementation set merged node target.2.keys)
    (P := fun g => g.MovesBy (o.name, source.1) (.interfaceObject key) (t.name, target.1))
    (R := fun g => g.HasNodeFor (o.name, source.1) ∧ g.subject? node = some (t.name, target.1))
    himplements ?_ ?_ ?_ ⟨hhead, base?_eq_some hnode⟩
  · exact fun g name => joinImplementation_keeps
      (P := fun g => g.HasNodeFor (o.name, source.1) ∧ g.subject? node = some (t.name, target.1))
      (fun _ _ _ _ hg => ⟨hg.1.addEdge _ _ _, (subject?_addEdge _ _ _ _ _).trans hg.2⟩) node _ name
  · exact fun g name => joinImplementation_keeps (P := fun g => g.MovesBy _ _ _)
      (fun _ _ _ _ hg => hg.addEdge _ _ _) node _ name
  · intro g hg
    unfold joinImplementation
    rw [ho]
    exact movesBy_foldl_addKeyEdge hsource hs hkey hg.1 hg.2

theorem movesBy_interfaceObject_joinType (hkind : t.kind = .interface) (htarget : target ∈ t.byGraph)
    (hstandIn : target.2.isInterfaceObject = true) (himplements : o.name ∈ t.implementations)
    (ho : merged.object? o.name = some o) (hsource : source ∈ o.byGraph)
    (hs : set.subgraph? source.1 = some s)
    (hkey : Key.cheapestFrom? s source.2 target.2.keys = some key)
    (hhead : g.HasNodeFor (o.name, source.1)) (htail : g.HasNodeFor (t.name, target.1)) :
    (joinType set merged g t).MovesBy (o.name, source.1) (.interfaceObject key)
      (t.name, target.1) := by
  have htargets := List.foldlRecOn t.byGraph (joinTarget set t)
    (motive := fun g => g.HasNodeFor (o.name, source.1) ∧ g.HasNodeFor (t.name, target.1))
    ⟨hhead, htail⟩ fun g hg other _ => joinTarget_keeps
      (P := fun g => g.HasNodeFor _ ∧ g.HasNodeFor _)
      (fun _ _ _ _ hg => ⟨hg.1.addEdge _ _ _, hg.2.addEdge _ _ _⟩) t other hg
  unfold joinType
  rw [hkind]
  refine foldl_establishes (f := joinInterfaceObject set merged t)
    (P := fun g => g.MovesBy (o.name, source.1) (.interfaceObject key) (t.name, target.1))
    (R := fun g => g.HasNodeFor (o.name, source.1) ∧ g.HasNodeFor (t.name, target.1))
    (List.mem_filter.mpr ⟨htarget, hstandIn⟩) ?_ ?_ ?_ htargets
  · exact fun g other => joinInterfaceObject_keeps (P := fun g => g.HasNodeFor _ ∧ g.HasNodeFor _)
      (fun _ _ _ _ hg => ⟨hg.1.addEdge _ _ _, hg.2.addEdge _ _ _⟩) t other
  · exact fun g other => joinInterfaceObject_keeps (P := fun g => g.MovesBy _ _ _)
      (fun _ _ _ _ hg => hg.addEdge _ _ _) t other
  · exact fun g hg => movesBy_joinInterfaceObject himplements ho hsource hs hkey hg.1 hg.2

end

/-! ## Whole graphs -/

section

variable (hset : set.HasProperNames) (hm : MergedSchema.ofSubgraphs set = .ok merged)

include hset hm

theorem fetchesOnly_interfaceObject_joined :
    (joined set merged).FetchesOnly fun source move target =>
      ∀ key, move = .interfaceObject key → set.CanStandInBy source key target := by
  refine List.foldlRecOn merged.types (joinType set merged)
    (motive := FetchesOnly _) (fetchesOnly_draft _) fun g hg t ht => ?_
  refine fetchesOnly_joinType hg merged ?_ ?_
  · intros
    contradiction
  · intro target htarget hstandIn name hname o ho source hsource s hs key hkey key' hmove
    obtain rfl := Move.interfaceObject.inj hmove
    obtain ⟨hfound, -⟩ := MergedSchema.object?_eq_some_iff.mp ho
    obtain ⟨hmem, rfl⟩ := MergedSchema.mem_types_of_type?_eq_some hfound
    obtain ⟨u, hu, hdefined⟩ := (MergedSchema.mem_byGraph_iff hset hm ht).mp htarget
    obtain ⟨s', hs', hdefined'⟩ := (MergedSchema.mem_byGraph_iff hset hm hmem).mp hsource
    obtain rfl : s = s' := Option.some.inj (hs.symm.trans hs')
    have hkind : t.kind = .interface :=
      (MergedSchema.kind_of_mem_byGraph hset hm ht htarget).symm.trans
        (TypeDef.kind_of_isInterfaceObject hstandIn)
    exact ⟨(MergedSchema.mem_object_implementations_iff hset hm ht hkind).mp
        ⟨hname, Option.isSome_iff_exists.mpr ⟨o, ho⟩⟩,
      u, target.2, hu, hdefined, hstandIn, s, source.2, hs, hdefined', hkey⟩

theorem movesBy_interfaceObject_joined {source target : String × SubgraphId} {key : Key}
    (h : set.CanStandInBy source key target) :
    (joined set merged).MovesBy source (.interfaceObject key) target := by
  obtain ⟨name, id'⟩ := source
  obtain ⟨interface, id⟩ := target
  obtain ⟨himplementation, s, d, hs, hd, hstandIn, s', d', hs', hd', hkey⟩ := h
  dsimp only at himplementation hs hd hs' hd'
  have hdkind := TypeDef.kind_of_isInterfaceObject hstandIn
  obtain ⟨t, ht, rfl, htkind, -⟩ :=
    MergedSchema.exists_entry_of_definition? hset hm (List.mem_of_getElem? hs) hd
  have hkind := htkind.trans hdkind
  obtain ⟨hname, hobject⟩ :=
    (MergedSchema.mem_object_implementations_iff hset hm ht hkind).mpr himplementation
  obtain ⟨o, ho⟩ := Option.isSome_iff_exists.mp hobject
  obtain ⟨hfound, hokind⟩ := MergedSchema.object?_eq_some_iff.mp ho
  obtain ⟨hmem, rfl⟩ := MergedSchema.mem_types_of_type?_eq_some hfound
  have htarget := (MergedSchema.mem_byGraph_iff hset hm ht).mpr ⟨s, hs, hd⟩
  have hsource := (MergedSchema.mem_byGraph_iff hset hm hmem).mpr ⟨s', hs', hd'⟩
  have hd'kind : d'.kind = .object :=
    (MergedSchema.kind_of_mem_byGraph hset hm hmem hsource).trans hokind
  have hnode : (draft set merged).graph.HasNodeFor (t.name, id) :=
    hasNodeFor_draft_of_definition? hs hd (.inr hdkind)
  have hnode' : (draft set merged).graph.HasNodeFor (o.name, id') :=
    hasNodeFor_draft_of_definition? hs' hd' (.inl hd'kind)
  refine foldl_establishes (f := joinType set merged)
    (P := fun g => g.MovesBy (o.name, id') (.interfaceObject key) (t.name, id))
    (R := fun g => g.HasNodeFor (o.name, id') ∧ g.HasNodeFor (t.name, id)) ht ?_ ?_ ?_
    ⟨hnode', hnode⟩
  · exact fun g other => joinType_keeps (P := fun g => g.HasNodeFor _ ∧ g.HasNodeFor _)
      (fun _ _ _ _ _ hg => ⟨hg.1.addEdge _ _ _, hg.2.addEdge _ _ _⟩) other
  · exact fun g other => joinType_keeps (P := fun g => g.MovesBy _ _ _)
      (fun _ _ _ _ _ hg => hg.addEdge _ _ _) other
  · exact fun g hg => movesBy_interfaceObject_joinType hkind htarget hstandIn hname ho hsource hs'
      hkey hg.1 hg.2

/-- **Objects are fetched as what stands in for an interface exactly if their type implements the
interface and they can fill in a key of it, and always by the cheapest one.** -/
theorem movesBy_interfaceObject_ofSubgraphs_iff {source target : String × SubgraphId} {key : Key} :
    (ofSubgraphs set merged).MovesBy source (.interfaceObject key) target ↔
      set.CanStandInBy source key target := by
  have hrun : GrowsTo merged 0 (joined set merged) (ofSubgraphs set merged) :=
    growsTo_ofSubgraphs hm 0
  constructor
  · intro h
    exact ((fetchesOnly_interfaceObject_joined hset hm).growsTo hrun).of_movesBy rfl h key rfl
  · intro h
    exact (movesBy_interfaceObject_joined hset hm h).growsTo hrun

end

end QueryGraph

end Federation
