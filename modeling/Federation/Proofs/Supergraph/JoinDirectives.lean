import Federation.Proofs.Merge.Tables
import Federation.Proofs.Supergraph.Joined

/-!
# Join directives of types

Each join directive that is written for a type or one of its parts is read as what it was written
for. A field has join directives unless all subgraphs of its type say the same about it, so that a
reader is right to take this for granted where there are none.
-/

namespace Federation.Supergraph

variable {graphs : List Graph} {names : GraphNames}

/-! ## Metadata -/

/-- The names of the directives for metadata. -/
def metadataNames : List String :=
  ["tag", "inaccessible", "authenticated", "requiresScopes", "policy", "cost", "deprecated"]

theorem name_mem_of_mem_metadataDirectives {m : Metadata} {d : Directive}
    (h : d ∈ metadataDirectives m) : d.name ∈ metadataNames := by
  have hif : ∀ {holds : Bool} {d' : Directive}, d'.name ∈ metadataNames →
      d ∈ directiveIf holds d' → d.name ∈ metadataNames := by
    intro holds d' hd' hmem
    unfold directiveIf at hmem
    split at hmem
    · rwa [List.mem_singleton.mp hmem]
    · cases hmem
  simp only [metadataDirectives, List.mem_append] at h
  rcases h with (((((h | h) | h) | h) | h) | h) | h
  · obtain ⟨_, _, rfl⟩ := List.mem_map.mp h
    exact (by decide : "tag" ∈ metadataNames)
  · exact hif (by decide : "inaccessible" ∈ metadataNames) h
  · exact hif (by decide : "authenticated" ∈ metadataNames) h
  · exact hif (by decide : "requiresScopes" ∈ metadataNames) h
  · exact hif (by decide : "policy" ∈ metadataNames) h
  · obtain ⟨_, _, rfl⟩ := List.mem_map.mp h
    exact (by decide : "cost" ∈ metadataNames)
  · obtain ⟨_, _, rfl⟩ := List.mem_map.mp h
    exact (by decide : "deprecated" ∈ metadataNames)

/-- The directives for metadata tell nothing about subgraphs. -/
theorem joinsIn_metadataDirectives (m : Metadata) {name : String} (hname : name ∉ metadataNames) :
    joinsIn graphs name (metadataDirectives m) = [] := by
  refine joinsIn_eq_nil fun d hd heq => hname ?_
  rw [← heq]
  exact name_mem_of_mem_metadataDirectives hd

/-! ## Types -/

section

variable {id : SubgraphId} {d : TypeDef} {key : Option Key}

theorem text?_key_joinType : (joinType names id d key).text? "key" = key.map Key.text := by
  unfold Directive.text? Directive.argument? joinType graphArgument
  cases key <;>
    simp [List.lookup_cons, List.lookup_append, lookup_optionalArgument, lookup_flagArgument,
      lookup_denialArgument]

theorem flag_resolvable_joinType :
    (joinType names id d key).flag "resolvable" true = key.all Key.isResolvable := by
  unfold Directive.flag Directive.argument? joinType graphArgument
  cases hkey : key.all Key.isResolvable <;>
    simp [List.lookup_cons, List.lookup_append, lookup_optionalArgument, lookup_flagArgument,
      lookup_denialArgument]

theorem flag_extension_joinType :
    (joinType names id d key).flag "extension" false = d.isExtension := by
  unfold Directive.flag Directive.argument? joinType graphArgument
  cases d.isExtension <;>
    simp [List.lookup_cons, List.lookup_append, lookup_optionalArgument, lookup_flagArgument,
      lookup_denialArgument]

theorem flag_isInterfaceObject_joinType :
    (joinType names id d key).flag "isInterfaceObject" false = d.isInterfaceObject := by
  unfold Directive.flag Directive.argument? joinType graphArgument
  cases d.isInterfaceObject <;>
    simp [List.lookup_cons, List.lookup_append, lookup_optionalArgument, lookup_flagArgument,
      lookup_denialArgument]

/-- The directives of an object or interface are for its keys, or one for none. -/
theorem mem_joinTypes {directive : Directive} (h : directive ∈ joinTypes names id d) :
    ∃ key, directive = joinType names id d key := by
  unfold joinTypes at h
  split at h
  · exact ⟨none, List.mem_singleton.mp h⟩
  · obtain ⟨key, -, rfl⟩ := List.mem_map.mp h
    exact ⟨some key, rfl⟩

theorem joinTypes_ne_nil : joinTypes names id d ≠ [] := by
  unfold joinTypes
  split
  · exact List.cons_ne_nil _ _
  · rename_i hkeys
    simpa using hkeys

/-- The keys are read as they were written. -/
theorem filterMap_keyIn?_joinTypes :
    (joinTypes names id d).filterMap keyIn? = d.keys.map Joined.Key.of := by
  have hkey : ∀ key : Option Key, keyIn? (joinType names id d key) = key.map Joined.Key.of := by
    intro key
    unfold keyIn?
    rw [text?_key_joinType, flag_resolvable_joinType]
    cases key <;> rfl
  unfold joinTypes
  split
  · rename_i hkeys
    rw [List.filterMap_cons, hkey, List.isEmpty_iff.mp hkeys]
    rfl
  · rw [List.filterMap_map]
    exact List.filterMap_eq_map_iff_forall_eq_some.mpr fun key _ => hkey (some key)

/-- What holds of all directives of a type is read off any of them. -/
theorem any_joinTypes {test : Directive → Bool} {value : Bool}
    (h : ∀ key, test (joinType names id d key) = value) :
    (joinTypes names id d).any test = value := by
  obtain ⟨first, others, hlist⟩ := List.exists_cons_of_ne_nil (@joinTypes_ne_nil names id d)
  have hall : ∀ directive ∈ joinTypes names id d, test directive = value := by
    intro directive hdirective
    obtain ⟨key, rfl⟩ := mem_joinTypes hdirective
    exact h key
  cases value with
  | true =>
    have hfirst : first ∈ joinTypes names id d := hlist ▸ List.mem_cons_self
    exact List.any_eq_true.mpr ⟨first, hfirst, hall first hfirst⟩
  | false =>
    exact List.any_eq_false.mpr fun directive hdirective => by simp [hall directive hdirective]

/-- The interfaces are read as they were written. -/
theorem filterMap_interface_joinImplements :
    (joinImplements names id d).filterMap (fun d => d.text? "interface") = d.interfaces := by
  unfold joinImplements
  rw [List.filterMap_map]
  refine (List.filterMap_eq_map_iff_forall_eq_some.mpr fun interface _ => ?_).trans
    (List.map_id d.interfaces)
  rfl

end

section

variable {byGraph : ByGraph TypeDef} (hnames : ∀ e ∈ byGraph, Names graphs names e.1)

include hnames

theorem joinsIn_joinTypes :
    joinsIn graphs "join__type" (byGraph.flatMap fun e => joinTypes names e.1 e.2) =
      tagged byGraph fun e => joinTypes names e.1 e.2 := by
  refine joinsIn_flatMap fun e he d hd => ?_
  obtain ⟨key, rfl⟩ := mem_joinTypes hd
  exact ⟨rfl, graph?_eq_some (hnames e he)⟩

theorem joinsIn_joinImplements :
    joinsIn graphs "join__implements" (byGraph.flatMap fun e => joinImplements names e.1 e.2) =
      tagged byGraph fun e => joinImplements names e.1 e.2 := by
  refine joinsIn_flatMap fun e he d hd => ?_
  obtain ⟨interface, -, rfl⟩ := List.mem_map.mp hd
  exact ⟨rfl, graph?_eq_some (hnames e he)⟩

/-- What is written for an object or interface is read as the definitions of the subgraphs. -/
theorem definitionsIn_eq (hunique : byGraph.Pairwise fun a b => a.1 ≠ b.1) (m : Metadata) :
    definitionsIn graphs
        (byGraph.flatMap (fun e => joinTypes names e.1 e.2) ++
          byGraph.flatMap (fun e => joinImplements names e.1 e.2) ++ metadataDirectives m) =
      byGraph.map Joined.Definition.of := by
  have htypes : joinsIn graphs "join__type"
      (byGraph.flatMap fun e => joinImplements names e.1 e.2) = [] := by
    refine joinsIn_eq_nil fun d hd => ?_
    obtain ⟨e, -, hd⟩ := List.mem_flatMap.mp hd
    obtain ⟨interface, -, rfl⟩ := List.mem_map.mp hd
    exact (by decide : "join__implements" ≠ "join__type")
  have himplements : joinsIn graphs "join__implements"
      (byGraph.flatMap fun e => joinTypes names e.1 e.2) = [] := by
    refine joinsIn_eq_nil fun d hd => ?_
    obtain ⟨e, -, hd⟩ := List.mem_flatMap.mp hd
    obtain ⟨key, rfl⟩ := mem_joinTypes hd
    exact (by decide : "join__type" ≠ "join__implements")
  unfold definitionsIn
  simp only [joinsIn_append, htypes, himplements, joinsIn_joinTypes hnames,
    joinsIn_joinImplements hnames, List.append_nil, List.nil_append,
    joinsIn_metadataDirectives m (by decide : "join__type" ∉ metadataNames),
    joinsIn_metadataDirectives m (by decide : "join__implements" ∉ metadataNames)]
  rw [graphsOf_tagged hunique fun _ _ => joinTypes_ne_nil, List.map_map]
  refine List.map_congr_left fun e he => ?_
  unfold Joined.Definition.of
  rw [Function.comp_apply, directivesOf_tagged hunique he, directivesOf_tagged hunique he,
    filterMap_keyIn?_joinTypes, filterMap_interface_joinImplements,
    any_joinTypes fun _ => flag_extension_joinType,
    any_joinTypes fun _ => flag_isInterfaceObject_joinType]

/-- What is written for any other type is read as the subgraphs that define it. -/
theorem joinsIn_joinPlainType :
    (joinsIn graphs "join__type" (byGraph.ids.map (joinPlainType names))).map Prod.fst =
      byGraph.ids := by
  have hid : ∀ id ∈ byGraph.ids, (joinPlainType names id).graph? graphs = some id := by
    intro id hid
    obtain ⟨e, he, rfl⟩ := List.mem_map.mp hid
    exact graph?_eq_some (hnames e he)
  have hjoins : joinsIn graphs "join__type" (byGraph.ids.map (joinPlainType names)) =
      byGraph.ids.map fun id => (id, joinPlainType names id) :=
    joinsIn_map (fun _ _ => rfl) hid
  rw [hjoins, List.map_map]
  exact List.map_id _

end

/-! ## Fields -/

section

variable {field : MergedField} {id : SubgraphId} {f : FieldInGraph}

/-- The arguments that are written for a field in a subgraph. -/
theorem argument?_joinField (name : String) : (joinField names field id f).argument? name =
    if name = "graph" then some (.enum (names id))
    else if name = "requires" then f.requires.map fun s => .string s.text
    else if name = "provides" then f.provides.map fun s => .string s.text
    else if name = "type" ∧ f.type ≠ field.type then some (.string f.type.text)
    else if name = "external" ∧ f.isExternal = true then some (.boolean true)
    else if name = "override" then f.override.map fun o => .string o.source
    else if name = "overrideLabel" then (f.override.bind Override.label).map .string
    else none := by
  have htype : (if f.type = field.type then [] else [("type", Value.string f.type.text)]).lookup
      name = if name = "type" ∧ f.type ≠ field.type then some (.string f.type.text) else none := by
    split
    · rename_i heq
      simp [heq]
    · rename_i hne
      by_cases hname : name = "type"
      · simp [hname, hne]
      · have hbeq : (name == "type") = false := by simpa using hname
        simp [hname, List.lookup_cons, hbeq]
  unfold Directive.argument? joinField graphArgument
  simp only [List.lookup_cons, List.lookup_append, lookup_optionalArgument, lookup_flagArgument,
    htype]
  by_cases hgraph : name = "graph"
  · simp [hgraph]
  by_cases hrequires : name = "requires"
  · simp [hrequires]
  by_cases hprovides : name = "provides"
  · simp [hprovides]
  by_cases htype : name = "type"
  · simp [htype]
  by_cases hexternal : name = "external"
  · simp [hexternal]
  by_cases hoverride : name = "override"
  · simp [hoverride]
  · have hbeq : (name == "graph") = false := by simpa using hgraph
    simp [hbeq, hgraph, hrequires, hprovides, htype, hexternal, hoverride]

/-- What is written for a field in a subgraph is read as what the subgraph says. -/
theorem entryIn_joinField (hplain : f.type.HasPlainName) :
    entryIn field.type.text (id, joinField names field id f) = Joined.Entry.of (id, f) := by
  unfold entryIn Joined.Entry.of Directive.text? Directive.flag
  simp only [argument?_joinField]
  congr 1
  · refine Eq.trans ?_ (TypeRef.ofText_text hplain)
    by_cases htype : f.type = field.type
    · simp [htype]
    · simp [htype]
  · cases f.isExternal <;> simp
  · cases f.override with
    | none => simp
    | some o =>
      obtain ⟨source, label⟩ := o
      cases label <;> simp
  · cases f.requires <;> simp
  · cases f.provides <;> simp

end

/-- A subgraph says no more about a field than what goes without saying. -/
structure IsPlain (field : MergedField) (f : FieldInGraph) : Prop where
  type : f.type = field.type
  isExternal : f.isExternal = false
  override : f.override = none
  requires : f.requires = none
  provides : f.provides = none

theorem isRemarkable_eq_false_iff {field : MergedField} {f : FieldInGraph} :
    isRemarkable field f = false ↔ IsPlain field f := by
  simp only [isRemarkable, Bool.or_eq_false_iff, Option.isSome_eq_false_iff,
    Option.isNone_iff_eq_none, decide_eq_false_iff_not, not_not]
  constructor
  · rintro ⟨⟨⟨⟨hexternal, hoverride⟩, hrequires⟩, hprovides⟩, htype⟩
    exact ⟨htype, hexternal, hoverride, hrequires, hprovides⟩
  · rintro ⟨htype, hexternal, hoverride, hrequires, hprovides⟩
    exact ⟨⟨⟨⟨hexternal, hoverride⟩, hrequires⟩, hprovides⟩, htype⟩

/-- What goes without saying. -/
theorem IsPlain.entry_eq {field : MergedField} {e : SubgraphId × FieldInGraph}
    (h : IsPlain field e.2) (hplain : e.2.type.HasPlainName) :
    Joined.Entry.of e = { subgraph := e.1, type := .ofText field.type.text } := by
  rw [← h.type, TypeRef.ofText_text hplain, Joined.Entry.of, h.isExternal, h.override, h.requires,
    h.provides]
  rfl

section

variable {field : MergedField} {count : Nat}

/-- Without join directives, all subgraphs of the type say of a field what goes without saying. -/
theorem joinFields_eq_nil_iff :
    joinFields names field count = [] ↔ field.byGraph ≠ [] ∧ field.byGraph.length = count ∧
      ∀ e ∈ field.byGraph, IsPlain field e.2 := by
  unfold joinFields
  split
  · rename_i hempty
    simp [List.isEmpty_iff.mp hempty]
  · rename_i hempty
    have hne : field.byGraph ≠ [] := fun heq => hempty (List.isEmpty_iff.mpr heq)
    have hplain : (field.byGraph.any fun e => isRemarkable field e.2) = false ↔
        ∀ e ∈ field.byGraph, IsPlain field e.2 := by
      simp only [List.any_eq_false, Bool.not_eq_true, isRemarkable_eq_false_iff]
    split
    · rename_i hneeded
      constructor
      · intro hnil
        exact absurd (List.map_eq_nil_iff.mp hnil) hne
      · rintro ⟨-, hlength, hall⟩
        rw [hplain.mpr hall] at hneeded
        simp [hlength] at hneeded
    · rename_i hneeded
      rw [Bool.not_eq_true, Bool.or_eq_false_iff, decide_eq_false_iff_not, not_not, hplain]
        at hneeded
      exact ⟨fun _ => ⟨hne, hneeded⟩, fun _ => rfl⟩

/-- Only a field that no subgraph defines has a directive about no subgraph. -/
theorem bare_mem_joinFields_iff :
    { name := "join__field" } ∈ joinFields names field count ↔ field.byGraph = [] := by
  unfold joinFields
  split
  · rename_i hempty
    simp [List.isEmpty_iff.mp hempty]
  · rename_i hempty
    have hne : field.byGraph ≠ [] := fun heq => hempty (List.isEmpty_iff.mpr heq)
    refine iff_of_false (fun hmem => ?_) hne
    split at hmem
    · obtain ⟨e, -, heq⟩ := List.mem_map.mp hmem
      exact absurd (congrArg Directive.arguments heq) (List.cons_ne_nil _ _)
    · cases hmem

theorem name_of_mem_joinFields {d : Directive} (h : d ∈ joinFields names field count) :
    d.name = "join__field" := by
  unfold joinFields at h
  split at h
  · rw [List.mem_singleton.mp h]
  · split at h
    · obtain ⟨e, -, rfl⟩ := List.mem_map.mp h
      rfl
    · cases h

/-- The other directives of a field are no join directives. -/
theorem mem_directives_emitField {d : Directive} (hname : d.name = "join__field") :
    d ∈ (emitField names count field).directives ↔ d ∈ joinFields names field count := by
  simp only [emitField, List.mem_append]
  refine ⟨?_, fun h => .inl (.inl h)⟩
  rintro ((h | h) | h)
  · exact h
  · have hmem := name_mem_of_mem_metadataDirectives h
    rw [hname] at hmem
    exact absurd hmem (by decide)
  · obtain ⟨l, -, rfl⟩ := List.mem_map.mp h
    exact absurd hname (by decide : "listSize" ≠ "join__field")

theorem joinsIn_directives_emitField :
    joinsIn graphs "join__field" (emitField names count field).directives =
      joinsIn graphs "join__field" (joinFields names field count) := by
  have hsizes : joinsIn graphs "join__field"
      (field.listSize.merged.toList.map listSizeDirective) = [] := by
    refine joinsIn_eq_nil fun d hd => ?_
    obtain ⟨l, -, rfl⟩ := List.mem_map.mp hd
    exact (by decide : "listSize" ≠ "join__field")
  rw [emitField, joinsIn_append, joinsIn_append, hsizes,
    joinsIn_metadataDirectives _ (by decide : "join__field" ∉ metadataNames), List.append_nil,
    List.append_nil]

/-- The directives of a field are read as its entries. -/
theorem map_entryIn_joinFields (hnames : ∀ e ∈ field.byGraph, Names graphs names e.1)
    (hplain : ∀ e ∈ field.byGraph, e.2.type.HasPlainName)
    (hjoined : joinFields names field count ≠ []) :
    (joinsIn graphs "join__field" (joinFields names field count)).map (entryIn field.type.text) =
      field.byGraph.map Joined.Entry.of := by
  unfold joinFields at hjoined ⊢
  split
  · rename_i hempty
    rw [List.isEmpty_iff.mp hempty]
    rfl
  · rename_i hempty
    rw [if_neg hempty] at hjoined
    split
    · have hjoins : joinsIn graphs "join__field"
          (field.byGraph.map fun e => joinField names field e.1 e.2) =
          field.byGraph.map fun e => (e.1, joinField names field e.1 e.2) :=
        joinsIn_map (fun _ _ => rfl) fun e he => graph?_eq_some (hnames e he)
      rw [hjoins, List.map_map]
      exact List.map_congr_left fun e he => entryIn_joinField (hplain e he)
    · rename_i hneeded
      rw [if_neg hneeded] at hjoined
      exact absurd rfl hjoined

/-- **A field is read as it was merged**, if it is defined by subgraphs of its type only. -/
theorem fieldIn_emitField {ids : List SubgraphId}
    (hnames : ∀ e ∈ field.byGraph, Names graphs names e.1)
    (htypes : ∀ e ∈ field.byGraph, e.2.type.HasPlainName) (hids : field.byGraph.ids.Sublist ids) :
    fieldIn graphs ids (emitField names ids.length field) = Joined.Field.of field := by
  have hany : ((emitField names ids.length field).directives.any fun d => d.name == "join__field") =
      true ↔ joinFields names field ids.length ≠ [] := by
    rw [List.any_eq_true, ne_eq, List.eq_nil_iff_forall_not_mem, not_forall_not]
    refine exists_congr fun d => ?_
    rw [beq_iff_eq]
    constructor
    · rintro ⟨hd, hname⟩
      exact (mem_directives_emitField hname).mp hd
    · intro hd
      have hname := name_of_mem_joinFields hd
      exact ⟨(mem_directives_emitField hname).mpr hd, hname⟩
  unfold fieldIn Joined.Field.of
  congr 1
  by_cases hjoined : joinFields names field ids.length = []
  · rw [if_neg fun h => hany.mp h hjoined]
    obtain ⟨-, hlength, hplain⟩ := joinFields_eq_nil_iff.mp hjoined
    have hall : ids = field.byGraph.ids :=
      (hids.eq_of_length (by rw [ByGraph.ids, List.length_map, hlength])).symm
    rw [hall, ByGraph.ids, List.map_map]
    exact List.map_congr_left fun e he => ((hplain e he).entry_eq (htypes e he)).symm
  · rw [if_pos (hany.mpr hjoined), joinsIn_directives_emitField]
    exact map_entryIn_joinFields hnames htypes hjoined

end

/-! ## Members and values -/

/-- A value of an enum type is read as it was merged. -/
theorem valueIn_emitEnumValue {t : MergedType} {v : MergedEnumValue}
    (hnames : ∀ id ∈ v.subgraphs, Names graphs names id) :
    valueIn graphs (emitEnumValue names t v) = { name := v.name, subgraphs := v.subgraphs } := by
  have hhidden : joinsIn graphs "join__enumValue"
      (directiveIf (t.isHiddenValue v && !v.metadata.isInaccessible) .inaccessible) = [] := by
    refine joinsIn_eq_nil fun d hd => ?_
    unfold directiveIf at hd
    split at hd
    · rw [List.mem_singleton.mp hd]
      exact (by decide : "inaccessible" ≠ "join__enumValue")
    · cases hd
  have hjoins : joinsIn graphs "join__enumValue" (v.subgraphs.map fun id =>
      { name := "join__enumValue", arguments := [graphArgument names id] }) =
      v.subgraphs.map fun id =>
        (id, { name := "join__enumValue", arguments := [graphArgument names id] }) :=
    joinsIn_map (fun _ _ => rfl) fun id hid => graph?_eq_some (hnames id hid)
  unfold valueIn emitEnumValue
  dsimp only
  rw [joinsIn_append, joinsIn_append, hjoins, hhidden,
    joinsIn_metadataDirectives _ (by decide : "join__enumValue" ∉ metadataNames), List.append_nil,
    List.append_nil, List.map_map]
  congr 1
  exact List.map_id _

/-- The directives of a member. -/
theorem joinsIn_joinMember {m : MergedMember} (hnames : ∀ id ∈ m.subgraphs, Names graphs names id) :
    joinsIn graphs "join__unionMember" (joinMember names m) = m.subgraphs.map fun id =>
      (id, { name := "join__unionMember",
             arguments := [graphArgument names id, ("member", .string m.name)] }) :=
  joinsIn_map (fun _ _ => rfl) fun id hid => graph?_eq_some (hnames id hid)

/-- Of the directives of all members, those that name one member are its own. -/
theorem filter_joinsIn_members {members : List MergedMember}
    (hnames : ∀ m ∈ members, ∀ id ∈ m.subgraphs, Names graphs names id) (name : String) :
    ((joinsIn graphs "join__unionMember" (members.flatMap (joinMember names))).filter fun join =>
        join.2.text? "member" == some name).map Prod.fst =
      (members.filter fun m => m.name == name).flatMap MergedMember.subgraphs := by
  induction members with
  | nil => rfl
  | cons first others ih =>
    obtain ⟨hfirst, hothers⟩ := List.forall_mem_cons.mp hnames
    rw [List.flatMap_cons, joinsIn_append, List.filter_append, List.map_append, ih hothers,
      joinsIn_joinMember hfirst, List.filter_map, List.map_map]
    have hmember : ∀ id, Directive.text?
        { name := "join__unionMember",
          arguments := [graphArgument names id, ("member", .string first.name)] } "member" =
        some first.name := fun _ => rfl
    by_cases hname : first.name = name
    · rw [List.filter_cons_of_pos (by simpa using hname), List.flatMap_cons,
        List.filter_eq_self.mpr fun id _ => by simp [hmember id, ← hname]]
      congr 1
      exact List.map_id _
    · rw [List.filter_cons_of_neg (by simpa using hname),
        List.filter_eq_nil_iff.mpr fun id _ => by simp [hmember, hname]]
      rfl

/-- A member of a union is read as it was merged, if no other member has its name. -/
theorem memberIn_eq {members : List MergedMember} {ids : List SubgraphId} {metadata : Metadata}
    (hnames : ∀ m ∈ members, ∀ id ∈ m.subgraphs, Names graphs names id)
    (hunique : (members.map MergedMember.name).Nodup) {m : MergedMember} (hm : m ∈ members) :
    memberIn graphs (ids.map (joinPlainType names) ++ members.flatMap (joinMember names) ++
      metadataDirectives metadata) m.name = { name := m.name, subgraphs := m.subgraphs } := by
  have htypes : joinsIn graphs "join__unionMember" (ids.map (joinPlainType names)) = [] := by
    refine joinsIn_eq_nil fun d hd => ?_
    obtain ⟨id, -, rfl⟩ := List.mem_map.mp hd
    exact (by decide : "join__type" ≠ "join__unionMember")
  have hsame : (members.filter fun other => other.name == m.name) = [m] :=
    filter_key_eq_singleton hunique hm
  unfold memberIn
  rw [joinsIn_append, joinsIn_append, htypes, List.nil_append,
    joinsIn_metadataDirectives _ (by decide : "join__unionMember" ∉ metadataNames), List.append_nil,
    filter_joinsIn_members hnames, hsame, List.flatMap_singleton]

end Federation.Supergraph
