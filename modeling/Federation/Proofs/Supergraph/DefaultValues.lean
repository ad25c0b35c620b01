import Federation.Proofs.Supergraph.EnumTypes
import Federation.Proofs.Supergraph.References

/-!
# Default values that clients see

Of the default values that subgraphs give to an argument or input field, the first one is kept, and
the API schema shows it as it stands. Which values of an enum type are shown is decided elsewhere: a
value disappears if some subgraph hides it, and from a type that is used only as input if some
subgraph does not define it. Nothing compares the two, so a default value may mention a value that
clients do not know.
-/

namespace Federation

/-! ## Values of enum types in constant values -/

namespace Value

mutual

/-- The values of enum types that a value consists of, as items of lists at most. -/
def enumNames : Value → List String
  | .enum name => [name]
  | .list items => enumNamesOfItems items
  | .null | .int _ | .float _ | .string _ | .boolean _ | .object _ => []

/-- The values of enum types that the items of a list consist of. -/
def enumNamesOfItems : List Value → List String
  | [] => []
  | first :: others => enumNames first ++ enumNamesOfItems others

end

end Value

/-! ## Merged default values -/

namespace MergedInput

/-- The first default value of some entries is kept. -/
theorem defaultValue_ofEntries (name : String) (type : TypeRef)
    (entries : List (SubgraphId × InputInGraph)) :
    (ofEntries name type entries).defaultValue =
      entries.findSome? fun e => e.2.defaultValue := by
  induction entries using List.reverseRecOn with
  | nil => rfl
  | append_singleton entries e ih =>
    rw [ofEntries, List.foldl_concat, ← ofEntries, List.findSome?_append, ← ih]
    cases hdefault : e.2.defaultValue <;>
      simp [absorb, hdefault]

/-- An item of a table has the first default value of the changes of its name. -/
theorem defaultValue_of_mem_table {changes : List (SubgraphId × InputInGraph)} {m : MergedInput}
    (h : m ∈ typedTable.table changes) :
    m.defaultValue =
      (changes.filter fun c => c.2.name == m.name).findSome? fun c => c.2.defaultValue := by
  obtain ⟨first, rest, hchanges, hmade⟩ :=
    exists_of_mem_upsertAll typedTable.key_fresh typedTable.key_step h
  have hentries : m = ofEntries first.2.name first.2.type (first :: rest) := hmade
  have hfilter : (changes.filter fun c => c.2.name == m.name) = first :: rest := hchanges
  rw [hfilter, hentries, defaultValue_ofEntries]

end MergedInput

namespace SubgraphSet

/-- The arguments of a field, as subgraphs add them. -/
def argumentsOf (set : SubgraphSet) (typeName fieldName : String) :
    List (SubgraphId × InputInGraph) :=
  (set.fieldEntriesOf typeName fieldName).flatMap MergedField.argumentsIn

/-- The input fields of types of a name, as subgraphs add them. -/
def inputFieldsOf (set : SubgraphSet) (typeName : String) : List (SubgraphId × InputInGraph) :=
  (set.entriesOf typeName).flatMap TypeEntry.inputFields

/-- The value is the first one that a subgraph gives by default for an input field of a type, or for
an argument of a field. -/
inductive GivesDefault (set : SubgraphSet) (typeName inputName : String) (v : Value) : Prop
  | argument (fieldName : String)
      (h : ((set.argumentsOf typeName fieldName).filter fun c => c.2.name == inputName).findSome?
        (fun c => c.2.defaultValue) = some v) : GivesDefault set typeName inputName v
  | inputField
      (h : ((set.inputFieldsOf typeName).filter fun c => c.2.name == inputName).findSome?
        (fun c => c.2.defaultValue) = some v) : GivesDefault set typeName inputName v

/-- A value of an enum type that clients may know: some subgraph defines it and none hides it, and
all subgraphs define it if they only use the type as input. -/
structure OffersValue (set : SubgraphSet) (typeName value : String) : Prop where
  defined : ∃ s ∈ set.subgraphs, s.DefinesValue typeName value
  accessible : ∀ s ∈ set.subgraphs, ¬ s.HidesValue typeName value
  common : set.UsesAsInput typeName → ¬ set.UsesAsOutput typeName →
    set.DefinesEverywhere typeName value

end SubgraphSet

namespace MergedSchema

variable {set : SubgraphSet} {m : MergedSchema} (h : ofSubgraphs set = .ok m) {t : MergedType}
  (ht : t ∈ m.types)

include h ht

/-- The default value of an argument is the first one that a subgraph gives. -/
theorem givesDefault_of_mem_arguments {field : MergedField} (hfield : field ∈ t.fields)
    (hdefined : field.byGraph ≠ []) {argument : MergedInput} (hargument : argument ∈ field.arguments)
    {v : Value} (hv : argument.defaultValue = some v) :
    set.GivesDefault t.name argument.name v := by
  have hfound := (hasUniqueNames_of_ofSubgraphs h).type?_eq_some ht
  have hmem := mem_table_of_mem_fields h hfound hfield hdefined
  obtain ⟨first, rest, hentries, hmade⟩ := MergedField.exists_of_mem_table hmem
  rw [hmade, MergedField.arguments_ofEntries, ← hentries] at hargument
  rw [MergedInput.defaultValue_of_mem_table hargument] at hv
  exact .argument field.name hv

/-- The default value of an input field is the first one that a subgraph gives. -/
theorem givesDefault_of_mem_inputFields {field : MergedInput} (hfield : field ∈ t.inputFields)
    {v : Value} (hv : field.defaultValue = some v) : set.GivesDefault t.name field.name v := by
  have hfound := (hasUniqueNames_of_ofSubgraphs h).type?_eq_some ht
  obtain ⟨-, hfinishes⟩ := exists_entries_of_type? h hfound
  rw [hfinishes.inputFields_eq, MergedType.inputFields_ofEntries] at hfield
  split at hfield
  · rw [MergedInput.defaultValue_of_mem_table hfield] at hv
    exact .inputField hv
  · cases hfield

/-- The default value of an argument of any field is the first one that a subgraph gives, if not in
the type then in an interface from which the field was copied. -/
theorem exists_givesDefault_of_mem_arguments (hset : set.HasProperNames) {field : MergedField}
    (hfield : field ∈ t.fields) {argument : MergedInput} (hargument : argument ∈ field.arguments)
    {v : Value} (hv : argument.defaultValue = some v) :
    ∃ owner, (owner = t.name ∨ owner ∈ t.interfaces) ∧
      set.GivesDefault owner argument.name v := by
  by_cases hundefined : field.byGraph = []
  · have hfound := (hasUniqueNames_of_ofSubgraphs h).type?_eq_some ht
    have hmark := isFromInterfaceObject_of_byGraph_eq_nil hset h hfound hfield hundefined
    obtain ⟨-, i, hi, -, himplements, original, ⟨hmem, id, hid, -⟩, rfl⟩ :=
      (copiesTo_of_ofSubgraphs h ht).copied field hfield hmark
    have hdefined : original.byGraph ≠ [] := by
      obtain ⟨entry, hentry, -⟩ := List.mem_map.mp hid
      exact List.ne_nil_of_mem hentry
    exact ⟨i.name, .inr himplements,
      givesDefault_of_mem_arguments h hi hmem hdefined hargument hv⟩
  · exact ⟨t.name, .inl rfl, givesDefault_of_mem_arguments h ht hfield hundefined hargument hv⟩

end MergedSchema

/-! ## Default values in the API schema -/

namespace Supergraph

/-- The input fields of a type, and the arguments of its fields. -/
def Body.inputs : Body → List Input
  | .object _ fields | .interface _ fields => fields.flatMap Field.arguments
  | .inputObject fields => fields
  | .union _ | .enum _ | .scalar => []

/-- The inputs that stay are inputs of the type. -/
theorem Body.inputs_restrict_subset (c : Choice) (hidden : List String) (body : Body) :
    (body.restrict c hidden).inputs ⊆ body.inputs := by
  intro i hi
  cases body with
  | object interfaces fields | interface interfaces fields =>
    obtain ⟨f, hf, hi⟩ := List.mem_flatMap.mp hi
    obtain ⟨g, hg, -, rfl⟩ := mem_stayingFields.mp hf
    exact List.mem_flatMap.mpr ⟨g, hg, (mem_stayingInputs.mp hi).1⟩
  | union members | enum values | scalar => exact hi
  | inputObject fields => exact (mem_stayingInputs.mp hi).1

/-- A type refers to the types of its inputs. -/
theorem Body.mem_references_of_mem_inputs {body : Body} {i : Input} (hi : i ∈ body.inputs) :
    TypeRef.nameOfText i.type ∈ body.references := by
  cases body with
  | object interfaces fields | interface interfaces fields =>
    obtain ⟨f, hf, hi⟩ := List.mem_flatMap.mp hi
    refine List.mem_append_right _ (List.mem_flatMap.mpr ⟨f, hf, ?_⟩)
    exact List.mem_cons_of_mem _ (List.mem_map.mpr ⟨i, hi, rfl⟩)
  | union members | enum values | scalar => cases hi
  | inputObject fields => exact List.mem_map.mpr ⟨i, hi, rfl⟩

/-- The inputs of an emitted type are input fields of the merged type and arguments of its fields. -/
theorem exists_of_mem_inputs_emitType {names : GraphNames} {t : MergedType} {i : Input}
    (hi : i ∈ (emitType names t).body.inputs) :
    ∃ merged : MergedInput, i = emitInput merged ∧
      (merged ∈ t.inputFields ∨ ∃ field ∈ t.fields, merged ∈ field.arguments) := by
  unfold emitType emitBody at hi
  unfold MergedType.inputFields MergedType.fields
  cases hbody : t.body with
  | object interfaces fields | interface interfaces fields =>
    rw [hbody] at hi
    obtain ⟨f, hf, hi⟩ := List.mem_flatMap.mp hi
    obtain ⟨field, hfield, rfl⟩ := List.mem_map.mp hf
    obtain ⟨merged, hmerged, rfl⟩ := List.mem_map.mp hi
    exact ⟨merged, rfl, .inr ⟨field, hfield, (List.mem_filter.mp hmerged).1⟩⟩
  | inputObject fields =>
    rw [hbody] at hi
    obtain ⟨merged, hmerged, rfl⟩ := List.mem_map.mp hi
    exact ⟨merged, rfl, .inl (List.mem_filter.mp hmerged).1⟩
  | union | enum | scalar =>
    rw [hbody] at hi
    cases hi

/-- Every default value in the supergraph is the text of one that a subgraph gives. -/
theorem exists_givesDefault_of_mem_inputs {set : SubgraphSet} {m : MergedSchema}
    (hset : set.HasProperNames) (h : MergedSchema.ofSubgraphs set = .ok m) {d : TypeDefinition}
    (hd : d ∈ (emit set m).types) {i : Input} (hi : i ∈ d.body.inputs) {text : String}
    (htext : i.defaultValue = some text) :
    ∃ owner, (owner = d.name ∨ owner ∈ d.body.interfaces) ∧
      ∃ v, set.GivesDefault owner i.name v ∧ v.text = text := by
  obtain ⟨t, ht, rfl⟩ := List.mem_map.mp hd
  obtain ⟨merged, rfl, horigin⟩ := exists_of_mem_inputs_emitType hi
  obtain ⟨v, hv, rfl⟩ := Option.map_eq_some_iff.mp htext
  rw [interfaces_emitType]
  rcases horigin with hfield | ⟨field, hfield, hargument⟩
  · exact ⟨t.name, .inl rfl, v, MergedSchema.givesDefault_of_mem_inputFields h ht hfield hv, rfl⟩
  · obtain ⟨owner, howner, hgives⟩ :=
      MergedSchema.exists_givesDefault_of_mem_arguments h ht hset hfield hargument hv
    exact ⟨owner, howner, v, hgives, rfl⟩

/-- No two types of a supergraph have the same name. -/
theorem nodup_names_emit {set : SubgraphSet} {m : MergedSchema}
    (h : MergedSchema.ofSubgraphs set = .ok m) :
    ((emit set m).types.map TypeDefinition.name).Nodup := by
  rw [map_name_emit]
  exact MergedSchema.hasUniqueNames_of_ofSubgraphs h

/-- An enum type to which something visible refers is visible, and shows the values that clients may
know. -/
theorem exists_visible_enum {set : SubgraphSet} {m : MergedSchema} (hset : set.Ingested)
    (h : MergedSchema.ofSubgraphs set = .ok m) {d e : TypeDefinition}
    (hd : d ∈ (emit set m).visible.types) (he : e ∈ (emit set m).types)
    (hrefers : e.name ∈ d.body.references) {values : List EnumValue} (hbody : e.body = .enum values) :
    ∃ e' ∈ (emit set m).visible.types, e'.name = e.name ∧ ∃ shown, e'.body = .enum shown ∧
      ∀ name, name ∈ shown.map EnumValue.name ↔ set.OffersValue e.name name := by
  have hdefined : e.name ∈ (emit set m).types.map TypeDefinition.name := List.mem_map_of_mem he
  obtain ⟨e', he', hname⟩ :=
    List.mem_map.mp (Model.mem_names_visible_of_mem_references hd hrefers hdefined)
  -- no other type has the name, so what is visible is a part of the enum type
  obtain ⟨original, horiginal, -, rfl⟩ := Model.mem_types_visible.mp he'
  obtain rfl : original = e :=
    List.inj_on_of_nodup_map (nodup_names_emit h) horiginal he hname
  have hshape : (original.restrict .accessible (emit set m).hiddenTypes).body =
      .enum (values.filter fun v => Choice.accessible.part v.directives) := by
    rw [TypeDefinition.restrict, hbody]
    rfl
  obtain ⟨t, ht, htname, merged, hmerged, hshown⟩ := exists_of_mem_visible_enum he' hshape
  refine ⟨_, he', rfl, _, hshape, fun name => (hshown name).trans ?_⟩
  rw [MergedSchema.exists_shown_value_iff hset h ht hmerged name, htname]
  constructor
  · rintro ⟨hdefines, haccessible, hcommon⟩
    exact ⟨hdefines, haccessible, hcommon⟩
  · rintro ⟨hdefines, haccessible, hcommon⟩
    exact ⟨hdefines, haccessible, hcommon⟩

/-- **Default values are shown as they are given.** The API schema is the text of the visible types.
The default value of an argument or input field in it is the first one that a subgraph gives. If the
type of the input is an enum type, the API schema shows this type, and it shows the values that the
default value mentions exactly if clients may know each of them: some subgraph defines the value,
none hides it, and all subgraphs define it if they only use the type as input. No rule sees to it. -/
theorem default_values_are_visible_iff_offered {set : SubgraphSet} (hset : set.Ingested)
    {options : CompositionOptions} {composed : ComposedSupergraph}
    (h : (set.compose options).supergraph = some composed) :
    composed.publicText = fullText (composed.model.visible.types.map TypeDefinition.bare) ∧
      ∀ d ∈ composed.model.visible.types, ∀ i ∈ d.body.inputs, ∀ text,
        i.defaultValue = some text →
          (∃ owner v, set.GivesDefault owner i.name v ∧ v.text = text) ∧
            ∀ e ∈ composed.model.types, e.name = TypeRef.nameOfText i.type →
              ∀ values, e.body = .enum values →
                ∃ e' ∈ composed.model.visible.types, e'.name = e.name ∧
                  ∃ shown, e'.body = .enum shown ∧ ∀ v : Federation.Value, v.text = text →
                    ((∀ name ∈ v.enumNames, name ∈ shown.map EnumValue.name) ↔
                      ∀ name ∈ v.enumNames, set.OffersValue e.name name) := by
  obtain ⟨m, hm, -, rfl⟩ := SubgraphSet.exists_merged_of_supergraph h
  refine ⟨Model.publicText_eq _, fun d hd i hi text htext => ⟨?_, ?_⟩⟩
  · -- an input of the visible part is an input of the type, with the same default value
    obtain ⟨whole, hwhole, -, rfl⟩ := Model.mem_types_visible.mp hd
    have hinput := Body.inputs_restrict_subset _ _ _ hi
    obtain ⟨owner, -, v, hgives, hv⟩ :=
      exists_givesDefault_of_mem_inputs hset.hasProperNames hm hwhole hinput htext
    exact ⟨owner, v, hgives, hv⟩
  · intro e he hname values hbody
    have hrefers : e.name ∈ d.body.references := by
      rw [hname]
      exact Body.mem_references_of_mem_inputs hi
    obtain ⟨e', he', hsame, shown, hshape, hshown⟩ :=
      exists_visible_enum hset hm hd he hrefers hbody
    exact ⟨e', he', hsame, shown, hshape, fun v _ => forall₂_congr fun name _ => hshown name⟩

end Supergraph

/-- A schema with an argument the default value of which is hidden from clients. -/
def SchemaSource.hiddenDefault : SchemaSource :=
  ⟨"type Query\x7bx(e:E=A):Int\x7denum E\x7bA@inaccessible B\x7d", "a", none⟩

theorem SchemaSource.composes_hiddenDefault :
    ((SubgraphSet.ofSources [hiddenDefault]).toOption.any fun set =>
      (MergedSchema.ofSubgraphs set).toOption.any fun m =>
        !(set.compose { runSatisfiability := false }).diagnostics.anyFatal &&
          (((((Supergraph.emit set m).visible.types.any fun d => d.body.inputs.any fun i =>
              i.name == "e" && (TypeRef.nameOfText i.type == "E" &&
                i.defaultValue == some "A")) &&
            ((Supergraph.emit set m).visible.types.any fun d => d.name == "E" &&
              d.body.valueNames == ["B"])) &&
            ((Supergraph.emit set m).types.any fun d => d.name == "E" &&
              d.body.valueNames == ["A", "B"])) &&
          (((((set.argumentsOf "Query" "x").filter fun c => c.2.name == "e").findSome? fun c =>
              c.2.defaultValue).any fun v => v.text == "A" && v.enumNames == ["A"]) &&
            set.subgraphs.any fun s => (s.definition? "E").any fun d => d.enumValues.any fun v =>
              v.name == "A" && v.attributes.isInaccessible))) = true := by decide +kernel

/-- The schema composes, and the API schema shows the default value but not the value. -/
theorem SubgraphSet.exists_composed_hiddenDefault :
    ∃ set composed, SubgraphSet.ofSources [.hiddenDefault] = .ok set ∧ set.Ingested ∧
      (set.compose { runSatisfiability := false }).supergraph = some composed ∧
      (∃ d ∈ composed.model.visible.types, ∃ i ∈ d.body.inputs, i.name = "e" ∧
        TypeRef.nameOfText i.type = "E" ∧ i.defaultValue = some "A") ∧
      (∃ e ∈ composed.model.visible.types, e.name = "E" ∧ ∃ shown, e.body = .enum shown ∧
        shown.map Supergraph.EnumValue.name = ["B"]) ∧
      (∃ e ∈ composed.model.types, e.name = "E" ∧ ∃ values, e.body = .enum values) ∧
      (∃ v, set.GivesDefault "Query" "e" v ∧ v.text = "A" ∧ v.enumNames = ["A"]) ∧
      ∃ s ∈ set.subgraphs, s.HidesValue "E" "A" := by
  obtain ⟨set, hset, hmerges⟩ := exists_ok_of_any SchemaSource.composes_hiddenDefault
  obtain ⟨m, hm, hcomposes⟩ := exists_ok_of_any hmerges
  rw [Bool.and_eq_true, Bool.not_eq_true'] at hcomposes
  obtain ⟨hvalid, hcomposes⟩ := hcomposes
  simp only [List.any_eq_true, Option.any_eq_true, Bool.and_eq_true, beq_iff_eq] at hcomposes
  obtain ⟨⟨⟨hinput, ⟨e, he, hname, hshown⟩⟩, ⟨whole, hwhole, hwholename, hvalues⟩⟩,
    ⟨v, hgives, hv⟩, s, hs, d, hd, hhides⟩ := hcomposes
  obtain ⟨shown, hbody, hnames⟩ := Supergraph.Body.exists_of_valueNames hshown
  obtain ⟨values, hwholebody, -⟩ := Supergraph.Body.exists_of_valueNames hvalues
  exact ⟨set, _, hset, ingested_ofSources hset, supergraph_compose hm hvalid, hinput,
    ⟨e, he, hname, shown, hbody, hnames⟩, ⟨whole, hwhole, hwholename, values, hwholebody⟩,
    ⟨v, .argument "x" hgives, hv⟩, s, hs, d, hd, hhides⟩

namespace Supergraph

/-- The value that is given by default is hidden, so the API schema does not show it. -/
theorem default_values_are_visible_iff_offered_of_hiddenDefault :
    ∃ set composed, SubgraphSet.ofSources [.hiddenDefault] = .ok set ∧ set.Ingested ∧
      (set.compose { runSatisfiability := false }).supergraph = some composed ∧
      ∃ e ∈ composed.model.visible.types, e.name = "E" ∧ ∃ shown, e.body = .enum shown ∧
        "A" ∉ shown.map EnumValue.name := by
  obtain ⟨set, composed, hset, hingested, hcomposed, ⟨d, hd, i, hi, -, htype, hdefault⟩, -,
    ⟨e, he, hname, values, hbody⟩, -, s, hs, hhides⟩ := SubgraphSet.exists_composed_hiddenDefault
  obtain ⟨-, henum⟩ :=
    (default_values_are_visible_iff_offered hingested hcomposed).2 d hd i hi "A" hdefault
  obtain ⟨e', he', hsame, shown, hshape, hvisible⟩ :=
    henum e he (hname.trans htype.symm) values hbody
  refine ⟨set, composed, hset, hingested, hcomposed, e', he', hsame.trans hname, shown, hshape, ?_⟩
  intro hmem
  have hmentioned : ∀ name ∈ Value.enumNames (.enum "A"), name ∈ shown.map EnumValue.name := by
    simpa [Value.enumNames] using hmem
  have hoffered := (hvisible (.enum "A") (by decide +kernel)).mp hmentioned "A" (by decide)
  rw [hname] at hoffered
  exact hoffered.accessible s hs hhides

/-- The API schema may show a default value that mentions a value that it does not show. -/
theorem default_value_mentions_hidden_value :
    ¬ ∀ set : SubgraphSet, set.Ingested → ∀ options composed,
      (set.compose options).supergraph = some composed →
        ∀ d ∈ composed.model.visible.types, ∀ i ∈ d.body.inputs, ∀ owner v,
          set.GivesDefault owner i.name v → i.defaultValue = some v.text →
            ∀ e ∈ composed.model.visible.types, e.name = TypeRef.nameOfText i.type →
              ∀ shown, e.body = .enum shown →
                ∀ name ∈ v.enumNames, name ∈ shown.map EnumValue.name := by
  intro hvisible
  obtain ⟨set, composed, -, hingested, hcomposed, ⟨d, hd, i, hi, hinput, htype, hdefault⟩,
    ⟨e, he, hname, shown, hbody, hnames⟩, -, ⟨v, hgives, htext, hmentions⟩, -⟩ :=
    SubgraphSet.exists_composed_hiddenDefault
  have hshown := hvisible set hingested _ composed hcomposed d hd i hi "Query" v (hinput ▸ hgives)
    (htext ▸ hdefault) e he (hname.trans htype.symm) shown hbody "A" (by simp [hmentions])
  rw [hnames] at hshown
  exact absurd hshown (by decide)

end Supergraph

end Federation
