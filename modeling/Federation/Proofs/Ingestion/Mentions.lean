import Federation.Proofs.Ingestion.Subgraphs

/-!
# What a subgraph mentions

A subgraph holds texts: its names, descriptions and what its directives say. While a schema is taken
in, each of them is mentioned before it is held. A step may hold what has been mentioned by earlier
steps; so it is described by the texts it takes for known and by the texts that its answer holds.

The table of texts only ever gets new texts at its end. So a text that has been mentioned keeps its
position, and what is sorted by texts that have been mentioned is sorted the same way by any later
table.
-/

namespace Federation

/-! ## Growing tables -/

namespace NameTable

variable {α : Type} {t t' t'' : NameTable} {text : String}

/-- A later table starts with the texts of a table, and mentions no text twice if the table does
not. -/
structure GrowsTo (t t' : NameTable) : Prop where
  kept : t.toList <+: t'.toList
  distinct : t.toList.Nodup → t'.toList.Nodup

theorem GrowsTo.refl (t : NameTable) : t.GrowsTo t :=
  ⟨List.prefix_rfl, id⟩

theorem GrowsTo.trans (h : t.GrowsTo t') (h' : t'.GrowsTo t'') : t.GrowsTo t'' :=
  ⟨h.kept.trans h'.kept, fun hdistinct => h'.distinct (h.distinct hdistinct)⟩

theorem GrowsTo.subset (h : t.GrowsTo t') {texts : List String} (htexts : texts ⊆ t.toList) :
    texts ⊆ t'.toList :=
  fun _ htext => h.kept.subset (htexts htext)

/-! ## Mentioning -/

/-- Mentioning a text that is in the table changes nothing. -/
theorem mention_of_mem (h : text ∈ t.toList) : t.mention text = t :=
  if_pos (List.mem_reverse.mp h)

theorem growsTo_mention (t : NameTable) (text : String) : t.GrowsTo (t.mention text) := by
  by_cases hknown : text ∈ t.toList
  · rw [mention_of_mem hknown]
    exact .refl t
  · have htexts : (t.mention text).toList = t.toList ++ [text] := by
      rw [toList_mention, if_neg hknown]
    refine ⟨?_, fun hdistinct => ?_⟩
    · rw [htexts]
      exact List.prefix_append _ _
    · rw [htexts, ← List.concat_eq_append]
      exact hdistinct.concat hknown

theorem growsTo_mentionAll (t : NameTable) (texts : List String) :
    t.GrowsTo (t.mentionAll texts) := by
  induction texts generalizing t with
  | nil => exact .refl t
  | cons first others ih => exact (t.growsTo_mention first).trans (ih _)

theorem subset_toList_mentionAll (t : NameTable) (texts : List String) :
    texts ⊆ (t.mentionAll texts).toList := by
  induction texts generalizing t with
  | nil => exact List.nil_subset _
  | cons first others ih =>
    have hfirst := (growsTo_mentionAll (t.mention first) others).kept.subset
      (t.mem_toList_mention first)
    exact List.cons_subset.mpr ⟨hfirst, ih _⟩

/-! ## Positions -/

/-- A text that was mentioned is the one at its position. -/
theorem exists_rank? (h : text ∈ t.toList) :
    ∃ i, t.rank? text = some i ∧ t.toList[i]? = some text := by
  unfold rank?
  cases hrank : t.toList.idxOf? text with
  | none => exact absurd h (List.idxOf?_eq_none_iff.mp hrank)
  | some i =>
    obtain ⟨hi, htext, -⟩ := List.idxOf?_eq_some_iff.mp hrank
    exact ⟨i, rfl, List.getElem?_eq_some_iff.mpr ⟨hi, htext⟩⟩

/-- Whatever is found at a position is found there later. -/
theorem GrowsTo.getElem? (h : t.GrowsTo t') {i : Nat} (hi : t.toList[i]? = some text) :
    t'.toList[i]? = some text := by
  obtain ⟨hlt, rfl⟩ := List.getElem?_eq_some_iff.mp hi
  exact List.prefix_iff_getElem?.mp h.kept i hlt

/-- A text that was mentioned keeps its position. -/
theorem GrowsTo.rank?_eq (h : t.GrowsTo t') (htext : text ∈ t.toList) :
    t'.rank? text = t.rank? text := by
  obtain ⟨i, hrank, -⟩ := exists_rank? htext
  obtain ⟨added, hadded⟩ := h.kept
  -- the search ends before it comes to the added texts
  unfold rank? List.idxOf? at hrank ⊢
  rw [← hadded, List.findIdx?_append, hrank, Option.some_or]

/-! ## Sorting -/

/-- The items with the positions by which they are sorted. -/
def ranked (t : NameTable) (key : α → String) (items : List α) : List (Nat × α) :=
  items.map fun item => ((t.rank? (key item)).getD t.newestFirst.length, item)

/-- Items are sorted the same way by any later table if their keys have been mentioned. -/
theorem GrowsTo.sortBy_eq (h : t.GrowsTo t') {key : α → String} {items : List α}
    (hkeys : items.map key ⊆ t.toList) : t'.sortBy key items = t.sortBy key items := by
  have hranked : t'.ranked key items = t.ranked key items := by
    refine List.map_congr_left fun item hitem => ?_
    have hkey : key item ∈ t.toList := hkeys (List.mem_map_of_mem hitem)
    obtain ⟨i, hrank, -⟩ := exists_rank? hkey
    rw [h.rank?_eq hkey, hrank]
    rfl
  show ((t'.ranked key items).mergeSort fun a b => a.1 ≤ b.1).map Prod.snd = _
  rw [hranked]
  rfl

/-- What has been sorted stays as it is when it is sorted again. -/
theorem sortBy_sortBy (t : NameTable) (key : α → String) (items : List α) :
    t.sortBy key (t.sortBy key items) = t.sortBy key items := by
  let sorted := (t.ranked key items).mergeSort fun a b => decide (a.1 ≤ b.1)
  -- the sorted pairs are again the items with their positions
  have hranked : t.ranked key (sorted.map Prod.snd) = sorted := by
    have hpairs : ∀ pair ∈ sorted,
        ((t.rank? (key pair.2)).getD t.newestFirst.length, pair.2) = pair := by
      intro pair hpair
      obtain ⟨item, -, rfl⟩ := List.mem_map.mp ((List.mergeSort_perm _ _).subset hpair)
      rfl
    unfold ranked
    rw [List.map_map]
    exact (List.map_congr_left hpairs).trans (List.map_id sorted)
  have hsorted : sorted.Pairwise fun a b => decide (a.1 ≤ b.1) = true := by
    refine List.pairwise_mergeSort ?_ ?_ _
    · simp only [decide_eq_true_eq]
      exact fun _ _ _ => Nat.le_trans
    · simp only [Bool.or_eq_true, decide_eq_true_eq]
      exact fun _ _ => Nat.le_total _ _
  show ((t.ranked key (sorted.map Prod.snd)).mergeSort _).map Prod.snd = sorted.map Prod.snd
  rw [hranked, List.mergeSort_of_pairwise hsorted]

end NameTable

/-! ## Texts that are held -/

mutual

/-- The texts that a selection holds. -/
def Selection.mentions : Selection → List String
  | .field name arguments selections =>
    name :: Value.mentionsOfFields arguments ++ mentionsOfAll selections
  | .inlineFragment condition selections => condition :: mentionsOfAll selections

/-- The texts that selections hold. -/
def Selection.mentionsOfAll : List Selection → List String
  | [] => []
  | first :: others => mentions first ++ mentionsOfAll others

end

/-- The texts that attributes hold. -/
def Attributes.mentions (a : Attributes) : List String :=
  a.tags ++ a.policies.flatten ++ a.scopes.flatten ++
    a.listSize.toList.flatMap (fun l => l.slicingArguments ++ l.sizedFields) ++
    a.override.toList.flatMap (fun o => o.source :: o.label.toList) ++
    a.requires.toList.flatMap Selection.mentionsOfAll ++
    a.provides.toList.flatMap Selection.mentionsOfAll ++
    a.deprecation.toList.flatMap (fun d => d.reason.toList)

/-- The texts that an argument holds. -/
def Argument.mentions (a : Argument) : List String :=
  a.name :: a.type.name :: a.description.toList ++ a.attributes.mentions ++
    a.defaultValue.toList.flatMap Value.mentions

/-- The texts that a field holds. -/
def Field.mentions (f : Field) : List String :=
  f.name :: f.type.name :: f.description.toList ++ f.attributes.mentions ++
    f.arguments.flatMap Argument.mentions ++ f.defaultValue.toList.flatMap Value.mentions

/-- The texts that an enum value holds. -/
def EnumValue.mentions (v : EnumValue) : List String :=
  v.name :: v.description.toList ++ v.attributes.mentions

/-- The texts that a type holds. -/
def TypeDef.mentions (d : TypeDef) : List String :=
  d.name :: d.description.toList ++ d.attributes.mentions ++
    d.keys.flatMap (fun key => Selection.mentionsOfAll key.selections) ++
    d.fields.flatMap Field.mentions ++ d.enumValues.flatMap EnumValue.mentions ++
    d.members ++ d.interfaces

/-- The names of the root types that are known. -/
def RootTypes.mentions (r : RootTypes) : List String :=
  r.query.toList ++ r.mutation.toList ++ r.subscription.toList

/-- The texts that a subgraph holds, apart from what was found while it was taken in. -/
def Subgraph.mentions (s : Subgraph) : List String :=
  s.name :: s.enumValue :: s.url.toList ++ s.roots.mentions ++
    s.links.flatMap (fun link => [link.url, link.nameSpace]) ++
    s.imports.flatMap (fun entry => [entry.1, entry.2.specName]) ++
    s.definitions.flatMap TypeDef.mentions

@[grind =]
theorem Attributes.mem_mentions {a : Attributes} {text : String} : text ∈ a.mentions ↔
    text ∈ a.tags ∨ text ∈ a.policies.flatten ∨ text ∈ a.scopes.flatten ∨
      (∃ l, a.listSize = some l ∧ (text ∈ l.slicingArguments ∨ text ∈ l.sizedFields)) ∨
      (∃ o, a.override = some o ∧ (text = o.source ∨ o.label = some text)) ∨
      (∃ selections, a.requires = some selections ∧ text ∈ Selection.mentionsOfAll selections) ∨
      (∃ selections, a.provides = some selections ∧ text ∈ Selection.mentionsOfAll selections) ∨
      ∃ d, a.deprecation = some d ∧ d.reason = some text := by
  simp only [mentions, List.mem_append, List.mem_flatMap, Option.mem_toList, List.mem_cons, or_assoc]

@[grind =]
theorem TypeDef.mem_mentions {d : TypeDef} {text : String} : text ∈ d.mentions ↔
    text = d.name ∨ d.description = some text ∨ text ∈ d.attributes.mentions ∨
      (∃ key ∈ d.keys, text ∈ Selection.mentionsOfAll key.selections) ∨
      (∃ field ∈ d.fields, text ∈ field.mentions) ∨
      (∃ value ∈ d.enumValues, text ∈ value.mentions) ∨
      text ∈ d.members ∨ text ∈ d.interfaces := by
  simp only [mentions, List.mem_append, List.mem_flatMap, Option.mem_toList, List.mem_cons, or_assoc]

@[grind =]
theorem Subgraph.mem_mentions {s : Subgraph} {text : String} : text ∈ s.mentions ↔
    text = s.name ∨ text = s.enumValue ∨ s.url = some text ∨ text ∈ s.roots.mentions ∨
      (∃ link ∈ s.links, text = link.url ∨ text = link.nameSpace) ∨
      (∃ entry ∈ s.imports, text = entry.1 ∨ text = entry.2.specName) ∨
      ∃ d ∈ s.definitions, text ∈ d.mentions := by
  simp only [mentions, List.mem_append, List.mem_flatMap, Option.mem_toList, List.mem_cons,
    List.not_mem_nil, or_false, or_assoc]

theorem TypeDef.name_mem_mentions (d : TypeDef) : d.name ∈ d.mentions :=
  mem_mentions.mpr (.inl rfl)

theorem TypeDef.fieldNames_subset_mentions (d : TypeDef) :
    d.fields.map Field.name ⊆ d.mentions := by
  intro name hname
  obtain ⟨field, hfield, rfl⟩ := List.mem_map.mp hname
  grind [Field.mentions]

theorem Subgraph.mentions_subset_of_mem {s : Subgraph} {d : TypeDef} (hd : d ∈ s.definitions) :
    d.mentions ⊆ s.mentions :=
  fun _ htext => List.mem_append_right _ (List.mem_flatMap_of_mem hd htext)

theorem Subgraph.mentions_addDefinition (s : Subgraph) (d : TypeDef) :
    mentions { s with definitions := s.definitions ++ [d] } = s.mentions ++ d.mentions := by
  simp only [mentions, List.flatMap_append, List.flatMap_singleton, List.append_assoc,
    List.cons_append]

/-- A change of types after which they hold only certain texts. -/
theorem Subgraph.mentions_mapDefinitions_subset {s : Subgraph} {f : TypeDef → TypeDef}
    {texts : List String} (hs : s.mentions ⊆ texts)
    (hf : ∀ d ∈ s.definitions, (f d).mentions ⊆ texts) :
    mentions { s with definitions := s.definitions.map f } ⊆ texts := by
  unfold mentions at hs ⊢
  rw [List.append_subset] at hs ⊢
  refine ⟨hs.1, fun text htext => ?_⟩
  obtain ⟨_, hd', htext⟩ := List.mem_flatMap.mp htext
  obtain ⟨d, hd, rfl⟩ := List.mem_map.mp hd'
  exact hf d hd htext

/-! ## Reading field sets -/

namespace FieldSetReading

variable {α β : Type} {known : List String} {f : α → List String} {g : β → List String}

/-- Reading only adds texts to the table. If it starts with known texts in the table, then the texts
that are held by what has been read are in the table, too. -/
def Covers (known : List String) (x : FieldSetReading α) (f : α → List String) : Prop :=
  ∀ t : NameTable, t.GrowsTo (x.run.run t).2 ∧
    (known ⊆ t.toList → ∀ a, (x.run.run t).1 = .ok a → f a ⊆ (x.run.run t).2.toList)

theorem covers_pure {a : α} (h : f a ⊆ known) : Covers known (pure a : FieldSetReading α) f := by
  refine fun t => ⟨.refl t, fun hknown b hb => ?_⟩
  obtain rfl := Except.ok.inj hb
  exact List.Subset.trans h hknown

theorem covers_throw (e : FieldSetError) : Covers known (throw e : FieldSetReading α) f :=
  fun t => ⟨.refl t, fun _ _ h => nomatch h⟩

theorem covers_mention (text : String) :
    Covers known (modify (·.mention text) : FieldSetReading Unit) fun _ => [text] := by
  refine fun t => ⟨t.growsTo_mention text, fun _ _ _ => ?_⟩
  exact List.cons_subset.mpr ⟨t.mem_toList_mention text, List.nil_subset _⟩

theorem covers_mentionAll (texts : List String) :
    Covers known (modify (·.mentionAll texts) : FieldSetReading Unit) fun _ => texts :=
  fun t => ⟨t.growsTo_mentionAll texts, fun _ _ _ => t.subset_toList_mentionAll texts⟩

/-- What has been read first is known to what is read second. -/
theorem Covers.bind {x : FieldSetReading α} {k : α → FieldSetReading β} (hx : Covers known x f)
    (hk : ∀ a, Covers (f a ++ known) (k a) g) : Covers known (x >>= k) g := by
  intro t
  obtain ⟨hgrows, hread⟩ := hx t
  rw [run_bind]
  cases hresult : (x.run.run t).1 with
  | error e => exact ⟨hgrows, fun _ _ h => nomatch h⟩
  | ok a =>
    obtain ⟨hgrows', hread'⟩ := hk a (x.run.run t).2
    refine ⟨hgrows.trans hgrows', fun hknown => hread' ?_⟩
    exact List.append_subset.mpr ⟨hread hknown a hresult, hgrows.subset hknown⟩

end FieldSetReading

namespace SelectionSet

open FieldSetReading

theorem covers_readArguments {known : List String}
    (arguments : List (String × Document.Literal)) :
    Covers known (readArguments arguments) Value.mentionsOfFields := by
  induction arguments generalizing known with
  | nil => exact covers_pure (List.nil_subset _)
  | cons first others ih =>
    rw [readArguments]
    refine (covers_mention _).bind fun _ => ?_
    split
    · exact covers_throw _
    · refine (covers_mentionAll _).bind fun _ => ih.bind fun _ => covers_pure ?_
      grind [Value.mentionsOfFields]

mutual

theorem covers_readSelection {known : List String} (selection : Document.RawSelection) :
    Covers known (readSelection selection) Selection.mentions := by
  cases selection with
  | field name arguments selections =>
    rw [readSelection]
    refine (covers_mention _).bind fun _ => (covers_readArguments arguments).bind fun _ =>
      (covers_readSelections selections).bind fun _ => covers_pure ?_
    grind [Selection.mentions]
  | inlineFragment condition selections =>
    rw [readSelection]
    refine (covers_readSelections selections).bind fun _ => ?_
    split
    · exact covers_throw _
    · refine (covers_mention _).bind fun _ => covers_pure ?_
      grind [Selection.mentions]
  | fragmentSpread name =>
    rw [readSelection]
    exact covers_throw _

theorem covers_readSelections {known : List String} (selections : List Document.RawSelection) :
    Covers known (readSelections selections) Selection.mentionsOfAll := by
  cases selections with
  | nil =>
    rw [readSelections]
    exact covers_pure (List.nil_subset _)
  | cons first others =>
    rw [readSelections]
    refine (covers_readSelection first).bind fun _ =>
      (covers_readSelections others).bind fun _ => covers_pure ?_
    grind [Selection.mentionsOfAll]

end

/-- A field set holds only texts that have been mentioned once it has been read. -/
theorem covers_read {known : List String} (text : String) :
    Covers known (SelectionSet.read text) Selection.mentionsOfAll := by
  unfold SelectionSet.read
  split
  · exact covers_throw _
  · exact covers_throw _
  · refine (covers_readSelections _).bind fun _ => (covers_mention _).bind fun _ => covers_pure ?_
    grind

end SelectionSet

/-! ## Steps -/

/-- Every text that the subgraph holds has been mentioned. -/
def Progress.IsCovered (p : Progress) : Prop :=
  p.subgraph.mentions ⊆ p.names.toList

namespace Ingestion

variable {α β : Type} {known : List String} {f : α → List String} {g : β → List String}

/-- A step only adds texts to the table. If it starts with a covered subgraph and with known texts in
the table, then the subgraph stays covered, and the texts that the answer holds are in the table. -/
def Covers (known : List String) (x : Ingestion α) (f : α → List String) : Prop :=
  ∀ p : Progress, p.names.GrowsTo (x.run p).2.names ∧
    (p.IsCovered → known ⊆ p.names.toList →
      (x.run p).2.IsCovered ∧ f (x.run p).1 ⊆ (x.run p).2.names.toList)

/-- A step whose answer holds no texts. -/
abbrev Keeps (known : List String) (x : Ingestion α) : Prop :=
  Covers known x fun _ => []

theorem covers_pure {a : α} (h : f a ⊆ known) : Covers known (pure a : Ingestion α) f :=
  fun p => ⟨.refl p.names, fun hp hknown => ⟨hp, List.Subset.trans h hknown⟩⟩

theorem keeps_pure (a : α) : Keeps known (pure a : Ingestion α) :=
  covers_pure (List.nil_subset _)

/-- The answer of the first step is known to the second. -/
theorem Covers.bind {x : Ingestion α} {k : α → Ingestion β} (hx : Covers known x f)
    (hk : ∀ a, Covers (f a ++ known) (k a) g) : Covers known (x >>= k) g := by
  intro p
  obtain ⟨hgrows, hcovers⟩ := hx p
  obtain ⟨hgrows', hcovers'⟩ := hk (x.run p).1 (x.run p).2
  refine ⟨hgrows.trans hgrows', fun hp hknown => ?_⟩
  obtain ⟨hq, ha⟩ := hcovers hp hknown
  exact hcovers' hq (List.append_subset.mpr ⟨ha, hgrows.subset hknown⟩)

/-- A step that looks at the subgraph knows what it holds. -/
theorem covers_subgraph_bind {k : Subgraph → Ingestion β}
    (hk : ∀ s, Covers (s.mentions ++ known) (k s) g) : Covers known (subgraph >>= k) g := by
  intro p
  obtain ⟨hgrows, hcovers⟩ := hk p.subgraph p
  exact ⟨hgrows, fun hp hknown => hcovers hp (List.append_subset.mpr ⟨hp, hknown⟩)⟩

/-- A change after which the subgraph holds nothing new but what is known. -/
theorem keeps_modifySubgraph {h : Subgraph → Subgraph}
    (hh : ∀ s, (h s).mentions ⊆ known ++ s.mentions) : Keeps known (modifySubgraph h) := by
  refine fun p => ⟨.refl p.names, fun hp hknown => ⟨?_, List.nil_subset _⟩⟩
  exact List.Subset.trans (hh p.subgraph) (List.append_subset.mpr ⟨hknown, hp⟩)

/-- A change of a type after which it holds nothing new but what is known. -/
theorem keeps_modifyDefinition {name : String} {h : TypeDef → TypeDef}
    (hh : ∀ d, (h d).mentions ⊆ known ++ d.mentions) :
    Keeps known (modifyDefinition name h) := by
  refine keeps_modifySubgraph fun s => ?_
  refine Subgraph.mentions_mapDefinitions_subset (List.subset_append_right _ _) fun d hd => ?_
  have hold : d.mentions ⊆ known ++ s.mentions :=
    List.Subset.trans (Subgraph.mentions_subset_of_mem hd) (List.subset_append_right _ _)
  -- only types of the name are changed
  split
  · exact List.Subset.trans (hh d) (List.append_subset.mpr ⟨List.subset_append_left _ _, hold⟩)
  · exact hold

/-! ### Repetition -/

theorem keeps_forM {items : List α} {step : α → Ingestion Unit}
    (h : ∀ a, Keeps known (step a)) : Keeps known (items.forM step) := by
  induction items with
  | nil => exact keeps_pure ()
  | cons first others ih => exact (h first).bind fun _ => ih

theorem covers_foldlM {items : List α} {step : β → α → Ingestion β}
    (h : ∀ known b a, g b ⊆ known → Covers known (step b a) g) {b : β} (hb : g b ⊆ known) :
    Covers known (items.foldlM step b) g := by
  induction items generalizing known b with
  | nil => exact covers_pure hb
  | cons first others ih =>
    -- what the state holds after the first item is known from there on
    rw [List.foldlM_cons]
    exact (h known b first hb).bind fun _ => ih (List.subset_append_left _ _)

theorem covers_mapM {items : List α} {step : α → Ingestion β}
    (h : ∀ known a, Covers known (step a) g) :
    Covers known (items.mapM step) fun bs => bs.flatMap g := by
  induction items generalizing known with
  | nil =>
    rw [List.mapM_nil]
    exact keeps_pure []
  | cons first others ih =>
    rw [List.mapM_cons]
    refine (h known first).bind fun _ => ih.bind fun _ => covers_pure ?_
    grind

/-! ### Texts, reports and limits -/

/-- A step that only adds texts to the table. -/
theorem covers_of_names {x : Ingestion α} {names : NameTable → NameTable} {a : α}
    (hrun : ∀ p, x.run p = (a, { p with names := names p.names }))
    (hgrows : ∀ t : NameTable, t.GrowsTo (names t)) (htexts : ∀ t, f a ⊆ (names t).toList) :
    Covers known x f := by
  intro p
  rw [hrun]
  refine ⟨hgrows p.names, fun hp _ => ⟨?_, htexts p.names⟩⟩
  exact (hgrows p.names).subset hp

theorem covers_mentionAll (texts : List String) :
    Covers known (mentionAll texts) fun _ => texts :=
  covers_of_names (fun _ => rfl) (fun t => t.growsTo_mentionAll texts)
    fun t => t.subset_toList_mentionAll texts

theorem covers_mention (text : String) : Covers known (mention text) fun _ => [text] :=
  covers_mentionAll [text]

theorem covers_mentionOptional (text : Option String) :
    Covers known (mentionOptional text) fun _ => text.toList := by
  cases text with
  | none => exact keeps_pure ()
  | some text => exact covers_mention text

theorem keeps_report (code : ErrorCode) (message : String) : Keeps known (report code message) :=
  keeps_modifySubgraph fun _ => List.subset_append_right _ _

theorem keeps_useFeatures (features : Features) : Keeps known (useFeatures features) :=
  keeps_modifySubgraph fun _ => List.subset_append_right _ _

theorem keeps_passLimit : Keeps known passLimit :=
  fun p => ⟨.refl p.names, fun hp _ => ⟨hp, List.nil_subset _⟩⟩

theorem covers_describe (description : Option Document.Description) :
    Covers known (describe description) Option.toList := by
  unfold describe
  split
  · exact keeps_pure none
  · split
    · exact keeps_passLimit.bind fun _ => keeps_pure none
    · exact (covers_mention _).bind fun _ => covers_pure (List.subset_append_left _ _)

theorem covers_mentionType (type : TypeRef) :
    Covers known (mentionType type) fun _ => [type.name] := by
  unfold mentionType
  split
  · exact keeps_passLimit.bind fun _ => covers_mention _
  · exact covers_mention _

/-- The texts that an outcome of reading a field set holds. -/
def mentionsOfRead : Except FieldSetError SelectionSet → List String
  | .ok selections => Selection.mentionsOfAll selections
  | .error _ => []

theorem covers_readFieldSet (text : String) :
    Covers known (readFieldSet text) mentionsOfRead := by
  intro p
  obtain ⟨hgrows, hread⟩ := @SelectionSet.covers_read [] text p.names
  rw [run_readFieldSet]
  refine ⟨hgrows, fun hp _ => ⟨hgrows.subset hp, ?_⟩⟩
  dsimp only
  cases hresult : ((SelectionSet.read text).run.run p.names).1 with
  | error e => exact List.nil_subset _
  | ok selections => exact hread (List.nil_subset _) selections hresult

end Ingestion

end Federation
