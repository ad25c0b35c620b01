import Federation.Proofs.Loops
import Federation.QueryGraph.Provides

/-!
# The construction of query graphs ends

Three loops make a query graph. Types of a subgraph are added from a queue, which they fill up again;
but no type is added twice. Edges between subgraphs are added in loops inside of loops, and fields are
provided while further provided selections are put off. Both work on tasks that lead to smaller tasks
only.
-/

namespace Federation

/-! ## Types of a subgraph -/

namespace Draft

/-- Takes a type from the queue, and adds it with what it leads to unless it was added before. -/
def expandNext? (s : Source) : List String × Expansion → Option (List String × Expansion)
  | ([], _) => none
  | (name :: queue, e) =>
    match e.unexpanded.find? fun t => t.name == name with
    | none => some (queue, e)
    | some t => some (queue ++ s.next t,
        { draft := addType s.id e.draft t (s.plans t) (s.possibleTypes t)
          unexpanded := e.unexpanded.filter fun other => other.name != name })

/-- The queue runs empty, whatever it begins with. -/
theorem endsIn_expand (s : Source) (queue : List String) (e : Expansion) :
    EndsIn (expandNext? s) (queue, e) ([], expand s queue e) := by
  fun_induction Draft.expand s queue e with
  | case1 e => exact .refl rfl
  | case2 e name queue hnone ih => exact .head (by rw [expandNext?, hnone]) ih
  | case3 e name queue t hfound _ ih =>
    simp only [List.unattach_filter, List.unattach_attach] at ih
    exact .head (by rw [expandNext?, hfound]) ih

end Draft

namespace QueryGraph

/-! ## Edges between subgraphs -/

/-- What is left to do while subgraphs are joined, one kind of task for each of the loops. -/
inductive JoinTask
  | type (t : MergedType)
  | target (t : MergedType) (entry : SubgraphId × TypeDef)
  | standIn (t : MergedType) (entry : SubgraphId × TypeDef)
  | implementation (node : NodeId) (keys : List Key) (name : String)
  | source (makeMove : Key → Move) (keys : List Key) (node : NodeId) (name : String)
      (entry : SubgraphId × TypeDef)

namespace JoinTask

variable (set : SubgraphSet) (merged : MergedSchema)

/-- What a task comes to in the end. -/
def effect (g : QueryGraph) : JoinTask → QueryGraph
  | .type t => joinType set merged g t
  | .target t entry => joinTarget set t g entry
  | .standIn t entry => joinInterfaceObject set merged t g entry
  | .implementation node keys name => joinImplementation set merged node keys g name
  | .source makeMove keys node name entry => addKeyEdge set makeMove keys node name g entry

/-- The tasks that a task leads to. Only the innermost tasks add edges. -/
def step (g : QueryGraph) : JoinTask → List JoinTask × QueryGraph
  | .type t =>
    match t.kind with
    | .object | .interface =>
      let standIns := t.byGraph.filter fun entry => entry.2.isInterfaceObject
      (t.byGraph.map (.target t) ++ standIns.map (.standIn t), g)
    | _ => ([], g)
  | .target t entry =>
    match g.base? t.name entry.1 with
    | none => ([], g)
    | some node =>
      let sources := t.byGraph.filter fun source => source.1 != entry.1
      (sources.map (.source .entity entry.2.keys node t.name), g)
  | .standIn t entry =>
    match g.base? t.name entry.1 with
    | none => ([], g)
    | some node => (t.implementations.map (.implementation node entry.2.keys), g)
  | .implementation node keys name =>
    match merged.object? name with
    | none => ([], g)
    | some object => (object.byGraph.map (.source .interfaceObject keys node object.name), g)
  | .source makeMove keys node name entry => ([], addKeyEdge set makeMove keys node name g entry)

variable {set merged}

/-- Work on the task ends in what the model says. -/
abbrev Finishes (set : SubgraphSet) (merged : MergedSchema) (task : JoinTask) : Prop :=
  Tasks.Finishes (step set merged) (effect set merged) task

theorem finishes_source (makeMove : Key → Move) (keys : List Key) (node : NodeId) (name : String)
    (entry : SubgraphId × TypeDef) : Finishes set merged (.source makeMove keys node name entry) :=
  Tasks.finishes_of_step (fun _ _ htask => absurd htask List.not_mem_nil) fun _ => rfl

theorem finishes_implementation (node : NodeId) (keys : List Key) (name : String) :
    Finishes set merged (.implementation node keys name) := by
  refine Tasks.finishes_of_items (fun _ => merged.object? name) MergedType.byGraph
    (fun object => .source .interfaceObject keys node object.name) (fun g => ?_) (fun g => ?_)
    fun object entry => finishes_source _ _ _ _ entry
  · rw [step]
    cases merged.object? name <;> rfl
  · rw [effect, joinImplementation]
    cases merged.object? name <;> rfl

theorem finishes_standIn (t : MergedType) (entry : SubgraphId × TypeDef) :
    Finishes set merged (.standIn t entry) := by
  refine Tasks.finishes_of_items (fun g => g.base? t.name entry.1) (fun _ => t.implementations)
    (fun node => .implementation node entry.2.keys) (fun g => ?_) (fun g => ?_)
    fun node name => finishes_implementation node _ name
  · rw [step]
    cases g.base? t.name entry.1 <;> rfl
  · rw [effect, joinInterfaceObject]
    cases g.base? t.name entry.1 <;> rfl

theorem finishes_target (t : MergedType) (entry : SubgraphId × TypeDef) :
    Finishes set merged (.target t entry) := by
  refine Tasks.finishes_of_items (fun g => g.base? t.name entry.1)
    (fun _ => t.byGraph.filter fun source => source.1 != entry.1)
    (fun node => .source .entity entry.2.keys node t.name) (fun g => ?_) (fun g => ?_)
    fun node source => finishes_source _ _ node _ source
  · rw [step]
    cases g.base? t.name entry.1 <;> rfl
  · rw [effect, joinTarget]
    cases g.base? t.name entry.1 <;> rfl

theorem finishes_type (t : MergedType) : Finishes set merged (.type t) := by
  refine Tasks.finishes_of_step (fun g task htask => ?_) fun g => ?_
  · have htask : task ∈ t.byGraph.map (.target t) ∨ task ∈
        (t.byGraph.filter fun entry => entry.2.isInterfaceObject).map (.standIn t) := by
      simp only [step] at htask
      split at htask
      · exact List.mem_append.mp htask
      · exact List.mem_append.mp htask
      · exact absurd htask List.not_mem_nil
    rcases htask with htarget | hstandIn
    · obtain ⟨entry, -, rfl⟩ := List.mem_map.mp htarget
      exact finishes_target t entry
    · obtain ⟨entry, -, rfl⟩ := List.mem_map.mp hstandIn
      exact finishes_standIn t entry
  · simp only [effect, step, joinType]
    cases t.kind with
    | object | interface =>
      dsimp only
      rw [List.foldl_append, List.foldl_map, List.foldl_map]
      rfl
    | union | enum | scalar | inputObject => rfl

end JoinTask

/-- All subgraphs are joined in the end. -/
theorem endsIn_joinSubgraphs (set : SubgraphSet) (merged : MergedSchema) (g : QueryGraph) :
    EndsIn (Tasks.next? (JoinTask.step set merged)) (merged.types.map .type, g)
      ([], joinSubgraphs set merged g) := by
  have hall : ∀ task ∈ merged.types.map JoinTask.type, JoinTask.Finishes set merged task :=
    List.forall_mem_map.mpr fun t _ => JoinTask.finishes_type t
  have hends := Tasks.endsIn hall g
  rwa [List.foldl_map] at hends

/-! ## Provided fields -/

/-- What is left to do while fields are provided: an edge that leads to a copy, or a selection that a
node has to resolve. -/
inductive ProvideTask
  | provision (p : Provision)
  | select (subgraph : SubgraphId) (node : NodeId) (selection : Selection)

namespace ProvideTask

/-- What a task comes to in the end. -/
def effect (merged : MergedSchema) (g : QueryGraph) : ProvideTask → QueryGraph
  | .provision p => resolveProvision merged g p
  | .select subgraph node selection => provideOne merged subgraph node g selection

/-- The tasks that a task leads to: what is selected below. -/
def step (merged : MergedSchema) (g : QueryGraph) : ProvideTask → List ProvideTask × QueryGraph
  | .provision p =>
    let (copy, g) := g.splitTail p.edge
    (p.selections.map (.select p.subgraph copy), g)
  | .select subgraph node (.field name _ selections) =>
    match provideField? merged subgraph node name g with
    | none => ([], g)
    | some (edge, g) =>
      if selections.isEmpty then ([], g)
      else
        let (copy, g) := g.splitTail edge
        (selections.map (.select subgraph copy), g)
  | .select subgraph node (.inlineFragment condition selections) =>
    if condition = g.typeNameOf node then (selections.map (.select subgraph node), g)
    else
      match g.findNarrowing? node condition with
      | none => ([], g)
      | some edge =>
        let (copy, g) := g.splitTail edge
        (selections.map (.select subgraph copy), g)

/-- Work on the task ends in what the model says. -/
abbrev Finishes (merged : MergedSchema) (task : ProvideTask) : Prop :=
  Tasks.Finishes (step merged) (effect merged) task

variable {merged : MergedSchema}

/-- Selections are provided one by one. -/
theorem provide_eq_foldl (subgraph : SubgraphId) (node : NodeId) (g : QueryGraph)
    (selections : List Selection) : provide merged subgraph node g selections =
      (selections.map (select subgraph node)).foldl (effect merged) g := by
  induction selections generalizing g with
  | nil => rfl
  | cons first others ih =>
    rw [provide, ih]
    rfl

mutual

/-- Work on a selection ends. The induction is on the selection. -/
theorem finishes_selection (subgraph : SubgraphId) (node : NodeId) (selection : Selection) :
    Finishes merged (.select subgraph node selection) := by
  cases selection with
  | field name arguments selections =>
    refine Tasks.finishes_of_step (fun g task htask => ?_) fun g => ?_
    · simp only [step] at htask
      split at htask
      · exact absurd htask List.not_mem_nil
      · split at htask
        · exact absurd htask List.not_mem_nil
        · obtain ⟨below, hbelow, rfl⟩ := List.mem_map.mp htask
          exact finishes_selections subgraph _ selections below hbelow
    · simp only [effect, step, provideOne]
      cases provideField? merged subgraph node name g with
      | none => rfl
      | some found =>
        dsimp only
        split
        · rfl
        · exact provide_eq_foldl _ _ _ _
  | inlineFragment condition selections =>
    refine Tasks.finishes_of_step (fun g task htask => ?_) fun g => ?_
    · have hbelow : ∃ node', task ∈ selections.map (.select subgraph node') := by
        simp only [step] at htask
        split at htask
        · exact ⟨_, htask⟩
        · split at htask
          · exact absurd htask List.not_mem_nil
          · exact ⟨_, htask⟩
      obtain ⟨node', htask⟩ := hbelow
      obtain ⟨below, hbelow, rfl⟩ := List.mem_map.mp htask
      exact finishes_selections subgraph node' selections below hbelow
    · simp only [effect, step, provideOne]
      split
      · exact provide_eq_foldl _ _ _ _
      · cases g.findNarrowing? node condition with
        | none => rfl
        | some edge => exact provide_eq_foldl _ _ _ _

theorem finishes_selections (subgraph : SubgraphId) (node : NodeId) (selections : List Selection) :
    ∀ below ∈ selections, Finishes merged (.select subgraph node below) := by
  cases selections with
  | nil => exact fun _ h => absurd h List.not_mem_nil
  | cons first others =>
    exact List.forall_mem_cons.mpr
      ⟨finishes_selection subgraph node first, finishes_selections subgraph node others⟩

end

theorem finishes_provision (p : Provision) : Finishes merged (.provision p) := by
  refine Tasks.finishes_of_step (fun g task htask => ?_) fun g => provide_eq_foldl _ _ _ _
  obtain ⟨below, hbelow, rfl⟩ := List.mem_map.mp htask
  exact finishes_selections _ _ _ below hbelow

end ProvideTask

/-- All fields are provided in the end, and the query graph is complete. -/
theorem endsIn_ofSubgraphs (set : SubgraphSet) (merged : MergedSchema) :
    EndsIn (Tasks.next? (ProvideTask.step merged))
      ((draft set merged).provisions.map .provision, joinSubgraphs set merged (draft set merged).graph)
      ([], ofSubgraphs set merged) := by
  have hall : ∀ task ∈ (draft set merged).provisions.map ProvideTask.provision,
      ProvideTask.Finishes merged task :=
    List.forall_mem_map.mpr fun p _ => ProvideTask.finishes_provision p
  have hends := Tasks.endsIn hall (joinSubgraphs set merged (draft set merged).graph)
  rwa [List.foldl_map] at hends

end QueryGraph

end Federation
