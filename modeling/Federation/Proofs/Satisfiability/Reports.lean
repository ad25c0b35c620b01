import Federation.Proofs.Satisfiability.Walk
import Federation.Satisfiability.Check

/-!
# Reports of walks from all starts

Walks are made from all starts, once for each set of labels that is tried. Walks from several starts
share what they have visited, so together they are one walk. In whatever order they are made, they
report something exactly if some path fails, as far as fewer nodes never cut a failing path off.
-/

namespace Federation.Satisfiability

/-- The state where a walk from the start begins, with the entry of its queries. -/
def Start.waiting (start : Start) : Entry × WalkState :=
  (start.entry, { typeName := start.typeName, options := start.options, path := start.entry.path })

namespace Problem

/-! ## Starts -/

/-- What is walked is the API of the merged schema. -/
theorem walksSchema {set : SubgraphSet} {merged : MergedSchema}
    (h : MergedSchema.ofSubgraphs set = .ok merged) (labels : List String) :
    ((Problem.of set merged).walker labels).WalksSchema where
  api := rfl
  unique := MergedSchema.hasUniqueNames_of_ofSubgraphs h

/-- Base nodes are nodes of the graph in its order. -/
theorem sublist_baseNodes (p : Problem) (typeName : String) (ids : List SubgraphId) :
    (p.baseNodes typeName ids).Sublist p.graph.ids :=
  List.filter_sublist

variable {set : SubgraphSet} {merged : MergedSchema}

/-- Queries start at the base nodes of an object type that clients can see: at all of them, or at some
of them, and then there are such nodes. -/
theorem exists_type_of_mem_starts {start : Start} (h : start ∈ (Problem.of set merged).starts) :
    ∃ t ∈ merged.types, start.typeName = t.name ∧ t.kind = .object ∧
      t.metadata.isInaccessible = false ∧
      ∃ ids ⊆ t.byGraph.ids, start.options = (Problem.of set merged).baseNodes t.name ids ∧
        (ids = t.byGraph.ids ∨ start.options ≠ []) := by
  rcases List.mem_append.mp h with hroot | hentity
  · obtain ⟨root, -, hstart⟩ := List.mem_filterMap.mp hroot
    unfold rootStart? at hstart
    obtain ⟨t, ht, hstart⟩ := Option.bind_eq_some_iff.mp hstart
    split at hstart
    · cases hstart
    · rename_i hvisible
      obtain rfl := Option.some.inj hstart
      obtain ⟨htype, hkind⟩ := Option.filter_eq_some_iff.mp ht
      exact ⟨t, (MergedSchema.mem_types_of_type?_eq_some htype).1, rfl, eq_of_beq hkind,
        Bool.eq_false_iff.mpr hvisible, _, List.Subset.refl _, rfl, .inl rfl⟩
  · obtain ⟨t, ht, hstart⟩ := List.mem_filterMap.mp hentity
    unfold entityStart? at hstart
    dsimp only at hstart
    split at hstart
    · cases hstart
    · rename_i hnot
      simp only [Bool.or_eq_true, decide_eq_true_eq, not_or] at hnot
      obtain ⟨⟨⟨hkind, hvisible⟩, hne⟩, -⟩ := hnot
      obtain rfl := Option.some.inj hstart
      exact ⟨t, ht, rfl, not_not.mp hkind, Bool.eq_false_iff.mpr hvisible, _,
        List.map_subset _ (List.filter_subset_self _), rfl,
        .inr fun hnil => hne (List.isEmpty_iff.mpr hnil)⟩

/-- A walk starts at a place. -/
theorem place_mem_places (labels : List String) {start : Start}
    (h : start ∈ (Problem.of set merged).starts) :
    start.waiting.2.place ∈ ((Problem.of set merged).walker labels).places := by
  obtain ⟨t, ht, hname, hkind, hvisible, ids, -, hoptions, -⟩ := exists_type_of_mem_starts h
  refine Walker.mem_places.mpr ⟨?_, ?_⟩
  · show start.typeName ∈ _
    rw [hname]
    exact MergedSchema.mem_names_of_object ht hkind hvisible
  · show start.options.Sublist _
    rw [hoptions]
    exact sublist_baseNodes (Problem.of set merged) _ _

/-! ## Walks from all starts -/

/-- Walks from some starts, each going on with what those before it have visited, are a walk. -/
theorem run_foldl_walk (h : MergedSchema.ofSubgraphs set = .ok merged) (labels : List String)
    (starts : List Start) (hstarts : ∀ start ∈ starts, start ∈ (Problem.of set merged).starts)
    {p : WalkProgress} (hp : ((Problem.of set merged).walker labels).InBounds p) :
    ((Problem.of set merged).walker labels).Run (starts.map Start.waiting) p
      (starts.foldl (fun progress start => ((Problem.of set merged).walker labels).walk
        start.entry start.typeName start.options progress) p) := by
  induction starts generalizing p with
  | nil => exact Walker.Run.done p
  | cons start starts ih =>
    have hplace := place_mem_places labels (hstarts start List.mem_cons_self)
    obtain ⟨hrun, hbounds⟩ := Walker.run_walk (walksSchema h labels) start.entry hplace hp
    exact hrun.append (ih (fun s hs => hstarts s (List.mem_cons_of_mem _ hs)) hbounds)

/-- The walks from all starts together are a walk. -/
theorem run_walkWith (h : MergedSchema.ofSubgraphs set = .ok merged) (r : FailureReport)
    (labels : List String) :
    ∃ q, ((Problem.of set merged).walker labels).Run
        ((Problem.of set merged).starts.map Start.waiting) { report := r } q ∧
      q.report = (Problem.of set merged).walkWith r labels := by
  have hnone : ((Problem.of set merged).walker labels).InBounds { report := r } :=
    ⟨List.nodup_nil, List.nil_subset _⟩
  exact ⟨_, run_foldl_walk h labels _ (fun _ hstart => hstart) hnone, rfl⟩

/-- In some order the walks report something if a path fails from a start and none of its places is
covered when the walks get to it. -/
theorem exists_run_of_isFresh (h : MergedSchema.ofSubgraphs set = .ok merged) (r : FailureReport)
    {labels : List String} {start : Start} (hstart : start ∈ (Problem.of set merged).starts)
    {path : List ApiMove}
    (hfails : ((Problem.of set merged).walker labels).Fails start.typeName start.options path)
    (hfresh : ((Problem.of set merged).walker labels).isFresh [] start.typeName start.options path =
      true) :
    ∃ q, ((Problem.of set merged).walker labels).Run
        ((Problem.of set merged).starts.map Start.waiting) { report := r } q ∧
      q.report.failed ≠ [] := by
  have hplaces : ∀ waiting ∈ (Problem.of set merged).starts.map Start.waiting,
      waiting.2.place ∈ ((Problem.of set merged).walker labels).places := by
    intro waiting hwaiting
    obtain ⟨other, hother, rfl⟩ := List.mem_map.mp hwaiting
    exact place_mem_places labels hother
  have hwaits : start.waiting ∈ (Problem.of set merged).starts.map Start.waiting :=
    List.mem_map_of_mem hstart
  exact Walker.exists_run_of_isFresh (walksSchema h labels) hwaits hplaces
    ⟨List.nodup_nil, List.nil_subset _⟩ hfails hfresh

/-- Reports of walks in any order, one walk from all starts for each of some sets of labels. -/
inductive Reports (p : Problem) : List (List String) → FailureReport → FailureReport → Prop
  | done (r : FailureReport) : Reports p [] r r
  | walk {labels : List String} {rest : List (List String)} {r r' : FailureReport}
      {q : WalkProgress}
      (hrun : (p.walker labels).Run (p.starts.map Start.waiting) { report := r } q)
      (hrest : Reports p rest q.report r') : Reports p (labels :: rest) r r'

/-- The report of the check is one of them. -/
theorem reports_report (h : MergedSchema.ofSubgraphs set = .ok merged) :
    (Problem.of set merged).Reports (Problem.of set merged).labelStates {}
      (Problem.of set merged).report := by
  unfold report
  generalize (Problem.of set merged).labelStates = states
  generalize ({} : FailureReport) = r
  induction states generalizing r with
  | nil => exact Reports.done r
  | cons labels rest ih =>
    obtain ⟨q, hrun, hq⟩ := run_walkWith h r labels
    refine Reports.walk hrun ?_
    rw [List.foldl_cons, hq]
    exact ih _

namespace Reports

variable {p : Problem} {states : List (List String)} {r r' : FailureReport}

/-- Reported fields stay reported. -/
theorem failed_subset (h : p.Reports states r r') : r.failed ⊆ r'.failed := by
  induction h with
  | done r => exact List.Subset.refl _
  | walk hrun _ ih => exact fun x hx => ih (hrun.failed_subset hx)

/-- Every reported field has its message. -/
theorem length_messages (h : p.Reports states r r')
    (hr : r.messages.length = r.failed.length) : r'.messages.length = r'.failed.length := by
  induction h with
  | done r => exact hr
  | walk hrun _ ih => exact ih (hrun.length_messages hr)

/-- There are messages exactly if there are reported fields. -/
theorem messages_ne_nil_iff (h : p.Reports states {} r) : r.messages ≠ [] ↔ r.failed ≠ [] := by
  rw [← List.length_pos_iff, ← List.length_pos_iff, h.length_messages rfl]

end Reports

/-! ## What fails -/

/-- A place that queries from some start get to without pruning. -/
def Reached (p : Problem) (labels : List String) (place : String × List NodeId) : Prop :=
  ∃ start ∈ p.starts,
    Relation.ReflTransGen (p.walker labels).Steps start.waiting.2.place place

/-- A path from some start fails. -/
def Unsatisfiable (p : Problem) (labels : List String) (path : List ApiMove) : Prop :=
  ∃ start ∈ p.starts, (p.walker labels).Fails start.typeName start.options path

/-- Fewer nodes cut off none of some paths on which more nodes fail, at places that queries get to.
-/
def KeepsFailures (p : Problem) (labels : List String) (P : List ApiMove → Prop) : Prop :=
  ∀ typeName options options' path, p.Reached labels (typeName, options') →
    p.Reached labels (typeName, options) → options' ⊆ options → P path →
    (p.walker labels).Fails typeName options path →
    ¬ (p.walker labels).CutOff typeName options' path

variable {p : Problem} {labels : List String}

/-- Paths of fields are always kept. -/
theorem keepsFailures_of_fields (p : Problem) (labels : List String) :
    p.KeepsFailures labels fun path => ∀ move ∈ path, move.isField = true := by
  intro typeName options options' path _ _ _ hfields _
  exact Walker.not_cutOff_of_isField hfields

/-- So are all paths if the API has no narrowings. -/
theorem keepsFailures_of_fields_only {p : Problem} (labels : List String)
    (P : List ApiMove → Prop) (h : ∀ t ∈ p.api.types, ∀ move ∈ t.moves, move.isField = true) :
    p.KeepsFailures labels P := by
  intro typeName options options' path _ _ _ _ _ hcut
  obtain ⟨move, -, hnarrowing, name, hmove⟩ := hcut.exists_narrowing
  obtain ⟨t, ht, -, hmove⟩ := ApiGraph.exists_type_of_mem_moves hmove
  rw [h t ht move hmove] at hnarrowing
  cases hnarrowing

theorem Reached.step {s t : String × List NodeId} (h : p.Reached labels s)
    (hstep : (p.walker labels).Steps s t) : p.Reached labels t := by
  obtain ⟨start, hstart, hpath⟩ := h
  exact ⟨start, hstart, hpath.tail hstep⟩

/-- A place that a step leads to is reached from a place that is. -/
theorem Reached.move {s : String × List NodeId} (h : p.Reached labels s) {move : ApiMove}
    (hmove : move ∈ (p.walker labels).api.moves s.1) {next : List NodeId}
    (hnext : (p.walker labels).advance s.2 move = next) (hne : next ≠ []) :
    p.Reached labels (move.target, next) := by
  refine h.step ⟨move, hmove, ?_, ?_⟩
  · rw [hnext]
    exact hne
  · rw [hnext]

/-- Steps from places that are reached lead to such places. -/
theorem isKept_reached (p : Problem) (labels : List String) :
    (p.walker labels).IsKept (p.Reached labels) :=
  fun _ _ hs hstep _ => hs.step hstep

/-- The states that wait at first are reached. -/
theorem reached_of_mem_waiting :
    ∀ waiting ∈ p.starts.map Start.waiting, p.Reached labels waiting.2.place := by
  intro waiting hwaiting
  obtain ⟨start, hstart, rfl⟩ := List.mem_map.mp hwaiting
  exact ⟨start, hstart, Relation.ReflTransGen.refl⟩

/-- A walk in any order reports something if a path fails that is one of those that are kept. -/
theorem failed_ne_nil_of_unsatisfiable (hw : (p.walker labels).WalksSchema) {r : FailureReport}
    {q : WalkProgress}
    (hrun : (p.walker labels).Run (p.starts.map Start.waiting) { report := r } q)
    {P : List ApiMove → Prop} (hP : ∀ move rest, P (move :: rest) → P rest)
    (hkept : p.KeepsFailures labels P) {path : List ApiMove} (hpath : P path)
    (hfails : p.Unsatisfiable labels path) : q.report.failed ≠ [] := by
  obtain ⟨start, hstart, hfails⟩ := hfails
  have hmem := List.mem_map_of_mem (f := Start.waiting) hstart
  have hsettled := hrun.settled (Walker.Settled.start _ _ r)
  have hvisited := (p.isKept_reached labels).visited hrun reached_of_mem_waiting (by simp)
  exact hsettled.failed_ne_nil hw.isComposite (p.isKept_reached labels) hvisited hP hkept hpath
    (reached_of_mem_waiting _ hmem) (hrun.covers _ hmem) hfails

/-- A walk in any order reports nothing new unless a path fails. -/
theorem exists_unsatisfiable_of_mem_failed {r : FailureReport} {q : WalkProgress}
    (hrun : (p.walker labels).Run (p.starts.map Start.waiting) { report := r } q)
    {x : String × String} (hx : x ∈ q.report.failed) :
    x ∈ r.failed ∨ ∃ path, p.Unsatisfiable labels path := by
  rcases (p.isKept_reached labels).failed hrun reached_of_mem_waiting hx with
    hbefore | ⟨options, target, ⟨start, hstart, hpath⟩, hmove, hnil⟩
  · exact Or.inl hbefore
  · right
    have hlast : (p.walker labels).Fails x.1 options [.field x.2 target] := by
      refine Walker.fails_cons.mpr ⟨hmove, ?_⟩
      rw [if_pos hnil]
      rfl
    obtain ⟨path, hfails⟩ := Walker.exists_fails_of_steps hpath hlast
    exact ⟨path, start, hstart, hfails⟩

/-- Reports in any order are not empty if a path fails that is one of those that are kept. -/
theorem Reports.failed_ne_nil (hw : ∀ labels, (p.walker labels).WalksSchema)
    {states : List (List String)} {r r' : FailureReport} (h : p.Reports states r r')
    (hlabels : labels ∈ states) {P : List ApiMove → Prop}
    (hP : ∀ move rest, P (move :: rest) → P rest) (hkept : p.KeepsFailures labels P)
    {path : List ApiMove} (hpath : P path) (hfails : p.Unsatisfiable labels path) :
    r'.failed ≠ [] := by
  induction h with
  | done r => exact absurd hlabels List.not_mem_nil
  | walk hrun hrest ih =>
    rcases List.mem_cons.mp hlabels with rfl | hlabels
    · -- later walks with other labels keep what was reported
      have hfailed := failed_ne_nil_of_unsatisfiable (hw _) hrun hP hkept hpath hfails
      exact fun hnil => hfailed (List.subset_nil.mp (hnil ▸ hrest.failed_subset))
    · exact ih hlabels

/-- Reports in any order are empty unless a path fails. -/
theorem Reports.exists_unsatisfiable {states : List (List String)} {r r' : FailureReport}
    (h : p.Reports states r r') {x : String × String} (hx : x ∈ r'.failed) :
    x ∈ r.failed ∨ ∃ labels ∈ states, ∃ path, p.Unsatisfiable labels path := by
  induction h with
  | done r => exact Or.inl hx
  | @walk labels _ _ _ _ hrun _ ih =>
    rcases ih hx with hfailed | ⟨later, hlater, hpath⟩
    · rcases exists_unsatisfiable_of_mem_failed hrun hfailed with hbefore | hpath
      · exact Or.inl hbefore
      · exact Or.inr ⟨labels, List.mem_cons_self, hpath⟩
    · exact Or.inr ⟨later, List.mem_cons_of_mem _ hlater, hpath⟩

/-- Reports in any order have no message unless a path fails. -/
theorem Reports.exists_unsatisfiable_of_messages {states : List (List String)} {r : FailureReport}
    (h : p.Reports states {} r) (hne : r.messages ≠ []) :
    ∃ labels ∈ states, ∃ path, p.Unsatisfiable labels path := by
  obtain ⟨x, hx⟩ := List.exists_mem_of_ne_nil _ (h.messages_ne_nil_iff.mp hne)
  exact (h.exists_unsatisfiable hx).resolve_left List.not_mem_nil

/-- Reports in any order have a message exactly if a path fails, provided that all paths are kept. -/
theorem Reports.messages_ne_nil_iff_unsatisfiable (hw : ∀ labels, (p.walker labels).WalksSchema)
    (hkept : ∀ labels ∈ p.labelStates, p.KeepsFailures labels fun _ => True)
    {r : FailureReport} (h : p.Reports p.labelStates {} r) :
    r.messages ≠ [] ↔ ∃ labels ∈ p.labelStates, ∃ path, p.Unsatisfiable labels path := by
  constructor
  · exact h.exists_unsatisfiable_of_messages
  · rintro ⟨labels, hlabels, path, hfails⟩
    rw [h.messages_ne_nil_iff]
    exact h.failed_ne_nil hw hlabels (fun _ _ => id) (hkept labels hlabels) trivial hfails

end Problem

end Federation.Satisfiability
