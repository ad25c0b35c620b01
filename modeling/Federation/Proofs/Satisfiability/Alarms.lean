import Federation.Proofs.Satisfiability.Reports

/-!
# Alarms are genuine

Every message of the check stands for a path of its own that really fails. Walks share what they have
visited and what they have reported, and they leave states out, but none of this touches a state that
waits: it is where its own selections lead from the start of its walk, with nothing left out on the
way. So whatever is reported at the state is found at the end of this path.
-/

namespace Federation

/-- What a step adds to the selections of a query. -/
def ApiMove.selection : ApiMove → String
  | .field name _ => name
  | .narrow typeName => "... on " ++ typeName

namespace Walker

/-- Where the steps of a path lead from some nodes of a type, one after the other and with nothing
left out. They lead nowhere if the API lacks one of them or if one leads to no node. -/
def arrive? (w : Walker) (typeName : String) (options : List NodeId) :
    List ApiMove → Option (String × List NodeId)
  | [] => some (typeName, options)
  | move :: rest =>
    let next := w.advance options move
    if (w.api.moves typeName).contains move && !next.isEmpty then w.arrive? move.target next rest
    else none

variable {w : Walker} {typeName : String} {options : List NodeId}

/-- One more step from where a path has led. -/
theorem arrive?_concat {path : List ApiMove} {place : String × List NodeId} {move : ApiMove}
    (h : w.arrive? typeName options path = some place) (hmove : move ∈ w.api.moves place.1)
    (hnext : w.advance place.2 move ≠ []) :
    w.arrive? typeName options (path ++ [move]) = some (move.target, w.advance place.2 move) := by
  induction path generalizing typeName options with
  | nil =>
    obtain rfl := Option.some.inj h
    simp [arrive?, hmove, hnext]
  | cons first rest ih =>
    rw [arrive?, Option.ite_none_right_eq_some] at h
    rw [List.cons_append, arrive?, if_pos h.1]
    exact ih h.2

/-- A state that follows another is where one of its steps leads, with the selection of the step
behind the others. -/
theorem exists_move_of_mem_successors {state next : WalkState} (h : next ∈ w.successors state) :
    ∃ move ∈ w.api.moves state.typeName, w.advance state.options move ≠ [] ∧
      next.place = (move.target, w.advance state.options move) ∧
      next.path = state.path ++ [move.selection] := by
  obtain ⟨move, hmove, hfollow⟩ := List.mem_filterMap.mp (List.mem_reverse.mp h)
  unfold follow? at hfollow
  dsimp only at hfollow
  rw [Option.ite_none_left_eq_some] at hfollow
  obtain ⟨hgo, hnext⟩ := hfollow
  obtain rfl := Option.some.inj hnext
  rw [Bool.or_eq_true, not_or, List.isEmpty_iff] at hgo
  refine ⟨move, hmove, hgo.1, rfl, ?_⟩
  cases move with
  | field name target => rfl
  | narrow typeName => rfl

end Walker

namespace Satisfiability

/-! ## Alarms -/

/-- A path from some start, with one of the sets of labels that are tried, which leads to a field that
no node resolves. -/
structure Alarm (p : Problem) where
  labels : List String
  labels_mem : labels ∈ p.labelStates
  start : Start
  start_mem : start ∈ p.starts
  path : List ApiMove
  /-- The type that the path leads to. -/
  typeName : String
  /-- The nodes where a planner can be after the path. -/
  options : List NodeId
  arrives : (p.walker labels).arrive? start.typeName start.options path = some (typeName, options)
  field : String
  target : String
  field_mem : .field field target ∈ p.api.moves typeName
  unresolved : (p.walker labels).advance options (.field field target) = []

namespace Alarm

variable {p : Problem}

/-- The field that cannot be resolved, with its type. -/
def coordinate (a : Alarm p) : String × String :=
  (a.typeName, a.field)

/-- The end of the path, as a walk gets there. -/
def state (a : Alarm p) : WalkState where
  typeName := a.typeName
  options := a.options
  path := a.start.entry.path ++ a.path.map ApiMove.selection

/-- The message on the field, with the query that the path spells. -/
def message (a : Alarm p) : String :=
  (p.walker a.labels).message a.start.entry a.state a.field a.target

end Alarm

/-! ## What ties reports to paths -/

namespace Problem

/-- A state is where its selections lead from a start. -/
def Traced (p : Problem) (labels : List String) (start : Start) (state : WalkState) : Prop :=
  ∃ path, (p.walker labels).arrive? start.typeName start.options path = some state.place ∧
    state.path = start.entry.path ++ path.map ApiMove.selection

/-- A report has one alarm for each field, and the message of the alarm. -/
def IsJustified (p : Problem) (r : FailureReport) : Prop :=
  r.failed.Nodup ∧ ∃ alarms : List (Alarm p),
    r.failed = alarms.map Alarm.coordinate ∧ r.messages = alarms.map Alarm.message

variable {p : Problem} {labels : List String} {start : Start} {state : WalkState}
  {r : FailureReport}

/-- A walk begins at its start, with nothing selected. -/
theorem traced_waiting (p : Problem) (labels : List String) (start : Start) :
    p.Traced labels start start.waiting.2 :=
  ⟨[], rfl, (List.append_nil _).symm⟩

/-- The states that follow are traced, too: the step goes to the end of the path. -/
theorem Traced.successor (h : p.Traced labels start state) {next : WalkState}
    (hnext : next ∈ (p.walker labels).successors state) : p.Traced labels start next := by
  obtain ⟨path, harrive, hpath⟩ := h
  obtain ⟨move, hmove, hne, hplace, hselection⟩ := Walker.exists_move_of_mem_successors hnext
  refine ⟨path ++ [move], ?_, ?_⟩
  · rw [hplace]
    exact Walker.arrive?_concat harrive hmove hne
  · rw [hselection, hpath, List.map_append, List.append_assoc]
    rfl

/-- Before the first walk nothing is reported. -/
theorem isJustified_empty (p : Problem) : p.IsJustified {} :=
  ⟨List.nodup_nil, [], rfl, rfl⟩

/-- A field that no node of a traced state resolves is reported with its path, unless it was reported
before. -/
theorem IsJustified.reportMove (hr : p.IsJustified r) (hlabels : labels ∈ p.labelStates)
    (hstart : start ∈ p.starts) (hstate : p.Traced labels start state) {move : ApiMove}
    (hmove : move ∈ p.api.moves state.typeName) :
    p.IsJustified ((p.walker labels).reportMove start.entry state r move) := by
  cases move with
  | narrow typeName => exact hr
  | field name target =>
    rw [Walker.reportMove]
    split
    · exact hr
    · rename_i hnew
      rw [Bool.or_eq_true, not_or, Bool.not_eq_true', Bool.not_eq_false, List.isEmpty_iff] at hnew
      obtain ⟨hnodup, alarms, hfailed, hmessages⟩ := hr
      obtain ⟨path, harrive, hpath⟩ := hstate
      let alarm : Alarm p :=
        { labels, labels_mem := hlabels, start, start_mem := hstart, path
          typeName := state.typeName, options := state.options, arrives := harrive
          field := name, target, field_mem := hmove, unresolved := hnew.1 }
      have hstate : alarm.state = state := by
        show WalkState.mk _ _ (start.entry.path ++ path.map ApiMove.selection) = state
        rw [← hpath]
      refine ⟨?_, alarms ++ [alarm], ?_, ?_⟩
      · rw [FailureReport.add, ← List.concat_eq_append]
        exact hnodup.concat fun hmem => hnew.2 (List.contains_iff_mem.mpr hmem)
      · rw [FailureReport.add, hfailed, List.map_append]
        rfl
      · rw [FailureReport.add, hmessages, List.map_append, List.map_singleton, Alarm.message, hstate]

/-- So is everything that a visit to the state reports. -/
theorem IsJustified.reportAll (hr : p.IsJustified r) (hlabels : labels ∈ p.labelStates)
    (hstart : start ∈ p.starts) (hstate : p.Traced labels start state) :
    p.IsJustified ((p.walker labels).reportAll start.entry state r) := by
  unfold Walker.reportAll
  refine List.foldlRecOn _ _ hr fun r hr move hmove => ?_
  exact hr.reportMove hlabels hstart hstate hmove

/-! ## Whole walks -/

/-- Walks from traced states report what is justified. What was visited before, and how many visits
are left, does not matter. -/
theorem IsJustified.walkWithin (hlabels : labels ∈ p.labelStates) (hstart : start ∈ p.starts)
    (visits : Nat) (stack : List WalkState) (progress : WalkProgress)
    (hstack : ∀ state ∈ stack, p.Traced labels start state)
    (hprogress : p.IsJustified progress.report) :
    p.IsJustified
      ((p.walker labels).walkWithin start.entry visits stack progress).report := by
  induction visits, stack, progress using Walker.walkWithin.induct (p.walker labels) start.entry with
  | case1 visits progress =>
    rw [Walker.walkWithin]
    exact hprogress
  | case2 visits progress state stack hcovers ih =>
    rw [Walker.walkWithin_of_covers hcovers]
    exact ih (fun other hother => hstack other (List.mem_cons_of_mem _ hother)) hprogress
  | case3 progress state stack hcovers =>
    rw [Walker.walkWithin, if_neg hcovers]
    exact hprogress
  | case4 progress state stack hcovers visits ih =>
    rw [Walker.walkWithin, if_neg hcovers]
    have hstate := hstack state List.mem_cons_self
    refine ih (fun other hother => ?_) (hprogress.reportAll hlabels hstart hstate)
    rcases List.mem_append.mp hother with hnext | hother
    · exact hstate.successor hnext
    · exact hstack other (List.mem_cons_of_mem _ hother)

/-- The walks from all starts with one set of labels report what is justified. -/
theorem IsJustified.walkWith (hr : p.IsJustified r) (hlabels : labels ∈ p.labelStates) :
    p.IsJustified (p.walkWith r labels) := by
  unfold Problem.walkWith
  refine List.foldlRecOn (motive := fun progress : WalkProgress => p.IsJustified progress.report) _ _ hr
    fun progress hprogress start hstart => ?_
  refine IsJustified.walkWithin hlabels hstart _ _ _ (fun state hstate => ?_) hprogress
  rw [List.mem_singleton.mp hstate]
  exact p.traced_waiting labels start

/-- So does the check as a whole. -/
theorem isJustified_report (p : Problem) : p.IsJustified p.report :=
  List.foldlRecOn _ _ p.isJustified_empty fun _ hr _ hlabels => hr.walkWith hlabels

end Problem

/-- **No false alarm.** Each error of the check is the message on a field that cannot be resolved at
the end of a path of its own: from a start, with one of the sets of labels that are tried, the steps
of the path can be taken one by one with nothing left out, and then no node resolves the field. No two
errors are about the same field of the same type. -/
theorem errors_stand_for_failing_paths (set : SubgraphSet) (merged : MergedSchema) :
    ∃ alarms : List (Alarm (Problem.of set merged)),
      check set merged = alarms.map (fun a => .error .satisfiabilityError a.message) ∧
      (alarms.map Alarm.coordinate).Nodup := by
  obtain ⟨hnodup, alarms, hfailed, hmessages⟩ := (Problem.of set merged).isJustified_report
  refine ⟨alarms, ?_, hfailed ▸ hnodup⟩
  rw [check, hmessages, List.map_map]
  rfl

end Satisfiability

end Federation
