import Federation.Proofs.Satisfiability.ApiGraph
import Federation.Proofs.Satisfiability.Paths

/-!
# Walks in any order

A walk takes the waiting states one by one, in some order, and leaves out those that are covered by
places it has visited. In whatever order this happens, in the end every step from a visited place
either was reported, or ends at a place that is covered. So a path that fails without pruning is
found by following it through covering places, as long as it is not cut off at any of them.
-/

namespace Federation

/-- What a state is walked for: its type and its nodes. -/
def WalkState.place (state : WalkState) : String × List NodeId :=
  (state.typeName, state.options)

/-- Some visited place covers a place: its type was visited with some of its nodes. -/
def WalkProgress.Covers (p : WalkProgress) (place : String × List NodeId) : Prop :=
  ∃ v ∈ p.visited, v.1 = place.1 ∧ v.2 ⊆ place.2

theorem WalkProgress.covers_iff {p : WalkProgress} {state : WalkState} :
    p.covers state = true ↔ p.Covers state.place := by
  simp [covers, Covers, WalkState.place, List.subset_def]

/-- A place that was visited covers itself. -/
theorem WalkProgress.covers_of_mem {p : WalkProgress} {state : WalkState}
    (h : state.place ∈ p.visited) : p.covers state = true :=
  covers_iff.mpr ⟨_, h, rfl, List.Subset.refl _⟩

/-- What is covered stays covered. -/
theorem WalkProgress.Covers.mono {p q : WalkProgress} (h : p.visited ⊆ q.visited)
    {place : String × List NodeId} (hp : p.Covers place) : q.Covers place := by
  obtain ⟨v, hv, hcovers⟩ := hp
  exact ⟨v, h hv, hcovers⟩

namespace Walker

variable {w : Walker}

/-! ## Reports -/

/-- The fields that a step from a state adds to a report. -/
theorem mem_failed_reportMove {entry : Entry} {state : WalkState} {r : FailureReport}
    {move : ApiMove} {x : String × String} :
    x ∈ (w.reportMove entry state r move).failed ↔
      x ∈ r.failed ∨ ∃ name target, move = .field name target ∧
        w.advance state.options move = [] ∧ x = (state.typeName, name) := by
  cases move with
  | narrow typeName => simp [reportMove]
  | field name target =>
    have hfields : (∃ name' target', ApiMove.field name target = .field name' target' ∧
        w.advance state.options (.field name target) = [] ∧ x = (state.typeName, name')) ↔
        w.advance state.options (.field name target) = [] ∧ x = (state.typeName, name) := by
      simp
    rw [hfields, reportMove]
    by_cases hnil : w.advance state.options (.field name target) = []
    · by_cases hmentions : r.mentions state.typeName name = true
      · -- the field was reported from other nodes of the type before
        have hmem : (state.typeName, name) ∈ r.failed := List.contains_iff_mem.mp hmentions
        rw [if_pos (by rw [hmentions, Bool.or_true])]
        constructor
        · exact Or.inl
        · rintro (h | ⟨-, rfl⟩)
          · exact h
          · exact hmem
      · rw [if_neg (by simp [hnil, hmentions]), FailureReport.add, List.mem_append,
          List.mem_singleton]
        simp [hnil]
    · rw [if_pos (by simp [hnil])]
      simp [hnil]

/-- The fields that a visit reports: those that no node of the state resolves. -/
theorem mem_failed_reportAll {entry : Entry} {state : WalkState} {r : FailureReport}
    {x : String × String} :
    x ∈ (w.reportAll entry state r).failed ↔
      x ∈ r.failed ∨ ∃ name target, .field name target ∈ w.api.moves state.typeName ∧
        w.advance state.options (.field name target) = [] ∧ x = (state.typeName, name) := by
  unfold reportAll
  induction w.api.moves state.typeName generalizing r with
  | nil => simp
  | cons move moves ih =>
    rw [List.foldl_cons, ih, mem_failed_reportMove, or_assoc]
    refine or_congr_right ?_
    constructor
    · rintro (⟨name, target, rfl, hnil, hx⟩ | ⟨name, target, hmem, hnil, hx⟩)
      · exact ⟨name, target, List.mem_cons_self, hnil, hx⟩
      · exact ⟨name, target, List.mem_cons_of_mem move hmem, hnil, hx⟩
    · rintro ⟨name, target, hmem, hnil, hx⟩
      rcases List.mem_cons.mp hmem with rfl | hmem
      · exact Or.inl ⟨name, target, rfl, hnil, hx⟩
      · exact Or.inr ⟨name, target, hmem, hnil, hx⟩

/-- Every reported field has its message. -/
theorem length_messages_reportAll {entry : Entry} {state : WalkState} {r : FailureReport}
    (h : r.messages.length = r.failed.length) :
    (w.reportAll entry state r).messages.length = (w.reportAll entry state r).failed.length := by
  unfold reportAll
  induction w.api.moves state.typeName generalizing r with
  | nil => exact h
  | cons move moves ih =>
    rw [List.foldl_cons]
    refine ih ?_
    cases move with
    | narrow typeName => exact h
    | field name target =>
      rw [reportMove]
      split
      · exact h
      · rw [FailureReport.add, List.length_append, List.length_append, h]
        rfl

/-! ## Successors -/

/-- The states that follow a state are where its steps to composite types lead. -/
theorem place_mem_successors_iff {state : WalkState} {place : String × List NodeId} :
    (∃ next ∈ w.successors state, next.place = place) ↔
      ∃ move ∈ w.api.moves state.typeName, w.advance state.options move ≠ [] ∧
        w.planner.merged.isComposite move.target = true ∧
        place = (move.target, w.advance state.options move) := by
  have hfollow : ∀ move next, w.follow? state move = some next →
      w.advance state.options move ≠ [] ∧ w.planner.merged.isComposite move.target = true ∧
        next.place = (move.target, w.advance state.options move) := by
    intro move next h
    simp only [follow?, Option.ite_none_left_eq_some, Option.some.injEq] at h
    obtain ⟨hgo, rfl⟩ := h
    simp only [Bool.or_eq_true, List.isEmpty_iff, Bool.not_eq_true', not_or] at hgo
    exact ⟨hgo.1, by simpa using hgo.2, rfl⟩
  constructor
  · rintro ⟨next, hnext, rfl⟩
    obtain ⟨move, hmove, h⟩ := List.mem_filterMap.mp (List.mem_reverse.mp hnext)
    exact ⟨move, hmove, hfollow move next h⟩
  · rintro ⟨move, hmove, hnil, hcomposite, rfl⟩
    cases h : w.follow? state move with
    | none => simp [follow?, hnil, hcomposite] at h
    | some next =>
      refine ⟨next, List.mem_reverse.mpr (List.mem_filterMap.mpr ⟨move, hmove, h⟩), ?_⟩
      exact (hfollow move next h).2.2

/-! ## Runs -/

/-- A walk in any order: of the waiting states, each with the entry of its query, any may be next. It
is left out if it is covered, and visited otherwise. The walk ends when no state waits. -/
inductive Run (w : Walker) :
    List (Entry × WalkState) → WalkProgress → WalkProgress → Prop
  | done (p : WalkProgress) : Run w [] p p
  | skip {pending rest : List (Entry × WalkState)} {item : Entry × WalkState}
      {p q : WalkProgress} (hnext : pending.Perm (item :: rest))
      (hcovers : p.covers item.2 = true) (hrest : Run w rest p q) : Run w pending p q
  | visit {pending rest : List (Entry × WalkState)} {item : Entry × WalkState}
      {p q : WalkProgress} (hnext : pending.Perm (item :: rest))
      (hcovers : p.covers item.2 = false)
      (hrest : Run w ((w.successors item.2).map (Prod.mk item.1) ++ rest)
        (w.visit item.1 item.2 p) q) : Run w pending p q

namespace Run

variable {pending : List (Entry × WalkState)} {p q : WalkProgress}

/-- Walks that follow each other are a walk from all of their starts. -/
theorem append {others : List (Entry × WalkState)} {r : WalkProgress} (h : Run w pending p q)
    (h' : Run w others q r) : Run w (pending ++ others) p r := by
  induction h with
  | done p => exact h'
  | skip hnext hcovers _ ih => exact skip (hnext.append_right others) hcovers (ih h')
  | visit hnext hcovers _ ih =>
    have hall := ih h'
    rw [List.append_assoc] at hall
    exact visit (hnext.append_right others) hcovers hall

/-- Visited places stay visited. -/
theorem visited_subset (h : Run w pending p q) : p.visited ⊆ q.visited := by
  induction h with
  | done p => exact List.Subset.refl _
  | skip _ _ _ ih => exact ih
  | visit _ _ _ ih => exact fun v hv => ih (List.mem_append_left _ hv)

/-- Reported fields stay reported. -/
theorem failed_subset (h : Run w pending p q) : p.report.failed ⊆ q.report.failed := by
  induction h with
  | done p => exact List.Subset.refl _
  | skip _ _ _ ih => exact ih
  | visit _ _ _ ih => exact fun x hx => ih (mem_failed_reportAll.mpr (Or.inl hx))

/-- Every reported field has its message. -/
theorem length_messages (h : Run w pending p q)
    (hp : p.report.messages.length = p.report.failed.length) :
    q.report.messages.length = q.report.failed.length := by
  induction h with
  | done p => exact hp
  | skip _ _ _ ih => exact ih hp
  | visit _ _ _ ih => exact ih (length_messages_reportAll hp)

/-- In the end every state that waited is covered. -/
theorem covers (h : Run w pending p q) : ∀ item ∈ pending, q.Covers item.2.place := by
  induction h with
  | done p => simp
  | skip hnext hcovers hrest ih =>
    intro item hitem
    rcases List.mem_cons.mp (hnext.mem_iff.mp hitem) with rfl | hitem
    · exact (WalkProgress.covers_iff.mp hcovers).mono hrest.visited_subset
    · exact ih item hitem
  | @visit _ _ next _ _ hnext hcovers hrest ih =>
    intro item hitem
    rcases List.mem_cons.mp (hnext.mem_iff.mp hitem) with rfl | hitem
    · refine ⟨item.2.place, hrest.visited_subset ?_, rfl, List.Subset.refl _⟩
      exact List.mem_append_right _ (List.mem_singleton_self _)
    · exact ih item (List.mem_append_right _ hitem)

end Run

/-! ## What a walk misses -/

/-- Every step from a visited place is accounted for: a field that no node resolves is reported, and
a place that the step leads to is covered, or it waits. -/
structure Settled (w : Walker) (pending : List (Entry × WalkState)) (p : WalkProgress) : Prop where
  reported : ∀ v ∈ p.visited, ∀ name target, .field name target ∈ w.api.moves v.1 →
    w.advance v.2 (.field name target) = [] → (v.1, name) ∈ p.report.failed
  followed : ∀ v ∈ p.visited, ∀ move ∈ w.api.moves v.1, w.advance v.2 move ≠ [] →
    w.planner.merged.isComposite move.target = true →
    p.Covers (move.target, w.advance v.2 move) ∨
      ∃ item ∈ pending, item.2.place = (move.target, w.advance v.2 move)

/-- Before the first visit there is nothing to account for. -/
theorem Settled.start (w : Walker) (pending : List (Entry × WalkState)) (r : FailureReport) :
    Settled w pending { report := r } where
  reported := by simp
  followed := by simp

/-- Leaving out a covered state is fine. -/
theorem Settled.skip {pending rest : List (Entry × WalkState)} {item : Entry × WalkState}
    {p : WalkProgress} (h : Settled w pending p) (hnext : pending.Perm (item :: rest))
    (hcovers : p.covers item.2 = true) : Settled w rest p where
  reported := h.reported
  followed := by
    intro v hv move hmove hnil hcomposite
    rcases h.followed v hv move hmove hnil hcomposite with hcov | ⟨waiting, hwaiting, hplace⟩
    · exact Or.inl hcov
    · rcases List.mem_cons.mp (hnext.mem_iff.mp hwaiting) with rfl | hwaiting
      · exact Or.inl (hplace ▸ WalkProgress.covers_iff.mp hcovers)
      · exact Or.inr ⟨waiting, hwaiting, hplace⟩

/-- So is visiting a state, whose successors wait from then on. -/
theorem Settled.visit {pending rest : List (Entry × WalkState)} {item : Entry × WalkState}
    {p : WalkProgress} (h : Settled w pending p) (hnext : pending.Perm (item :: rest)) :
    Settled w ((w.successors item.2).map (Prod.mk item.1) ++ rest) (w.visit item.1 item.2 p) where
  reported := by
    intro v hv name target hmove hnil
    refine mem_failed_reportAll.mpr ?_
    rcases List.mem_append.mp hv with hv | hv
    · exact Or.inl (h.reported v hv name target hmove hnil)
    · obtain rfl := List.mem_singleton.mp hv
      exact Or.inr ⟨name, target, hmove, hnil, rfl⟩
  followed := by
    intro v hv move hmove hnil hcomposite
    rcases List.mem_append.mp hv with hv | hv
    · rcases h.followed v hv move hmove hnil hcomposite with hcov | ⟨waiting, hwaiting, hplace⟩
      · exact Or.inl (hcov.mono (List.subset_append_left _ _))
      · rcases List.mem_cons.mp (hnext.mem_iff.mp hwaiting) with rfl | hwaiting
        · -- what waited for this step is the state that is visited now, and it covers itself
          left
          rw [← hplace]
          exact ⟨waiting.2.place, List.mem_append_right _ (List.mem_singleton_self _), rfl,
            List.Subset.refl _⟩
        · exact Or.inr ⟨waiting, List.mem_append_right _ hwaiting, hplace⟩
    · obtain rfl := List.mem_singleton.mp hv
      right
      obtain ⟨next, hsucc, hplace⟩ :=
        place_mem_successors_iff.mpr ⟨move, hmove, hnil, hcomposite, rfl⟩
      exact ⟨(item.1, next), List.mem_append_left _ (List.mem_map_of_mem hsucc), hplace⟩

/-- When no state waits any more, everything is accounted for. -/
theorem Run.settled {pending : List (Entry × WalkState)} {p q : WalkProgress}
    (h : Run w pending p q) (hp : Settled w pending p) : Settled w [] q := by
  induction h with
  | done p => exact hp
  | skip hnext hcovers _ ih => exact ih (hp.skip hnext hcovers)
  | visit hnext _ _ ih => exact ih (hp.visit hnext)

/-! ## Where a walk gets to -/

/-- A property of places that steps to composite types keep. -/
def IsKept (w : Walker) (R : String × List NodeId → Prop) : Prop :=
  ∀ s t, R s → w.Steps s t → w.planner.merged.isComposite t.1 = true → R t

section

variable {R : String × List NodeId → Prop}

/-- The states that wait after a visit have the property, if those before it have. -/
theorem IsKept.pending (hR : w.IsKept R)
    {pending rest : List (Entry × WalkState)} {item : Entry × WalkState}
    (hnext : pending.Perm (item :: rest)) (hpending : ∀ waiting ∈ pending, R waiting.2.place) :
    ∀ waiting ∈ (w.successors item.2).map (Prod.mk item.1) ++ rest, R waiting.2.place := by
  intro waiting hwaiting
  rcases List.mem_append.mp hwaiting with hsucc | hrest
  · obtain ⟨next, hnextmem, rfl⟩ := List.mem_map.mp hsucc
    obtain ⟨move, hmove, hnil, hcomposite, heq⟩ :=
      place_mem_successors_iff.mp ⟨next, hnextmem, rfl⟩
    have hplace := hpending item (hnext.mem_iff.mpr List.mem_cons_self)
    rw [heq]
    exact hR item.2.place _ hplace ⟨move, hmove, hnil, rfl⟩ hcomposite
  · exact hpending waiting (hnext.mem_iff.mpr (List.mem_cons_of_mem _ hrest))

/-- Visited places have the property, if the waiting states have. -/
theorem IsKept.visited (hR : w.IsKept R) {pending : List (Entry × WalkState)} {p q : WalkProgress} (h : Run w pending p q)
    (hpending : ∀ waiting ∈ pending, R waiting.2.place) (hp : ∀ v ∈ p.visited, R v) :
    ∀ v ∈ q.visited, R v := by
  induction h with
  | done p => exact hp
  | skip hnext _ _ ih =>
    exact ih (fun waiting hrest => hpending waiting
      (hnext.mem_iff.mpr (List.mem_cons_of_mem _ hrest))) hp
  | @visit _ _ item _ _ hnext _ _ ih =>
    refine ih (hR.pending hnext hpending) fun v hv => ?_
    rcases List.mem_append.mp hv with hv | hv
    · exact hp v hv
    · rw [List.mem_singleton.mp hv]
      exact hpending item (hnext.mem_iff.mpr List.mem_cons_self)

/-- Only fields are reported that no node of such a place resolves. -/
theorem IsKept.failed (hR : w.IsKept R) {pending : List (Entry × WalkState)} {p q : WalkProgress} (h : Run w pending p q)
    (hpending : ∀ waiting ∈ pending, R waiting.2.place) {x : String × String}
    (hx : x ∈ q.report.failed) :
    x ∈ p.report.failed ∨ ∃ options target, R (x.1, options) ∧
      .field x.2 target ∈ w.api.moves x.1 ∧ w.advance options (.field x.2 target) = [] := by
  induction h with
  | done p => exact Or.inl hx
  | skip hnext _ _ ih =>
    exact ih (fun waiting hrest => hpending waiting
      (hnext.mem_iff.mpr (List.mem_cons_of_mem _ hrest))) hx
  | @visit _ _ item _ _ hnext _ _ ih =>
    rcases ih (hR.pending hnext hpending) hx with hfailed | hlater
    · rcases mem_failed_reportAll.mp hfailed with hbefore | ⟨name, target, hmove, hnil, rfl⟩
      · exact Or.inl hbefore
      · right
        have hplace := hpending item (hnext.mem_iff.mpr List.mem_cons_self)
        exact ⟨item.2.options, target, hplace, hmove, hnil⟩
    · exact Or.inr hlater

/-- If everything is accounted for, something was reported as soon as a path fails from a place that
is covered. The path may be any of some paths that are cut off nowhere on the way, and it is followed
through the covering places. -/
theorem Settled.failed_ne_nil {p : WalkProgress} (h : Settled w [] p)
    (hcomposite : ∀ typeName, ∀ move ∈ w.api.moves typeName,
      w.planner.merged.isComposite typeName = true)
    (hR : w.IsKept R) (hvisited : ∀ v ∈ p.visited, R v)
    {P : List ApiMove → Prop} (hP : ∀ move rest, P (move :: rest) → P rest)
    (hkept : ∀ typeName options options' path, R (typeName, options') → R (typeName, options) →
      options' ⊆ options → P path → w.Fails typeName options path →
      ¬ w.CutOff typeName options' path)
    {path : List ApiMove} (hpath : P path) {typeName : String} {options : List NodeId}
    (hplace : R (typeName, options)) (hcovers : p.Covers (typeName, options))
    (hfails : w.Fails typeName options path) : p.report.failed ≠ [] := by
  induction path generalizing typeName options with
  | nil => exact absurd hfails not_fails_nil
  | cons move rest ih =>
    -- the path goes on from the covering place, which has fewer nodes but fails on it as well
    obtain ⟨⟨_, options'⟩, hv, rfl, hsub⟩ := hcovers
    have hcut := hkept _ options options' _ (hvisited _ hv) hplace hsub hpath hfails
    obtain ⟨hmove, hfails'⟩ := fails_cons.mp ((hfails.of_subset hsub).resolve_right hcut)
    by_cases hnil : w.advance options' move = []
    · rw [if_pos hnil] at hfails'
      cases move with
      | narrow typeName => cases hfails'
      | field name target => exact List.ne_nil_of_mem (h.reported _ hv name target hmove hnil)
    · rw [if_neg hnil] at hfails'
      have htarget : w.planner.merged.isComposite move.target = true := by
        cases rest with
        | nil => exact absurd hfails' not_fails_nil
        | cons next others => exact hcomposite move.target next (fails_cons.mp hfails').1
      have hstep := hR _ _ (hvisited _ hv) ⟨move, hmove, hnil, rfl⟩ htarget
      rcases h.followed _ hv move hmove hnil htarget with hnext | ⟨waiting, hwaiting, -⟩
      · exact ih (hP move rest hpath) hstep hnext hfails'
      · exact absurd hwaiting List.not_mem_nil

end

end Walker

end Federation
