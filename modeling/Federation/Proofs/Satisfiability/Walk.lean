import Federation.Proofs.Satisfiability.Runs
import Mathlib.Data.List.ProdSigma
import Mathlib.Data.List.Sublists

/-!
# The walk comes to its end

A walk visits no place twice, because a visited place covers itself, and there are no more places
than types of the API with nodes of the graph in their order. So the bound on the number of visits
is never what ends a walk: it goes on until no state waits, and it is a walk in one of all orders.
-/

namespace Federation.Walker

variable {w : Walker}

/-- What is walked is the API of the schema that the planner knows, which has one type for each
name. -/
structure WalksSchema (w : Walker) : Prop where
  api : w.api = w.planner.merged.apiGraph
  unique : w.planner.merged.HasUniqueNames

/-- Clients can select from every type that steps leave. -/
theorem WalksSchema.isComposite (h : w.WalksSchema) (typeName : String) :
    ∀ move ∈ w.api.moves typeName, w.planner.merged.isComposite typeName = true := by
  intro move hmove
  rw [h.api] at hmove
  exact MergedSchema.isComposite_of_mem_names h.unique (ApiGraph.mem_names_of_mem_moves hmove)

/-! ## Places -/

/-- All places that can be visited: the types of the API, each with all choices of nodes. -/
def places (w : Walker) : List (String × List NodeId) :=
  w.api.names ×ˢ w.planner.graph.ids.sublists

/-- There are as many places as there may be visits. -/
theorem length_places (w : Walker) : w.places.length = w.visitBound := by
  rw [places, List.length_product, List.length_sublists, ApiGraph.names, List.length_map,
    QueryGraph.ids, List.length_range]
  rfl

theorem mem_places {place : String × List NodeId} :
    place ∈ w.places ↔ place.1 ∈ w.api.names ∧ place.2.Sublist w.planner.graph.ids := by
  obtain ⟨typeName, options⟩ := place
  rw [places, List.mem_product, List.mem_sublists]

/-- Steps to composite types lead to places. -/
theorem WalksSchema.isKept_places (h : w.WalksSchema) : w.IsKept fun place => place ∈ w.places := by
  rintro s _ - ⟨move, hmove, -, rfl⟩ hcomposite
  rw [mem_places]
  refine ⟨?_, w.sublist_advance s.2 move⟩
  rw [h.api] at hmove ⊢
  exact MergedSchema.mem_names_target hmove hcomposite

/-- The visited places are places, and none is visited twice. -/
structure InBounds (w : Walker) (p : WalkProgress) : Prop where
  nodup : p.visited.Nodup
  subset : p.visited ⊆ w.places

/-- There are not more visits than places. -/
theorem InBounds.length_le {p : WalkProgress} (h : w.InBounds p) :
    p.visited.length ≤ w.visitBound := by
  rw [← length_places]
  exact (h.nodup.subperm h.subset).length_le

/-- A visit to a state that is not covered is the first to its place. -/
theorem InBounds.visit {p : WalkProgress} (h : w.InBounds p) (entry : Entry) {state : WalkState}
    (hstate : state.place ∈ w.places) (hcovers : p.covers state = false) :
    w.InBounds (w.visit entry state p) where
  nodup := by
    refine h.nodup.append (List.nodup_singleton _) ?_
    rw [List.disjoint_singleton]
    intro hmem
    -- a place that was visited would have covered the state
    rw [WalkProgress.covers_of_mem hmem] at hcovers
    cases hcovers
  subset :=
    List.append_subset.mpr ⟨h.subset, List.cons_subset.mpr ⟨hstate, List.nil_subset _⟩⟩

/-! ## Walks -/

/-- A covered state on top of the stack is left out. -/
theorem walkWithin_of_covers {entry : Entry} {visits : Nat} {state : WalkState}
    {stack : List WalkState} {p : WalkProgress} (hcovers : p.covers state = true) :
    w.walkWithin entry visits (state :: stack) p = w.walkWithin entry visits stack p := by
  cases visits with
  | zero => rw [walkWithin, if_pos hcovers]
  | succ visits => rw [walkWithin, if_pos hcovers]

/-- With as many visits left as there are places not visited yet, the walk from a stack is a walk
until no state waits. -/
theorem run_walkWithin (h : w.WalksSchema) (entry : Entry) (visits : Nat) (stack : List WalkState)
    (p : WalkProgress)
    (hstack : ∀ waiting ∈ stack.map (Prod.mk entry), waiting.2.place ∈ w.places)
    (hp : w.InBounds p) (hvisits : w.visitBound ≤ visits + p.visited.length) :
    Run w (stack.map (Prod.mk entry)) p (w.walkWithin entry visits stack p) ∧
      w.InBounds (w.walkWithin entry visits stack p) := by
  induction visits, stack, p using walkWithin.induct w entry with
  | case1 visits p =>
    unfold walkWithin
    exact ⟨Run.done p, hp⟩
  | case2 visits p state stack hcovers ih =>
    rw [walkWithin_of_covers hcovers]
    obtain ⟨hrun, hbounds⟩ :=
      ih (fun waiting hwaiting => hstack waiting (List.mem_cons_of_mem _ hwaiting)) hp hvisits
    exact ⟨Run.skip (List.Perm.refl _) hcovers hrun, hbounds⟩
  | case3 p state stack hcovers =>
    -- one more visit would be one too many
    rw [Bool.not_eq_true] at hcovers
    have hvisit := (hp.visit entry (hstack (entry, state) List.mem_cons_self) hcovers).length_le
    rw [visit, List.length_append, List.length_singleton] at hvisit
    omega
  | case4 p state stack hcovers visits ih =>
    rw [walkWithin, if_neg hcovers]
    rw [Bool.not_eq_true] at hcovers
    have hvisit := hp.visit entry (hstack (entry, state) List.mem_cons_self) hcovers
    have hplaces : ∀ waiting ∈ (w.successors state ++ stack).map (Prod.mk entry),
        waiting.2.place ∈ w.places := by
      rw [List.map_append]
      exact h.isKept_places.pending (List.Perm.refl _) hstack
    have hleft : w.visitBound ≤ visits + (w.visit entry state p).visited.length := by
      rw [visit, List.length_append, List.length_singleton]
      omega
    obtain ⟨hrun, hbounds⟩ := ih hplaces hvisit hleft
    rw [List.map_append] at hrun
    exact ⟨Run.visit (List.Perm.refl _) hcovers hrun, hbounds⟩

/-- The walk from an entry is a walk until no state waits. -/
theorem run_walk (h : w.WalksSchema) (entry : Entry) {typeName : String} {options : List NodeId}
    (hplace : (typeName, options) ∈ w.places) {p : WalkProgress} (hp : w.InBounds p) :
    Run w [(entry, { typeName, options, path := entry.path })] p
        (w.walk entry typeName options p) ∧
      w.InBounds (w.walk entry typeName options p) := by
  have hstack : ∀ waiting ∈ [(entry, { typeName, options, path := entry.path : WalkState })],
      waiting.2.place ∈ w.places := by
    intro waiting hwaiting
    rw [List.mem_singleton.mp hwaiting]
    exact hplace
  exact run_walkWithin h entry w.visitBound [{ typeName, options, path := entry.path }] p hstack hp
    (Nat.le_add_right _ _)

/-! ## Some order -/

/-- In some order a walk comes to its end, whatever was visited before. -/
theorem exists_run (h : w.WalksSchema) (pending : List (Entry × WalkState))
    (hpending : ∀ waiting ∈ pending, waiting.2.place ∈ w.places) (p : WalkProgress)
    (hp : w.InBounds p) : ∃ q, Run w pending p q := by
  induction pending generalizing p with
  | nil => exact ⟨p, Run.done p⟩
  | cons waiting pending ih =>
    have hfirst : ∀ other ∈ [waiting], other.2.place ∈ w.places := by
      intro other hother
      rw [List.mem_singleton.mp hother]
      exact hpending waiting List.mem_cons_self
    obtain ⟨hrun, hbounds⟩ :=
      run_walkWithin h waiting.1 w.visitBound [waiting.2] p hfirst hp (Nat.le_add_right _ _)
    obtain ⟨q, hrest⟩ :=
      ih (fun other hother => hpending other (List.mem_cons_of_mem _ hother)) _ hbounds
    exact ⟨q, hrun.append hrest⟩

/-- No place on a path is covered when a walk along the path gets to it. -/
def isFresh (w : Walker) (visited : List (String × List NodeId)) (typeName : String)
    (options : List NodeId) : List ApiMove → Bool
  | [] => true
  | move :: rest =>
    !({ visited : WalkProgress }.covers { typeName, options, path := [] }) &&
      ((w.advance options move).isEmpty ||
        w.isFresh (visited ++ [(typeName, options)]) move.target (w.advance options move) rest)

/-- In some order a walk reports something if a path fails from a state that waits, and no place on
the path is covered when the walk gets to it. -/
theorem exists_run_of_isFresh (h : w.WalksSchema) {path : List ApiMove}
    {pending : List (Entry × WalkState)} {entry : Entry} {state : WalkState}
    (hmem : (entry, state) ∈ pending) (hpending : ∀ waiting ∈ pending, waiting.2.place ∈ w.places)
    {p : WalkProgress} (hp : w.InBounds p) (hfails : w.Fails state.typeName state.options path)
    (hfresh : w.isFresh p.visited state.typeName state.options path = true) :
    ∃ q, Run w pending p q ∧ q.report.failed ≠ [] := by
  induction path generalizing pending state p with
  | nil => exact absurd hfails not_fails_nil
  | cons move rest ih =>
    obtain ⟨before, after, rfl⟩ := List.append_of_mem hmem
    obtain ⟨hmove, hfails⟩ := fails_cons.mp hfails
    rw [isFresh, Bool.and_eq_true, Bool.not_eq_true', Bool.or_eq_true, List.isEmpty_iff] at hfresh
    obtain ⟨hcovers, hfresh⟩ := hfresh
    have hvisit := hp.visit entry (hpending _ hmem) hcovers
    have hwaiting := h.isKept_places.pending List.perm_middle hpending
    by_cases hnil : w.advance state.options move = []
    · rw [if_pos hnil] at hfails
      cases move with
      | narrow typeName => cases hfails
      | field name target =>
        obtain ⟨q, hrun⟩ := exists_run h _ hwaiting _ hvisit
        have hreported : (state.typeName, name) ∈ (w.reportAll entry state p.report).failed :=
          mem_failed_reportAll.mpr (Or.inr ⟨name, target, hmove, hnil, rfl⟩)
        exact ⟨q, Run.visit List.perm_middle hcovers hrun,
          List.ne_nil_of_mem (hrun.failed_subset hreported)⟩
    · rw [if_neg hnil] at hfails
      have hcomposite : w.planner.merged.isComposite move.target = true := by
        cases rest with
        | nil => exact absurd hfails not_fails_nil
        | cons next others => exact h.isComposite move.target next (fails_cons.mp hfails).1
      obtain ⟨next, hnext, hplace⟩ :=
        place_mem_successors_iff.mpr ⟨move, hmove, hnil, hcomposite, rfl⟩
      obtain ⟨htype, hoptions⟩ := Prod.mk.inj hplace
      have hwaits : (entry, next) ∈
          (w.successors state).map (Prod.mk entry) ++ (before ++ after) :=
        List.mem_append_left _ (List.mem_map_of_mem hnext)
      obtain ⟨q, hrun, hfailed⟩ := ih hwaits hwaiting hvisit
        (by rw [htype, hoptions]; exact hfails)
        (by rw [htype, hoptions]; exact hfresh.resolve_left hnil)
      exact ⟨q, Run.visit List.perm_middle hcovers hrun, hfailed⟩

end Federation.Walker
