import Federation.Proofs.Satisfiability.Planner
import Federation.Satisfiability.Walk
import Mathlib.Logic.Basic
import Mathlib.Logic.Relation

/-!
# Paths that fail

A path of steps fails if the steps can be taken up to a field that no node resolves. Nothing is left
out here, in contrast to a walk. With fewer nodes a path that fails can only fail earlier, as long as
it does not narrow a value to a type that it never has with fewer nodes: there it is cut off, which
is no failure.
-/

namespace Federation

/-- The step goes to the value of a field. -/
def ApiMove.isField : ApiMove → Bool
  | .field _ _ => true
  | .narrow _ => false

namespace Walker

/-! ## Single steps -/

/-- More nodes lead to more nodes. -/
theorem advance_mono (w : Walker) {options options' : List NodeId} (h : options ⊆ options')
    (move : ApiMove) : w.advance options move ⊆ w.advance options' move := by
  cases move with
  | field name target => exact Planner.advance_mono h name
  | narrow typeName => exact Planner.advanceToType_mono h typeName

/-- A step leads to nodes of the graph in its order. -/
theorem sublist_advance (w : Walker) (options : List NodeId) (move : ApiMove) :
    (w.advance options move).Sublist w.planner.graph.ids := by
  cases move with
  | field name target => exact Planner.sublist_advance w.planner options name
  | narrow typeName => exact Planner.sublist_advanceToType w.planner options typeName

/-- With fewer nodes there are fewer steps. -/
theorem advance_eq_nil_of_subset {w : Walker} {options options' : List NodeId}
    (h : options ⊆ options') {move : ApiMove} (hnil : w.advance options' move = []) :
    w.advance options move = [] :=
  List.subset_nil.mp (hnil ▸ w.advance_mono h move)

/-- A step without pruning, from a type and nodes to a type and nodes. -/
def Steps (w : Walker) (s t : String × List NodeId) : Prop :=
  ∃ move ∈ w.api.moves s.1, w.advance s.2 move ≠ [] ∧ t = (move.target, w.advance s.2 move)

/-! ## Whole paths -/

/-- The steps of a path can be taken, from some nodes of a type, up to a field that no node resolves,
or else up to a type that the value never has. What comes after this step does not matter. -/
def stops (w : Walker) (atField : Bool) (typeName : String) (options : List NodeId) :
    List ApiMove → Bool
  | [] => false
  | move :: rest =>
    (w.api.moves typeName).contains move &&
      if (w.advance options move).isEmpty then move.isField == atField
      else w.stops atField move.target (w.advance options move) rest

/-- The path fails: it stops at a field that no node resolves. -/
def Fails (w : Walker) (typeName : String) (options : List NodeId) (path : List ApiMove) : Prop :=
  w.stops true typeName options path = true

/-- The path is cut off: it stops at a type that the value never has. -/
def CutOff (w : Walker) (typeName : String) (options : List NodeId) (path : List ApiMove) : Prop :=
  w.stops false typeName options path = true

variable {w : Walker} {typeName : String} {options options' : List NodeId} {move : ApiMove}
  {path rest : List ApiMove}

theorem stops_cons {atField : Bool} :
    w.stops atField typeName options (move :: rest) = true ↔
      move ∈ w.api.moves typeName ∧
        if w.advance options move = [] then move.isField = atField
        else w.stops atField move.target (w.advance options move) rest = true := by
  rw [stops, Bool.and_eq_true, List.contains_iff_mem]
  by_cases hnil : w.advance options move = []
  · simp [hnil]
  · simp [hnil]

theorem not_fails_nil : ¬ w.Fails typeName options [] :=
  Bool.false_ne_true

/-- A path fails at its first step, or at a later one. -/
theorem fails_cons :
    w.Fails typeName options (move :: rest) ↔
      move ∈ w.api.moves typeName ∧
        if w.advance options move = [] then move.isField = true
        else w.Fails move.target (w.advance options move) rest :=
  stops_cons

/-- A path is cut off at its first step, or at a later one. -/
theorem cutOff_cons :
    w.CutOff typeName options (move :: rest) ↔
      move ∈ w.api.moves typeName ∧
        if w.advance options move = [] then move.isField = false
        else w.CutOff move.target (w.advance options move) rest :=
  stops_cons

/-- A path that fails from some nodes fails from fewer nodes as well, or is cut off there. -/
theorem Fails.of_subset (hsub : options' ⊆ options) (h : w.Fails typeName options path) :
    w.Fails typeName options' path ∨ w.CutOff typeName options' path := by
  induction path generalizing typeName options options' with
  | nil => exact absurd h not_fails_nil
  | cons move rest ih =>
    obtain ⟨hmove, h⟩ := fails_cons.mp h
    rw [fails_cons, cutOff_cons]
    by_cases hnil' : w.advance options' move = []
    · -- the path ends here with fewer nodes, and the step decides how
      rw [if_pos hnil', if_pos hnil']
      cases hfield : move.isField
      · exact Or.inr ⟨hmove, rfl⟩
      · exact Or.inl ⟨hmove, rfl⟩
    · have hnil : w.advance options move ≠ [] := fun hnil =>
        hnil' (advance_eq_nil_of_subset hsub hnil)
      rw [if_neg hnil] at h
      rw [if_neg hnil', if_neg hnil']
      rcases ih (w.advance_mono hsub move) h with hfails | hcut
      · exact Or.inl ⟨hmove, hfails⟩
      · exact Or.inr ⟨hmove, hcut⟩

/-- A path that is cut off does not fail. -/
theorem CutOff.not_fails (h : w.CutOff typeName options path) : ¬ w.Fails typeName options path := by
  induction path generalizing typeName options with
  | nil => exact not_fails_nil
  | cons move rest ih =>
    intro hfails
    obtain ⟨-, hfails⟩ := fails_cons.mp hfails
    obtain ⟨-, hcut⟩ := cutOff_cons.mp h
    by_cases hnil : w.advance options move = []
    · rw [if_pos hnil] at hcut hfails
      rw [hcut] at hfails
      cases hfails
    · rw [if_neg hnil] at hcut hfails
      exact ih hcut hfails

/-- A path that fails from some nodes fails from fewer nodes exactly if it is not cut off there. -/
theorem Fails.iff_not_cutOff (hsub : options' ⊆ options) (h : w.Fails typeName options path) :
    w.Fails typeName options' path ↔ ¬ w.CutOff typeName options' path := by
  constructor
  · exact fun hfails hcut => hcut.not_fails hfails
  · exact fun hcut => (h.of_subset hsub).resolve_right hcut

/-- A path is cut off at a narrowing only. -/
theorem CutOff.exists_narrowing (h : w.CutOff typeName options path) :
    ∃ move ∈ path, move.isField = false ∧ ∃ name, move ∈ w.api.moves name := by
  induction path generalizing typeName options with
  | nil => exact absurd h Bool.false_ne_true
  | cons move rest ih =>
    obtain ⟨hmove, hcut⟩ := cutOff_cons.mp h
    by_cases hnil : w.advance options move = []
    · rw [if_pos hnil] at hcut
      exact ⟨move, List.mem_cons_self, hcut, typeName, hmove⟩
    · rw [if_neg hnil] at hcut
      obtain ⟨found, hfound, hrest⟩ := ih hcut
      exact ⟨found, List.mem_cons_of_mem move hfound, hrest⟩

/-- A path of fields is never cut off. -/
theorem not_cutOff_of_isField (hfields : ∀ move ∈ path, move.isField = true) :
    ¬ w.CutOff typeName options path := by
  intro hcut
  obtain ⟨move, hmove, hnarrowing, -⟩ := hcut.exists_narrowing
  rw [hfields move hmove] at hnarrowing
  cases hnarrowing

/-- Where a path fails, some path fails from all places that lead there. -/
theorem exists_fails_of_steps {s t : String × List NodeId}
    (h : Relation.ReflTransGen w.Steps s t) (ht : w.Fails t.1 t.2 path) :
    ∃ path, w.Fails s.1 s.2 path := by
  induction h using Relation.ReflTransGen.head_induction_on with
  | refl => exact ⟨path, ht⟩
  | head hstep _ ih =>
    -- the step goes in front of the path that fails after it
    obtain ⟨move, hmove, hnil, rfl⟩ := hstep
    obtain ⟨rest, hrest⟩ := ih
    refine ⟨move :: rest, fails_cons.mpr ⟨hmove, ?_⟩⟩
    rw [if_neg hnil]
    exact hrest

/-- Fewer nodes fail somewhere if more nodes do, exactly if more nodes do not fail at all, or one of
the paths on which they fail is not cut off for fewer nodes, or fewer nodes fail on another path. -/
theorem exists_fails_of_subset_iff (hsub : options' ⊆ options) :
    ((∃ path, w.Fails typeName options path) → ∃ path, w.Fails typeName options' path) ↔
      (∀ path, ¬ w.Fails typeName options path) ∨
        (∃ path, w.Fails typeName options path ∧ ¬ w.CutOff typeName options' path) ∨
        ∃ path, w.Fails typeName options' path ∧ ¬ w.Fails typeName options path := by
  constructor
  · intro hlaw
    by_cases hsome : ∃ path, w.Fails typeName options path
    · right
      obtain ⟨path, hfails'⟩ := hlaw hsome
      by_cases hfails : w.Fails typeName options path
      · exact Or.inl ⟨path, hfails, (hfails.iff_not_cutOff hsub).mp hfails'⟩
      · exact Or.inr ⟨path, hfails', hfails⟩
    · exact Or.inl (not_exists.mp hsome)
  · rintro (hnone | ⟨path, hfails, hcut⟩ | ⟨path, hfails', -⟩) hsome
    · obtain ⟨path, hfails⟩ := hsome
      exact absurd hfails (hnone path)
    · exact ⟨path, (hfails.iff_not_cutOff hsub).mpr hcut⟩
    · exact ⟨path, hfails'⟩

/-! ## Places without failures -/

/-- Every step from some places leads to one of them, or is a narrowing to a type that the value
never has. -/
def isQuiet (w : Walker) (places : List (String × List NodeId)) : Bool :=
  places.all fun s => (w.api.moves s.1).all fun move =>
    if (w.advance s.2 move).isEmpty then !move.isField
    else places.contains (move.target, w.advance s.2 move)

/-- No path from such a place fails. -/
theorem not_fails_of_isQuiet {places : List (String × List NodeId)} (h : w.isQuiet places = true)
    (hplace : (typeName, options) ∈ places) : ¬ w.Fails typeName options path := by
  induction path generalizing typeName options with
  | nil => exact not_fails_nil
  | cons move rest ih =>
    intro hfails
    obtain ⟨hmove, hfails⟩ := fails_cons.mp hfails
    have hstep := List.all_eq_true.mp (List.all_eq_true.mp h _ hplace) move hmove
    by_cases hnil : w.advance options move = []
    · rw [if_pos hnil] at hfails
      simp [hnil, hfails] at hstep
    · rw [if_neg hnil] at hfails
      rw [if_neg (by simpa using hnil), List.contains_iff_mem] at hstep
      exact ih hstep hfails

end Walker

end Federation
