import Mathlib.Logic.Relation

/-!
# Loops that end

A loop goes from state to state until there is no next one. Where it works on a stack of tasks, each
of which leads to further tasks, it is enough to see that work on every single task ends: then the
loop has the effects of the tasks, one after the other.
-/

namespace Federation

/-! ## Loops -/

/-- One round of a loop. -/
def Round {σ : Type} (next? : σ → Option σ) (s t : σ) : Prop :=
  next? s = some t

/-- A loop that begins in one state ends: it does not go on forever, and it stops in another one. -/
structure EndsIn {σ : Type} (next? : σ → Option σ) (s t : σ) : Prop where
  ends : Acc (fun later earlier => Round next? earlier later) s
  rounds : Relation.ReflTransGen (Round next?) s t
  stops : next? t = none

namespace EndsIn

variable {σ : Type} {next? : σ → Option σ} {s t u : σ}

/-- A loop that stops somewhere has no other way to go on. -/
theorem of_rounds (hrounds : Relation.ReflTransGen (Round next?) s t) (hstops : next? t = none) :
    EndsIn next? s t := by
  refine ⟨?_, hrounds, hstops⟩
  induction hrounds using Relation.ReflTransGen.head_induction_on with
  | refl => exact Acc.intro t fun u hu => absurd (hstops.symm.trans hu) nofun
  | head hfirst _ ih =>
    refine Acc.intro _ fun u hu => ?_
    rwa [← Option.some.inj (hfirst.symm.trans hu)]

theorem refl (h : next? s = none) : EndsIn next? s s :=
  of_rounds .refl h

theorem head (h : next? s = some u) (hrest : EndsIn next? u t) : EndsIn next? s t :=
  of_rounds (.head h hrest.rounds) hrest.stops

end EndsIn

/-! ## Stacks of tasks -/

namespace Tasks

variable {τ σ : Type} (step : σ → τ → List τ × σ)

/-- Takes the task on top of the stack, and puts the tasks that it leads to in its place. -/
def next? : List τ × σ → Option (List τ × σ)
  | ([], _) => none
  | (task :: tasks, s) => some ((step s task).1 ++ tasks, (step s task).2)

variable (effect : σ → τ → σ)

/-- Work on a task ends and has some effect, whatever else is on the stack. -/
def Finishes (task : τ) : Prop :=
  ∀ tasks s, Relation.ReflTransGen (Round (next? step)) (task :: tasks, s) (tasks, effect s task)

variable {step effect} {tasks : List τ} {task : τ}

/-- Work on tasks that lie on top of others. -/
theorem rounds_append (h : ∀ task ∈ tasks, Finishes step effect task) (others : List τ) (s : σ) :
    Relation.ReflTransGen (Round (next? step)) (tasks ++ others, s)
      (others, tasks.foldl effect s) := by
  induction tasks generalizing s with
  | nil => exact .refl
  | cons task tasks ih =>
    obtain ⟨hfirst, hothers⟩ := List.forall_mem_cons.mp h
    exact (hfirst (tasks ++ others) s).trans (ih hothers (effect s task))

/-- A task is finished with the tasks that it leads to. -/
theorem finishes_of_step (h : ∀ s, ∀ task' ∈ (step s task).1, Finishes step effect task')
    (heffect : ∀ s, effect s task = (step s task).1.foldl effect (step s task).2) :
    Finishes step effect task := by
  intro tasks s
  rw [heffect]
  exact .head rfl (rounds_append (h s) tasks _)

/-- A task that leads to a task for each of some items is finished with these, if it finds out what
the items are, and otherwise at once. -/
theorem finishes_of_items {α ι : Type} (found? : σ → Option α) (items : α → List ι)
    (child : α → ι → τ)
    (hstep : ∀ s, step s task =
      ((found? s).elim [] fun found => (items found).map (child found), s))
    (heffect : ∀ s, effect s task =
      (found? s).elim s fun found => (items found).foldl (fun s i => effect s (child found i)) s)
    (hchild : ∀ found i, Finishes step effect (child found i)) : Finishes step effect task := by
  refine finishes_of_step (fun s task' htask => ?_) fun s => ?_
  · rw [hstep] at htask
    cases hfound : found? s with
    | none => simp [hfound] at htask
    | some found =>
      rw [hfound] at htask
      obtain ⟨i, -, rfl⟩ := List.mem_map.mp htask
      exact hchild found i
  · rw [heffect, hstep]
    cases found? s with
    | none => rfl
    | some found => exact List.foldl_map.symm

/-- The loop has the effects of all tasks. -/
theorem endsIn (h : ∀ task ∈ tasks, Finishes step effect task) (s : σ) :
    EndsIn (next? step) (tasks, s) ([], tasks.foldl effect s) :=
  .of_rounds (by simpa using rounds_append h [] s) rfl

end Tasks

end Federation
