/-!
# Reachability

Breadth first search in a finite graph. Each item of the graph waits in a queue at most once, in the
order in which it was discovered.
-/

namespace Federation.Reachability

variable {α : Type} [DecidableEq α]

/-- Items that are known to wait, and items that were not seen yet. -/
structure Frontier (α : Type) where
  queue : List α
  unseen : List α

namespace Frontier

/-- An item that was not seen yet goes to the end of the queue. -/
def discover (f : Frontier α) (item : α) : Frontier α :=
  if item ∈ f.unseen then { queue := f.queue ++ [item], unseen := f.unseen.erase item } else f

/-- The number of items still to come. -/
def size (f : Frontier α) : Nat :=
  f.queue.length + f.unseen.length

theorem size_discover (f : Frontier α) (item : α) : (f.discover item).size = f.size := by
  unfold discover size
  split
  · rename_i h
    have := List.length_pos_of_mem h
    simp [List.length_erase_of_mem h]
    omega
  · rfl

theorem size_foldl_discover (items : List α) (f : Frontier α) :
    (items.foldl discover f).size = f.size := by
  induction items generalizing f with
  | nil => rfl
  | cons item items ih => rw [List.foldl_cons, ih, size_discover]

end Frontier

/-- All items that are found from the items in the queue, those of the queue first. -/
def explore (next : α → List α) (queue unseen : List α) : List α :=
  match queue with
  | [] => []
  | item :: rest =>
    let f := (next item).foldl Frontier.discover { queue := rest, unseen }
    item :: explore next f.queue f.unseen
termination_by queue.length + unseen.length
decreasing_by
  have := Frontier.size_foldl_discover (next item) { queue := rest, unseen }
  simp only [Frontier.size] at this
  simp only [List.length_cons]
  omega

/-- All items of a finite graph that are found from some starts, the starts first. -/
def closure (items : List α) (next : α → List α) (starts : List α) : List α :=
  explore next starts (items.filter fun item => item ∉ starts)

/-- Some path leads from an item to another. -/
def leadsTo (items : List α) (next : α → List α) (start target : α) : Bool :=
  target ∈ closure items next [start]

end Federation.Reachability
