import Federation.Reachability
import Mathlib.Data.List.Nodup
import Mathlib.Data.List.Perm.Subperm
import Mathlib.Logic.Relation

/-!
# The search finds what is reachable

A path from an item that waits can always be cut short so that it starts at an item that still waits
and goes on through items that were not seen. So the search misses nothing, and what it finds grows
with the starts. It lists the starts first, and no item that it finds twice.
-/

namespace Federation.Reachability

variable {α : Type}

/-- A step from an item to one of its successors, among some items only. -/
def Step (next : α → List α) (items : List α) (a b : α) : Prop :=
  b ∈ next a ∧ b ∈ items

/-- More items allow more steps. -/
theorem Step.mono {next : α → List α} {items items' : List α} (h : items ⊆ items') {a b : α}
    (hab : Step next items a b) : Step next items' a b :=
  ⟨hab.1, h hab.2⟩

/-- A path from some starts to an item. -/
def Reaches (next : α → List α) (items starts : List α) (x : α) : Prop :=
  ∃ s ∈ starts, Relation.ReflTransGen (Step next items) s x

/-- A start is reached. -/
theorem Reaches.of_mem {next : α → List α} {items starts : List α} {x : α} (h : x ∈ starts) :
    Reaches next items starts x :=
  ⟨x, h, Relation.ReflTransGen.refl⟩

/-- One more step is reached as well. -/
theorem Reaches.tail {next : α → List α} {items starts : List α} {x y : α}
    (h : Reaches next items starts x) (hxy : Step next items x y) : Reaches next items starts y := by
  obtain ⟨s, hs, hpath⟩ := h
  exact ⟨s, hs, hpath.tail hxy⟩

/-- More starts and more items reach more. -/
theorem Reaches.mono {next : α → List α} {items items' starts starts' : List α} {x : α}
    (hitems : items ⊆ items') (hstarts : starts ⊆ starts') (h : Reaches next items starts x) :
    Reaches next items' starts' x := by
  obtain ⟨s, hs, hpath⟩ := h
  exact ⟨s, hstarts hs, hpath.lift id fun _ _ => Step.mono hitems⟩

variable [DecidableEq α]

/-! ## What waits -/

namespace Frontier

theorem mem_queue_discover {f : Frontier α} {item x : α} :
    x ∈ (f.discover item).queue ↔ x ∈ f.queue ∨ x = item ∧ x ∈ f.unseen := by
  unfold discover
  split
  · rename_i hitem
    rw [List.mem_append, List.mem_singleton]
    constructor
    · rintro (h | rfl)
      · exact Or.inl h
      · exact Or.inr ⟨rfl, hitem⟩
    · rintro (h | ⟨h, -⟩)
      · exact Or.inl h
      · exact Or.inr h
  · rename_i hitem
    constructor
    · exact Or.inl
    · rintro (h | ⟨rfl, h⟩)
      · exact h
      · exact absurd h hitem

theorem unseen_discover_subset (f : Frontier α) (item : α) :
    (f.discover item).unseen ⊆ f.unseen := by
  unfold discover
  split
  · exact List.erase_subset
  · exact List.Subset.refl _

/-- An item that was not seen stays so, or it waits. -/
theorem mem_unseen_discover {f : Frontier α} (item : α) {x : α} (h : x ∈ f.unseen) :
    x ∈ (f.discover item).unseen ∨ x ∈ (f.discover item).queue := by
  by_cases hx : x = item
  · exact Or.inr (mem_queue_discover.mpr (Or.inr ⟨hx, h⟩))
  · left
    unfold discover
    split
    · exact (List.mem_erase_of_ne hx).mpr h
    · exact h

/-- After some items are discovered, those wait that were not seen before. -/
theorem mem_queue_foldl_discover {items : List α} {f : Frontier α} {x : α} :
    x ∈ (items.foldl discover f).queue ↔ x ∈ f.queue ∨ x ∈ items ∧ x ∈ f.unseen := by
  induction items generalizing f with
  | nil => simp
  | cons item items ih =>
    rw [List.foldl_cons, ih, mem_queue_discover, List.mem_cons]
    constructor
    · rintro ((h | ⟨rfl, h⟩) | ⟨hx, h⟩)
      · exact Or.inl h
      · exact Or.inr ⟨Or.inl rfl, h⟩
      · exact Or.inr ⟨Or.inr hx, unseen_discover_subset f item h⟩
    · rintro (h | ⟨rfl | hx, h⟩)
      · exact Or.inl (Or.inl h)
      · exact Or.inl (Or.inr ⟨rfl, h⟩)
      · rcases mem_unseen_discover item h with hunseen | hqueue
        · exact Or.inr ⟨hx, hunseen⟩
        · exact Or.inl (mem_queue_discover.mp hqueue)

theorem unseen_foldl_discover_subset (items : List α) (f : Frontier α) :
    (items.foldl discover f).unseen ⊆ f.unseen := by
  induction items generalizing f with
  | nil => exact List.Subset.refl _
  | cons item items ih =>
    exact List.Subset.trans (ih (f.discover item)) (unseen_discover_subset f item)

/-- An item that was not seen stays so, or it waits, also after many discoveries. -/
theorem mem_unseen_foldl_discover (items : List α) (f : Frontier α) {x : α} (h : x ∈ f.unseen) :
    x ∈ (items.foldl discover f).unseen ∨ x ∈ (items.foldl discover f).queue := by
  induction items generalizing f with
  | nil => exact Or.inl h
  | cons item items ih =>
    rw [List.foldl_cons]
    rcases mem_unseen_discover item h with hunseen | hqueue
    · exact ih _ hunseen
    · exact Or.inr (mem_queue_foldl_discover.mpr (Or.inl hqueue))

/-- Discovering an item only moves it. -/
theorem perm_discover (f : Frontier α) (item : α) :
    ((f.discover item).queue ++ (f.discover item).unseen).Perm (f.queue ++ f.unseen) := by
  unfold discover
  split
  · rename_i hitem
    rw [List.append_assoc]
    exact (List.perm_cons_erase hitem).symm.append_left f.queue
  · exact .refl _

theorem perm_foldl_discover (items : List α) (f : Frontier α) :
    ((items.foldl discover f).queue ++ (items.foldl discover f).unseen).Perm
      (f.queue ++ f.unseen) := by
  induction items generalizing f with
  | nil => exact .refl _
  | cons item items ih => exact (ih (f.discover item)).trans (f.perm_discover item)

/-- Items that are discovered go behind those that wait. -/
theorem prefix_queue_foldl_discover (items : List α) (f : Frontier α) :
    f.queue <+: (items.foldl discover f).queue := by
  induction items generalizing f with
  | nil => exact List.prefix_rfl
  | cons item items ih =>
    refine List.IsPrefix.trans ?_ (ih (f.discover item))
    unfold discover
    split
    · exact List.prefix_append _ _
    · exact List.prefix_rfl

/-- Items that were seen are not discovered again. -/
theorem foldl_discover_of_seen {items : List α} {f : Frontier α}
    (h : ∀ item ∈ items, item ∉ f.unseen) : items.foldl discover f = f := by
  induction items with
  | nil => rfl
  | cons item items ih =>
    obtain ⟨hitem, hitems⟩ := List.forall_mem_cons.mp h
    rw [List.foldl_cons, discover, if_neg hitem]
    exact ih hitems

end Frontier

/-! ## The search -/

/-- The search finds the items that are reached from the queue through items not seen yet. -/
theorem mem_explore_iff {next : α → List α} {queue unseen : List α} {x : α} :
    x ∈ explore next queue unseen ↔ Reaches next unseen queue x := by
  induction queue, unseen using explore.induct next with
  | case1 unseen => simp [explore, Reaches]
  | case2 unseen item rest f ih =>
    have hqueue : ∀ y, y ∈ f.queue ↔ y ∈ rest ∨ y ∈ next item ∧ y ∈ unseen := fun y =>
      Frontier.mem_queue_foldl_discover
    rw [explore, List.mem_cons, ih]
    clear ih
    constructor
    · rintro (rfl | ⟨s, hs, hpath⟩)
      · exact Reaches.of_mem List.mem_cons_self
      · have hsub : f.unseen ⊆ unseen := Frontier.unseen_foldl_discover_subset _ _
        have hrest := hpath.lift id fun _ _ => Step.mono hsub
        rcases (hqueue s).mp hs with hs | ⟨hs, hunseen⟩
        · exact ⟨s, List.mem_cons_of_mem item hs, hrest⟩
        · exact ⟨item, List.mem_cons_self, hrest.head ⟨hs, hunseen⟩⟩
    · rintro ⟨s, hs, hpath⟩
      -- every item on the path is the first one, or is reached from what waits afterwards
      induction hpath with
      | refl =>
        rcases List.mem_cons.mp hs with rfl | hs
        · exact Or.inl rfl
        · exact Or.inr (Reaches.of_mem ((hqueue s).mpr (Or.inl hs)))
      | tail _ hstep hprefix =>
        rcases hprefix with rfl | hreach
        · exact Or.inr (Reaches.of_mem ((hqueue _).mpr (Or.inr hstep)))
        · right
          rcases Frontier.mem_unseen_foldl_discover (next item) { queue := rest, unseen } hstep.2
            with hunseen | hwaits
          · exact hreach.tail ⟨hstep.1, hunseen⟩
          · exact Reaches.of_mem hwaits

/-- The closure of some starts is what is reached from them. -/
theorem mem_closure_iff {items : List α} {next : α → List α} {starts : List α} {x : α} :
    x ∈ closure items next starts ↔ Reaches next items starts x := by
  rw [closure, mem_explore_iff]
  constructor
  · intro h
    exact h.mono (fun _ hx => (List.mem_filter.mp hx).1) (List.Subset.refl starts)
  · rintro ⟨s, hs, hpath⟩
    induction hpath with
    | refl => exact Reaches.of_mem hs
    | @tail _ y _ hstep ih =>
      -- a start on the path is a better one to begin with
      by_cases hy : y ∈ starts
      · exact Reaches.of_mem hy
      · exact ih.tail ⟨hstep.1, List.mem_filter.mpr ⟨hstep.2, by simpa using hy⟩⟩

/-- More starts have a larger closure. -/
theorem closure_mono {items : List α} {next : α → List α} {starts starts' : List α}
    (h : starts ⊆ starts') : closure items next starts ⊆ closure items next starts' := by
  intro x hx
  rw [mem_closure_iff] at *
  exact hx.mono (List.Subset.refl items) h

/-! ## The order of the search -/

/-- The search lists what waits, and then other items. -/
theorem prefix_explore (next : α → List α) (queue unseen : List α) :
    queue <+: explore next queue unseen := by
  induction queue, unseen using explore.induct next with
  | case1 unseen => exact List.nil_prefix
  | case2 unseen item rest f ih =>
    rw [explore, List.cons_prefix_cons]
    exact ⟨rfl, (Frontier.prefix_queue_foldl_discover (next item) ⟨rest, unseen⟩).trans ih⟩

/-- The search lists no item more often than it waits or has not been seen. -/
theorem subperm_explore (next : α → List α) (queue unseen : List α) :
    (explore next queue unseen).Subperm (queue ++ unseen) := by
  induction queue, unseen using explore.induct next with
  | case1 unseen =>
    rw [explore]
    exact List.nil_subperm
  | case2 unseen item rest f ih =>
    rw [explore]
    refine ((List.subperm_cons item).mpr ih).trans ?_
    exact ((Frontier.perm_foldl_discover (next item) ⟨rest, unseen⟩).cons item).subperm

/-- Where nothing leads to an item that was not seen, the search lists what waits. -/
theorem explore_eq_queue {next : α → List α} {queue unseen : List α}
    (h : ∀ item ∈ queue, ∀ x ∈ next item, x ∉ unseen) : explore next queue unseen = queue := by
  induction queue with
  | nil => rw [explore]
  | cons item rest ih =>
    obtain ⟨hitem, hrest⟩ := List.forall_mem_cons.mp h
    rw [explore, Frontier.foldl_discover_of_seen (f := ⟨rest, unseen⟩) hitem]
    exact congrArg (item :: ·) (ih hrest)

variable {items : List α} {next : α → List α} {starts : List α}

theorem subset_closure : starts ⊆ closure items next starts :=
  (prefix_explore next starts _).subset

/-- What is found from what was found was found already. -/
theorem closure_closure :
    closure items next (closure items next starts) = closure items next starts := by
  refine explore_eq_queue fun item hitem x hx hunseen => ?_
  obtain ⟨hmem, hnot⟩ := List.mem_filter.mp hunseen
  have hreached := (mem_closure_iff.mp hitem).tail ⟨hx, hmem⟩
  exact of_decide_eq_true hnot (mem_closure_iff.mpr hreached)

/-- The closure lists an item twice only if the starts do. -/
theorem nodup_closure_iff (hitems : items.Nodup) :
    (closure items next starts).Nodup ↔ starts.Nodup := by
  constructor
  · exact fun h => h.sublist (prefix_explore next starts _).sublist
  · intro h
    obtain ⟨found, hperm, hsub⟩ := subperm_explore next starts (items.filter fun x => x ∉ starts)
    refine hperm.nodup_iff.mp (List.Nodup.sublist hsub ?_)
    refine h.append (hitems.filter _) fun x hx hunseen => ?_
    exact of_decide_eq_true (List.mem_filter.mp hunseen).2 hx

/-- Everything is found from one of the starts. -/
theorem mem_closure_iff_exists {x : α} :
    x ∈ closure items next starts ↔ ∃ s ∈ starts, x ∈ closure items next [s] := by
  simp only [mem_closure_iff, Reaches, List.mem_singleton, exists_eq_left]

end Federation.Reachability
