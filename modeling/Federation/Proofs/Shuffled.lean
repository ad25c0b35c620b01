import Mathlib.Data.List.Forall2
import Mathlib.Data.List.Perm.Basic

/-!
# Lists up to order

Two lists are a shuffle of each other under a relation if they have related items in any order. What
treats every item on its own keeps this.
-/

namespace Federation

variable {α β γ δ : Type}

/-- Items that are related to those of a common list are related. -/
theorem forall₂_trans {R : α → β → Prop} {S : β → γ → Prop} {T : α → γ → Prop}
    (hT : ∀ a b c, R a b → S b c → T a c) {l : List α} {l' : List β} {l'' : List γ}
    (h : List.Forall₂ R l l') (h' : List.Forall₂ S l' l'') : List.Forall₂ T l l'' := by
  induction h generalizing l'' with
  | nil => cases h'; exact .nil
  | cons hfirst _ ih =>
    cases h' with
    | cons hfirst' hothers' => exact .cons (hT _ _ _ hfirst hfirst') (ih hothers')

/-- Every item of the first list is related to one of the second. -/
theorem exists_of_forall₂_left {R : α → β → Prop} {l : List α} {l' : List β}
    (h : List.Forall₂ R l l') {a : α} (ha : a ∈ l) : ∃ b ∈ l', R a b := by
  induction h with
  | nil => cases ha
  | cons hfirst _ ih =>
    rcases List.mem_cons.mp ha with rfl | ha
    · exact ⟨_, List.mem_cons_self, hfirst⟩
    · obtain ⟨b, hb, hab⟩ := ih ha
      exact ⟨b, List.mem_cons_of_mem _ hb, hab⟩

/-- Every item of the second list is related to one of the first. -/
theorem exists_of_forall₂_right {R : α → β → Prop} {l : List α} {l' : List β}
    (h : List.Forall₂ R l l') {b : β} (hb : b ∈ l') : ∃ a ∈ l, R a b :=
  exists_of_forall₂_left h.flip hb

/-- The lists have related items, in any order. -/
def Shuffled (R : α → β → Prop) (l : List α) (l' : List β) : Prop :=
  ∃ mid, l.Perm mid ∧ List.Forall₂ R mid l'

namespace Shuffled

variable {R : α → β → Prop} {S : γ → δ → Prop}

theorem of_forall₂ {l : List α} {l' : List β} (h : List.Forall₂ R l l') : Shuffled R l l' :=
  ⟨l, List.Perm.refl l, h⟩

/-- Equal items in any order. -/
theorem perm {l l' : List α} (h : Shuffled Eq l l') : l.Perm l' := by
  obtain ⟨mid, hperm, hforall⟩ := h
  rw [List.forall₂_eq_eq_eq] at hforall
  exact hforall ▸ hperm

theorem of_perm {l l' : List α} (h : l.Perm l') : Shuffled Eq l l' :=
  ⟨l', h, List.forall₂_same.mpr fun _ _ => rfl⟩

theorem append {l₁ l₂ : List α} {l₁' l₂' : List β} (h₁ : Shuffled R l₁ l₁')
    (h₂ : Shuffled R l₂ l₂') : Shuffled R (l₁ ++ l₂) (l₁' ++ l₂') := by
  obtain ⟨mid₁, hperm₁, hforall₁⟩ := h₁
  obtain ⟨mid₂, hperm₂, hforall₂⟩ := h₂
  exact ⟨mid₁ ++ mid₂, hperm₁.append hperm₂, List.rel_append hforall₁ hforall₂⟩

/-- Replacing related items by shuffled lists. -/
theorem flatMap {f : α → List γ} {g : β → List δ} (hfg : ∀ a b, R a b → Shuffled S (f a) (g b))
    {l : List α} {l' : List β} (h : Shuffled R l l') : Shuffled S (l.flatMap f) (l'.flatMap g) := by
  obtain ⟨mid, hperm, hforall⟩ := h
  have hmid : Shuffled S (mid.flatMap f) (l'.flatMap g) := by
    clear hperm
    induction hforall with
    | nil => exact of_forall₂ .nil
    | cons hfirst _ ih => exact (hfg _ _ hfirst).append ih
  obtain ⟨mid', hperm', hforall'⟩ := hmid
  exact ⟨mid', (hperm.flatMap_right f).trans hperm', hforall'⟩

/-- Keeping items by tests that agree on related items. -/
theorem filter {p : α → Bool} {q : β → Bool} (hpq : ∀ a b, R a b → p a = q b) {l : List α}
    {l' : List β} (h : Shuffled R l l') : Shuffled R (l.filter p) (l'.filter q) := by
  obtain ⟨mid, hperm, hforall⟩ := h
  refine ⟨mid.filter p, hperm.filter p, List.rel_filter (fun a b hab => ?_) hforall⟩
  show p a = true ↔ q b = true
  rw [hpq a b hab]

/-- Applying functions that take related items to related ones. -/
theorem map {f : α → γ} {g : β → δ} (hfg : ∀ a b, R a b → S (f a) (g b)) {l : List α}
    {l' : List β} (h : Shuffled R l l') : Shuffled S (l.map f) (l'.map g) := by
  obtain ⟨mid, hperm, hforall⟩ := h
  exact ⟨mid.map f, hperm.map f, List.rel_map (fun a b hab => hfg a b hab) hforall⟩

/-- Lists whose images are shuffled. -/
theorem of_map {f : γ → α} {g : δ → β} {l : List γ} {l' : List δ}
    (h : Shuffled R (l.map f) (l'.map g)) : Shuffled (fun c d => R (f c) (g d)) l l' := by
  obtain ⟨mid, hperm, hforall⟩ := h
  have himage : List.Forall₂ (fun c a => f c = a) l (l.map f) :=
    List.forall₂_map_right_iff.mpr (List.forall₂_same.mpr fun _ _ => rfl)
  have hcomp : Relation.Comp List.Perm (List.Forall₂ fun c a => f c = a) l mid :=
    List.forall₂_comp_perm_eq_perm_comp_forall₂ ▸ ⟨l.map f, himage, hperm⟩
  obtain ⟨mid', hperm', hforall'⟩ := hcomp
  refine ⟨mid', hperm', ?_⟩
  exact forall₂_trans (fun _ _ _ heq hR => heq ▸ hR) hforall' (List.forall₂_map_right_iff.mp hforall)

/-- Lists that come item by item from shuffles of one list. -/
theorem of_common {ι : Type} {P : ι → α → Prop} {Q : ι → β → Prop}
    (hR : ∀ i a b, P i a → Q i b → R a b) {sources sources' : List ι} (h : sources.Perm sources')
    {l : List α} {l' : List β} (hl : List.Forall₂ P sources l) (hl' : List.Forall₂ Q sources' l') :
    Shuffled R l l' := by
  have hcomp : Relation.Comp List.Perm (List.Forall₂ fun a i => P i a) l sources' :=
    List.forall₂_comp_perm_eq_perm_comp_forall₂ ▸ ⟨sources, hl.flip, h⟩
  obtain ⟨mid, hperm, hforall⟩ := hcomp
  exact ⟨mid, hperm, forall₂_trans (fun a i b => hR i a b) hforall hl'⟩

theorem exists_of_mem_right {l : List α} {l' : List β} (h : Shuffled R l l') {b : β}
    (hb : b ∈ l') : ∃ a ∈ l, R a b := by
  obtain ⟨mid, hperm, hforall⟩ := h
  obtain ⟨i, hi, rfl⟩ := List.getElem_of_mem hb
  have hi' : i < mid.length := hforall.length_eq ▸ hi
  exact ⟨mid[i], hperm.mem_iff.mpr (List.getElem_mem hi'), hforall.get hi' hi⟩

theorem length_eq {l : List α} {l' : List β} (h : Shuffled R l l') : l.length = l'.length := by
  obtain ⟨mid, hperm, hforall⟩ := h
  rw [hperm.length_eq, hforall.length_eq]

/-- A symmetric statement about pairs holds of both lists or of neither. -/
theorem pairwise_iff {T : α → α → Prop} {U : β → β → Prop} (hT : ∀ {a b}, T a b → T b a)
    (hTU : ∀ a b a' b', R a a' → R b b' → (T a b ↔ U a' b')) {l : List α} {l' : List β}
    (h : Shuffled R l l') : l.Pairwise T ↔ l'.Pairwise U := by
  obtain ⟨mid, hperm, hforall⟩ := h
  rw [hperm.pairwise_iff hT]
  clear hperm
  induction hforall with
  | nil => simp
  | @cons a a' l l' hfirst hothers ih =>
    rw [List.pairwise_cons, List.pairwise_cons, ih]
    refine and_congr ?_ Iff.rfl
    clear ih
    induction hothers with
    | nil => simp
    | cons hsecond _ ih =>
      rw [List.forall_mem_cons, List.forall_mem_cons, ih, hTU _ _ _ _ hfirst hsecond]

end Shuffled

end Federation
