import Federation.Merge.Field
import Mathlib.Data.List.Nodup

/-!
# Tables by name

Merged elements are kept in lists with one item for each name. An item is changed by name, or added
if there is none of its name, so that all items but one stay as they are. After many changes an item
has gone through those that were made under its name, in their order.
-/

namespace Federation

variable {α β : Type} {key : α → String}

/-- The item of a name after a change of the item of some name. -/
theorem find?_upsert {k : String} {fresh : α} {f : α → α} (hfresh : key (f fresh) = k)
    (hf : ∀ a, key a = k → key (f a) = k) (items : List α) (n : String) :
    (upsert (fun a => key a == k) fresh f items).find? (fun a => key a == n) =
      if n = k then some (f ((items.find? fun a => key a == n).getD fresh))
      else items.find? fun a => key a == n := by
  induction items with
  | nil =>
    by_cases hn : n = k
    · simp [upsert, hn, hfresh]
    · simp [upsert, hfresh, hn, Ne.symm hn]
  | cons first others ih =>
    by_cases hfirst : key first = k
    · have hkey := hf first hfirst
      by_cases hn : n = k
      · simp [upsert, hfirst, hn, hkey]
      · simp [upsert, hfirst, hn, hkey, Ne.symm hn]
    · rw [upsert, if_neg (by simpa using hfirst)]
      by_cases hn : key first = n
      · have hne : n ≠ k := hn ▸ hfirst
        simp [hn, hne]
      · rw [List.find?_cons_of_neg (by simpa using hn), ih,
          List.find?_cons_of_neg (by simpa using hn)]

/-- Changes of many items, each of the item of its own name. -/
def upsertAll (key : α → String) (keyOf : β → String) (fresh : β → α) (step : β → α → α)
    (items : List α) (changes : List β) : List α :=
  changes.foldl (fun items b => upsert (fun a => key a == keyOf b) (fresh b) (step b) items) items

/-- The item of a name after many changes, when there was none before: it starts fresh at the first
change of its name and goes through all changes of its name. -/
theorem find?_upsertAll {keyOf : β → String} {fresh : β → α} {step : β → α → α}
    (hfresh : ∀ b, key (fresh b) = keyOf b) (hstep : ∀ b a, key (step b a) = key a)
    (items : List α) (changes : List β) (n : String) :
    (upsertAll key keyOf fresh step items changes).find? (fun a => key a == n) =
      (changes.filter fun b => keyOf b == n).foldl
        (fun a? b => some (step b (a?.getD (fresh b)))) (items.find? fun a => key a == n) := by
  induction changes generalizing items with
  | nil => rfl
  | cons b changes ih =>
    have hkey : ∀ a, key a = keyOf b → key (step b a) = keyOf b := fun a ha => by rw [hstep, ha]
    rw [upsertAll, List.foldl_cons, ← upsertAll, ih,
      find?_upsert (hkey _ (hfresh b)) hkey items n]
    by_cases hb : keyOf b = n
    · rw [List.filter_cons_of_pos (by simpa using hb), if_pos hb.symm, List.foldl_cons]
    · rw [List.filter_cons_of_neg (by simpa using hb), if_neg (Ne.symm hb)]

/-- Changes of an item that is there. -/
theorem foldl_some (fresh : β → α) (step : β → α → α) (a : α) (changes : List β) :
    changes.foldl (fun a? b => some (step b (a?.getD (fresh b)))) (some a) =
      some (changes.foldl (fun a b => step b a) a) := by
  induction changes generalizing a with
  | nil => rfl
  | cons b changes ih => rw [List.foldl_cons, List.foldl_cons, Option.getD_some, ih]

/-- The item of a name that some changes make. -/
theorem find?_upsertAll_nil {keyOf : β → String} {fresh : β → α} {step : β → α → α}
    (hfresh : ∀ b, key (fresh b) = keyOf b) (hstep : ∀ b a, key (step b a) = key a)
    {changes rest : List β} {first : β} {n : String}
    (h : (changes.filter fun b => keyOf b == n) = first :: rest) :
    (upsertAll key keyOf fresh step [] changes).find? (fun a => key a == n) =
      some ((first :: rest).foldl (fun a b => step b a) (fresh first)) := by
  rw [find?_upsertAll hfresh hstep, h, List.foldl_cons, List.find?_nil, Option.getD_none, foldl_some,
    List.foldl_cons]

/-- The item of a name that some changes make, if there are changes of its name. -/
theorem find?_upsertAll_empty {keyOf : β → String} {fresh : β → α} {step : β → α → α}
    (hfresh : ∀ b, key (fresh b) = keyOf b) (hstep : ∀ b a, key (step b a) = key a)
    (changes : List β) (n : String) :
    (upsertAll key keyOf fresh step [] changes).find? (fun a => key a == n) =
      (changes.filter fun b => keyOf b == n).head?.map fun first =>
        (changes.filter fun b => keyOf b == n).foldl (fun a b => step b a) (fresh first) := by
  cases h : changes.filter fun b => keyOf b == n with
  | nil => rw [find?_upsertAll hfresh hstep, h]; rfl
  | cons first rest => rw [find?_upsertAll_nil hfresh hstep h]; rfl

/-- Changes that come in parts. -/
theorem upsertAll_append (keyOf : β → String) (fresh : β → α) (step : β → α → α) (items : List α)
    (changes more : List β) :
    upsertAll key keyOf fresh step items (changes ++ more) =
      upsertAll key keyOf fresh step (upsertAll key keyOf fresh step items changes) more :=
  List.foldl_append

/-- What holds of fresh items and is preserved by changes holds of all items. -/
theorem forall_mem_upsertAll {keyOf : β → String} {fresh : β → α} {step : β → α → α} {P : α → Prop}
    {items : List α} {changes : List β} (hitems : ∀ a ∈ items, P a)
    (hfresh : ∀ b ∈ changes, P (fresh b)) (hstep : ∀ b ∈ changes, ∀ a, P a → P (step b a)) :
    ∀ a ∈ upsertAll key keyOf fresh step items changes, P a := by
  have hupsert : ∀ {isRight : α → Bool} {fresh : α} {f : α → α} {items : List α}, P fresh →
      (∀ a, P a → P (f a)) → (∀ a ∈ items, P a) → ∀ a ∈ upsert isRight fresh f items, P a := by
    intro isRight fresh f items hfresh hf hitems
    induction items with
    | nil => exact List.forall_mem_singleton.mpr (hf fresh hfresh)
    | cons first others ih =>
      obtain ⟨hfirst, hothers⟩ := List.forall_mem_cons.mp hitems
      rw [upsert]
      split
      · exact List.forall_mem_cons.mpr ⟨hf first hfirst, hothers⟩
      · exact List.forall_mem_cons.mpr ⟨hfirst, ih hothers⟩
  induction changes generalizing items with
  | nil => exact hitems
  | cons b changes ih =>
    obtain ⟨hb, hrest⟩ := List.forall_mem_cons.mp hfresh
    obtain ⟨hstepb, hsteprest⟩ := List.forall_mem_cons.mp hstep
    exact ih (hupsert hb hstepb hitems) hrest hsteprest

/-! ## Unique names -/

/-- The item of a new name comes last, and the others keep their names. -/
theorem map_key_upsert {k : String} {fresh : α} {f : α → α} (hfresh : key (f fresh) = k)
    (hf : ∀ a, key (f a) = key a) (items : List α) :
    (upsert (fun a => key a == k) fresh f items).map key =
      if k ∈ items.map key then items.map key else items.map key ++ [k] := by
  induction items with
  | nil => simp [upsert, hfresh]
  | cons first others ih =>
    by_cases hfirst : key first = k
    · simp [upsert, hfirst, hf]
    · rw [upsert, if_neg (by simpa using hfirst), List.map_cons, ih]
      by_cases hmem : k ∈ others.map key
      · rw [if_pos hmem, List.map_cons, if_pos (List.mem_cons_of_mem _ hmem)]
      · have hnot : k ∉ key first :: others.map key := by
          simpa [hmem] using Ne.symm hfirst
        rw [if_neg hmem, List.map_cons, if_neg hnot, List.cons_append]

/-- Changes by name keep names unique. -/
theorem nodup_upsertAll {keyOf : β → String} {fresh : β → α} {step : β → α → α}
    (hfresh : ∀ b, key (fresh b) = keyOf b) (hstep : ∀ b a, key (step b a) = key a)
    {items : List α} (hitems : (items.map key).Nodup) (changes : List β) :
    ((upsertAll key keyOf fresh step items changes).map key).Nodup := by
  induction changes generalizing items with
  | nil => exact hitems
  | cons b changes ih =>
    refine ih ?_
    have hkey : key (step b (fresh b)) = keyOf b := (hstep b _).trans (hfresh b)
    rw [map_key_upsert hkey (hstep b)]
    split
    · exact hitems
    · rename_i hnew
      rw [← List.concat_eq_append]
      exact hitems.concat hnew

/-- With unique names, every item is the one that is found by its name. -/
theorem find?_key_eq_some {items : List α} (hitems : (items.map key).Nodup) {a : α}
    (ha : a ∈ items) : items.find? (fun b => key b == key a) = some a := by
  cases hfound : items.find? fun b => key b == key a with
  | none => exact absurd (List.find?_eq_none.mp hfound a ha) (by simp)
  | some found =>
    have hkey : key found = key a := by simpa using List.find?_some hfound
    rw [List.inj_on_of_nodup_map hitems (List.mem_of_find?_eq_some hfound) ha hkey]

/-- With unique names, every item is the only one of its name. -/
theorem filter_key_eq_singleton {items : List α} (hitems : (items.map key).Nodup) {a : α}
    (ha : a ∈ items) : (items.filter fun b => key b == key a) = [a] := by
  induction items with
  | nil => cases ha
  | cons first others ih =>
    obtain ⟨hfirst, hothers⟩ := List.nodup_cons.mp hitems
    rcases List.mem_cons.mp ha with rfl | ha
    · have hnone : (others.filter fun b => key b == key a) = [] :=
        List.filter_eq_nil_iff.mpr fun b hb heq =>
          hfirst (List.mem_map.mpr ⟨b, hb, beq_iff_eq.mp heq⟩)
      rw [List.filter_cons_of_pos (by simp), hnone]
    · have hne : key first ≠ key a := fun heq => hfirst (List.mem_map.mpr ⟨a, ha, heq.symm⟩)
      rw [List.filter_cons_of_neg (by simpa using hne), ih hothers ha]

/-- Every item that changes make has gone through the changes of its name. -/
theorem exists_of_mem_upsertAll {keyOf : β → String} {fresh : β → α} {step : β → α → α}
    (hfresh : ∀ b, key (fresh b) = keyOf b) (hstep : ∀ b a, key (step b a) = key a)
    {changes : List β} {a : α} (ha : a ∈ upsertAll key keyOf fresh step [] changes) :
    ∃ first rest, (changes.filter fun b => keyOf b == key a) = first :: rest ∧
      a = (first :: rest).foldl (fun a b => step b a) (fresh first) := by
  have hunique := @nodup_upsertAll α β key keyOf fresh step hfresh hstep [] List.nodup_nil changes
  have hfound := find?_key_eq_some hunique ha
  cases hchanges : changes.filter fun b => keyOf b == key a with
  | nil =>
    rw [find?_upsertAll hfresh hstep, hchanges] at hfound
    cases hfound
  | cons first rest =>
    rw [find?_upsertAll_nil hfresh hstep hchanges] at hfound
    exact ⟨first, rest, rfl, (Option.some.inj hfound).symm⟩

/-! ## Different names -/

/-- An item of a new name is added at the end. -/
theorem upsert_of_notMem {k : String} {fresh : α} {f : α → α} {items : List α}
    (h : k ∉ items.map key) : upsert (fun a => key a == k) fresh f items = items ++ [f fresh] := by
  induction items with
  | nil => rfl
  | cons first items ih =>
    rw [List.map_cons, List.mem_cons, not_or] at h
    have hfirst : (key first == k) = false := beq_eq_false_iff_ne.mpr (Ne.symm h.1)
    rw [upsert, hfirst, if_neg Bool.false_ne_true, ih h.2]
    rfl

/-- Changes of different new names make one item each. -/
theorem upsertAll_of_nodup {keyOf : β → String} {fresh : β → α} {step : β → α → α}
    (hkey : ∀ b, key (step b (fresh b)) = keyOf b) {items : List α} {changes : List β}
    (h : (items.map key ++ changes.map keyOf).Nodup) :
    upsertAll key keyOf fresh step items changes =
      items ++ changes.map fun b => step b (fresh b) := by
  induction changes generalizing items with
  | nil => exact (List.append_nil items).symm
  | cons b changes ih =>
    have hnew : keyOf b ∉ items.map key := fun hmem =>
      List.disjoint_of_nodup_append h hmem List.mem_cons_self
    have hnext : ((items ++ [step b (fresh b)]).map key ++ changes.map keyOf).Nodup := by
      simpa [hkey] using h
    show upsertAll key keyOf fresh step (upsert _ (fresh b) (step b) items) changes = _
    rw [upsert_of_notMem hnew, ih hnext, List.map_cons, List.append_assoc]
    rfl

/-- Changes of different names make one item each, and nothing else. -/
theorem upsertAll_empty_of_nodup {keyOf : β → String} {fresh : β → α} {step : β → α → α}
    (hkey : ∀ b, key (step b (fresh b)) = keyOf b) {changes : List β}
    (h : (changes.map keyOf).Nodup) :
    upsertAll key keyOf fresh step [] changes = changes.map fun b => step b (fresh b) :=
  upsertAll_of_nodup hkey h

end Federation
