import Federation.Proofs.Ingestion.Schema
import Federation.Proofs.Validation.Rules
import Mathlib.Data.List.Forall2

/-!
# Steps that report nothing

Everything that is reported while a schema is taken in is fatal. So if nothing fatal is found in a
subgraph, no step has gone the way on which it reports something, and what a step does can be told
without that way. Most steps only mention texts and leave the types alone.
-/

namespace Federation

/-- A subgraph without what is only noted by the way: its roots, the features that it uses and what
was found. -/
def Subgraph.core (s : Subgraph) : Subgraph :=
  { s with roots := {}, features := {}, diagnostics := [] }

namespace Ingestion

variable {α β ι : Type} {R : Subgraph → α → Subgraph → Prop}

/-- If nothing fatal is found by the end of a step, nothing fatal was found before it, and the step
is related to its answer as told. -/
def Achieves (x : Ingestion α) (R : Subgraph → α → Subgraph → Prop) : Prop :=
  ∀ p : Progress, (x.run p).2.subgraph.diagnostics.anyFatal = false →
    p.subgraph.diagnostics.anyFatal = false ∧
      R p.subgraph.core (x.run p).1 (x.run p).2.subgraph.core

/-- A step that leaves the subgraph as it is. -/
def Silent (x : Ingestion α) : Prop :=
  Achieves x fun s _ t => t = s

theorem achieves_pure (a : α) : Achieves (pure a) fun s b t => b = a ∧ t = s :=
  fun _ hquiet => ⟨hquiet, rfl, rfl⟩

theorem Achieves.mono {x : Ingestion α} {R' : Subgraph → α → Subgraph → Prop} (h : Achieves x R)
    (hR : ∀ s a t, R s a t → R' s a t) : Achieves x R' :=
  fun p hquiet => ⟨(h p hquiet).1, hR _ _ _ (h p hquiet).2⟩

theorem Achieves.bind {x : Ingestion α} {k : α → Ingestion β}
    {S : α → Subgraph → β → Subgraph → Prop} (hx : Achieves x R) (hk : ∀ a, Achieves (k a) (S a)) :
    Achieves (x >>= k) fun s b t => ∃ a u, R s a u ∧ S a u b t := by
  intro p hquiet
  obtain ⟨hbetween, hS⟩ := hk (x.run p).1 (x.run p).2 hquiet
  obtain ⟨hbefore, hR⟩ := hx p hbetween
  exact ⟨hbefore, (x.run p).1, _, hR, hS⟩

theorem Silent.bind {x : Ingestion α} {k : α → Ingestion β} {S : Subgraph → β → Subgraph → Prop}
    (hx : Silent x) (hk : ∀ a, Achieves (k a) S) : Achieves (x >>= k) S := by
  refine (Achieves.bind hx hk).mono ?_
  rintro s b t ⟨_, _, rfl, h⟩
  exact h

/-! ### Primitive steps -/

/-- A step that looks at the subgraph. -/
theorem achieves_subgraph_bind {k : Subgraph → Ingestion α}
    (hk : ∀ full : Subgraph, Achieves (k full) fun s a t => full.core = s → R s a t) :
    Achieves (subgraph >>= k) R :=
  fun p hquiet => ⟨(hk p.subgraph p hquiet).1, (hk p.subgraph p hquiet).2 rfl⟩

/-- A change that finds nothing, and what it changes besides what is noted by the way. -/
theorem achieves_modifySubgraph {f g : Subgraph → Subgraph}
    (hdiagnostics : ∀ s, (f s).diagnostics = s.diagnostics)
    (hcore : ∀ s, (f s).core = g s.core) :
    Achieves (modifySubgraph f) fun s _ t => t = g s := by
  intro p hquiet
  have hrun : ((modifySubgraph f).run p).2.subgraph = f p.subgraph := rfl
  rw [hrun] at hquiet ⊢
  rw [hdiagnostics] at hquiet
  exact ⟨hquiet, hcore _⟩

theorem achieves_modifyDefinition (name : String) (f : TypeDef → TypeDef) :
    Achieves (modifyDefinition name f) fun s _ t => t = s.modifyDefinition name f :=
  achieves_modifySubgraph (fun _ => rfl) fun _ => rfl

/-- A report is fatal. -/
theorem achieves_report {R : Subgraph → Unit → Subgraph → Prop} (code : ErrorCode)
    (message : String) : Achieves (report code message) R := by
  intro p hquiet
  have hrun : ((report code message).run p).2.subgraph.diagnostics =
      p.subgraph.diagnostics ++ [.error code s!"[{p.subgraph.name}] {message}"] := rfl
  rw [hrun] at hquiet
  exact absurd (Diagnostic.isFatal_error _ _)
    (List.any_eq_false.mp hquiet _ (List.mem_append_right _ (List.mem_singleton_self _)))

/-- After a report nothing has to be known. -/
theorem achieves_report_pure {R : Subgraph → α → Subgraph → Prop} (code : ErrorCode)
    (message : String) (a : α) : Achieves (do report code message; return a) R := by
  refine (Achieves.bind (achieves_report (R := fun _ _ _ => False) code message)
    fun _ => achieves_pure a).mono ?_
  rintro s b t ⟨_, _, hloud, -⟩
  exact hloud.elim

/-! ### Silent steps -/

theorem silent_pure (a : α) : Silent (pure a : Ingestion α) :=
  fun _ hquiet => ⟨hquiet, rfl⟩

theorem silent_mention (text : String) : Silent (mention text) :=
  fun _ hquiet => ⟨hquiet, rfl⟩

theorem silent_mentionAll (texts : List String) : Silent (mentionAll texts) :=
  fun _ hquiet => ⟨hquiet, rfl⟩

theorem silent_mentionOptional (text : Option String) : Silent (mentionOptional text) := by
  cases text with
  | none => exact silent_pure ()
  | some text => exact silent_mention text

theorem silent_useFeatures (features : Features) : Silent (useFeatures features) :=
  fun _ hquiet => ⟨hquiet, rfl⟩

theorem silent_passLimit : Silent passLimit :=
  fun _ hquiet => ⟨hquiet, rfl⟩

theorem silent_describe (description : Option Document.Description) :
    Silent (describe description) := by
  unfold describe
  split
  · exact silent_pure none
  · split
    · exact silent_passLimit.bind fun _ => silent_pure none
    · exact (silent_mention _).bind fun _ => silent_pure _

theorem silent_mentionType (type : TypeRef) : Silent (mentionType type) := by
  unfold mentionType
  split
  · exact silent_passLimit.bind fun _ => silent_mention _
  · exact silent_mention _

theorem silent_readFieldSet (text : String) : Silent (readFieldSet text) := by
  intro p hquiet
  rw [run_readFieldSet] at hquiet ⊢
  exact ⟨hquiet, rfl⟩

/-! ### Repetition -/

/-- What holds of no items, and of one item more after its step, holds of all items in the end. -/
theorem achieves_forM {items : List ι} {step : ι → Ingestion Unit}
    {S : ι → Subgraph → Subgraph → Prop} {I : List ι → Subgraph → Subgraph → Prop}
    (hstep : ∀ i ∈ items, Achieves (step i) fun s _ t => S i s t)
    (hnil : ∀ s, I [] s s)
    (hcons : ∀ i others s t u, S i s t → I others t u → I (i :: others) s u) :
    Achieves (items.forM step) fun s _ t => I items s t := by
  induction items with
  | nil =>
    refine (silent_pure ()).mono ?_
    rintro s _ t rfl
    exact hnil t
  | cons first others ih =>
    obtain ⟨hfirst, hothers⟩ := List.forall_mem_cons.mp hstep
    refine (hfirst.bind fun _ => ih hothers).mono ?_
    rintro s _ u ⟨_, t, hS, hI⟩
    exact hcons first others s t u hS hI

theorem achieves_mapM {items : List ι} {step : ι → Ingestion α} {P : Subgraph → ι → α → Prop}
    (hstep : ∀ i, Achieves (step i) fun s a t => t = s ∧ P s i a) :
    Achieves (items.mapM step) fun s as t => t = s ∧ List.Forall₂ (P s) items as := by
  induction items with
  | nil =>
    rw [List.mapM_nil]
    refine (achieves_pure []).mono ?_
    rintro s as t ⟨rfl, rfl⟩
    exact ⟨rfl, .nil⟩
  | cons first others ih =>
    rw [List.mapM_cons]
    refine ((hstep first).bind fun _ => ih.bind fun _ => achieves_pure _).mono ?_
    rintro s _ t ⟨a, _, ⟨rfl, hfirst⟩, as, _, ⟨rfl, hothers⟩, rfl, rfl⟩
    exact ⟨rfl, .cons hfirst hothers⟩

end Ingestion

end Federation
