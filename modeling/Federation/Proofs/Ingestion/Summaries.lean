import Federation.Proofs.Ingestion.Schema
import Mathlib.Algebra.Group.Defs
import Mathlib.Data.Multiset.AddSub
import Mathlib.Logic.Function.Basic

/-!
# Subgraphs in the making, up to order

What has been taken in of a schema is summed up by the types by name and by what was noted by the
way, in any order. Many steps only note something by the way. Others are about one type: they change
no other type, and look at nothing of the other types but what they have in view. Steps about
different types can be taken in either order, so it only matters which steps about each type are
taken, and in which order among themselves.
-/

namespace Federation

/-! ## Types without places -/

/-- The field without the information whether it stands in an extension. -/
def Field.placeless (f : Field) : Field :=
  { f with inExtension := false }

/-- The type without the information which fields stand in extensions. -/
def TypeDef.placeless (d : TypeDef) : TypeDef :=
  { d with fields := d.fields.map Field.placeless }

theorem TypeDef.field?_placeless (d : TypeDef) (name : String) :
    d.placeless.field? name = (d.field? name).map Field.placeless :=
  List.find?_map

namespace Subgraph

/-- What stays the same of a subgraph while types are taken in. -/
def context (s : Subgraph) : Subgraph :=
  { s with roots := {}, features := {}, definitions := [], diagnostics := [] }

/-- Only the type of the name changes. -/
theorem definition?_modifyDefinition (s : Subgraph) {name : String} {f : TypeDef → TypeDef}
    (hname : ∀ d, (f d).name = d.name) (other : String) :
    (s.modifyDefinition name f).definition? other =
      if other = name then (s.definition? other).map f else s.definition? other := by
  have htest : ((fun d : TypeDef => d.name == other) ∘ fun d => if d.name == name then f d else d) =
      fun d => d.name == other := by
    funext d
    show ((if d.name == name then f d else d).name == other) = (d.name == other)
    split
    · rw [hname]
    · rfl
  show ((s.definitions.map _).find? _) = _
  rw [List.find?_map, htest]
  cases hfound : s.definition? other with
  | none =>
    have hnone : s.definitions.find? (fun d => d.name == other) = none := hfound
    rw [hnone]
    split <;> rfl
  | some d =>
    have hsome : s.definitions.find? (fun d => d.name == other) = some d := hfound
    obtain rfl := name_of_definition? hfound
    rw [hsome]
    split
    · rename_i heq
      simp [heq]
    · rename_i hne
      simp [hne]

/-- A type that comes last is found if no other type has its name. -/
theorem definition?_append (s : Subgraph) (d : TypeDef) (other : String) :
    definition? { s with definitions := s.definitions ++ [d] } other =
      (s.definition? other).or (if d.name = other then some d else none) := by
  show (s.definitions ++ [d]).find? _ = _
  rw [List.find?_append]
  by_cases heq : d.name = other
  · simp [definition?, heq]
  · simp [definition?, heq]

end Subgraph

/-! ## Notes -/

theorem Features.union_assoc (a b c : Features) : (a.union b).union c = a.union (b.union c) := by
  simp only [union, Bool.or_assoc]

theorem Features.union_comm (a b : Features) : a.union b = b.union a := by
  simp only [union, Bool.or_comm]

theorem Features.union_empty (a : Features) : a.union {} = a := by
  simp only [union, Bool.or_false]

/-- What is noted by the way, in any order. -/
@[ext]
structure Note where
  diagnostics : Multiset Diagnostic := 0
  features : Features := {}
  /-- The kinds of operations for which a root is registered. -/
  roots : RootOperation → Bool := fun _ => false
  isBeyondLimit : Bool := false

namespace Note

instance : Zero Note :=
  ⟨{}⟩

instance : Add Note where
  add n m :=
    { diagnostics := n.diagnostics + m.diagnostics
      features := n.features.union m.features
      roots := fun root => n.roots root || m.roots root
      isBeyondLimit := n.isBeyondLimit || m.isBeyondLimit }

/-- Notes add up in any order. -/
instance : AddCommMonoid Note where
  add_assoc _ _ _ := Note.ext (Multiset.add_assoc _ _ _) (Features.union_assoc _ _ _)
    (funext fun _ => Bool.or_assoc _ _ _) (Bool.or_assoc _ _ _)
  zero_add _ := Note.ext (Multiset.zero_add _)
    ((Features.union_comm _ _).trans (Features.union_empty _)) (funext fun _ => Bool.false_or _)
    (Bool.false_or _)
  add_zero _ := Note.ext (Multiset.add_zero _) (Features.union_empty _)
    (funext fun _ => Bool.or_false _) (Bool.or_false _)
  add_comm _ _ := Note.ext (Multiset.add_comm _ _) (Features.union_comm _ _)
    (funext fun _ => Bool.or_comm _ _) (Bool.or_comm _ _)
  nsmul := nsmulRec

end Note

/-! ## Summaries -/

/-- The name under which the type of a root is composed. -/
def RootTypes.rootName (r : RootTypes) (root : RootOperation) : String :=
  r.canonicalName ((r.get root).getD root.typeName)

/-- What has been taken in of a schema, up to order and to places. -/
@[ext]
structure Summary where
  context : Subgraph
  types : String → Option TypeDef
  diagnostics : Multiset Diagnostic
  features : Features
  roots : RootOperation → Option String
  isBeyondLimit : Bool

namespace Summary

/-- More is noted by the way. -/
def tell (r : RootTypes) (σ : Summary) (n : Note) : Summary where
  context := σ.context
  types := σ.types
  diagnostics := σ.diagnostics + n.diagnostics
  features := σ.features.union n.features
  roots := fun root => if n.roots root then some (r.rootName root) else σ.roots root
  isBeyondLimit := σ.isBeyondLimit || n.isBeyondLimit

/-- The type of a name is replaced. -/
def put (σ : Summary) (name : String) (d : Option TypeDef) : Summary :=
  { σ with types := Function.update σ.types name d }

variable (r : RootTypes) (σ : Summary)

@[simp] theorem tell_zero : σ.tell r 0 = σ :=
  Summary.ext rfl rfl (Multiset.add_zero _) (Features.union_empty _) rfl (Bool.or_false _)

theorem tell_tell (n m : Note) : (σ.tell r n).tell r m = σ.tell r (n + m) := by
  refine Summary.ext rfl rfl (Multiset.add_assoc _ _ _) (Features.union_assoc _ _ _) ?_
    (Bool.or_assoc _ _ _)
  funext root
  show (if m.roots root then _ else if n.roots root then _ else σ.roots root) =
    if (n.roots root || m.roots root) then _ else σ.roots root
  cases m.roots root <;> cases n.roots root <;> rfl

@[simp] theorem put_types_self (name : String) : σ.put name (σ.types name) = σ := by
  simp [put]

@[simp] theorem types_put_self (name : String) (d : Option TypeDef) :
    (σ.put name d).types name = d :=
  Function.update_self ..

theorem types_put_of_ne {name other : String} (h : other ≠ name) (d : Option TypeDef) :
    (σ.put name d).types other = σ.types other :=
  Function.update_of_ne h ..

@[simp] theorem put_put (name : String) (d e : Option TypeDef) :
    (σ.put name d).put name e = σ.put name e := by
  simp [put]

theorem put_comm {name other : String} (h : name ≠ other) (d e : Option TypeDef) :
    (σ.put name d).put other e = (σ.put other e).put name d := by
  simp [put, Function.update_comm h]

theorem put_tell (name : String) (d : Option TypeDef) (n : Note) :
    (σ.tell r n).put name d = (σ.put name d).tell r n :=
  rfl

end Summary

/-- The summary of a state. -/
def Progress.summary (p : Progress) : Summary where
  context := p.subgraph.context
  types := fun name => (p.subgraph.definition? name).map TypeDef.placeless
  diagnostics := p.subgraph.diagnostics
  features := p.subgraph.features
  roots := p.subgraph.roots.get
  isBeyondLimit := p.isBeyondLimit

namespace Ingestion

variable {α β ι ι' V : Type} {r : RootTypes} {c : Subgraph}

/-! ## Asides -/

/-- In a context, a step gives an answer and notes something by the way. -/
def Answers (r : RootTypes) (x : Ingestion α) (c : Subgraph) (a : α) (n : Note) : Prop :=
  ∀ p : Progress, p.summary.context = c →
    (x.run p).1 = a ∧ (x.run p).2.summary = p.summary.tell r n

/-- A step that only notes something by the way, depending on the context only. -/
def IsAside (r : RootTypes) (x : Ingestion α) : Prop :=
  ∀ c, ∃ a n, Answers r x c a n

theorem answers_pure (a : α) : Answers r (pure a) c a 0 :=
  fun p _ => ⟨rfl, (p.summary.tell_zero r).symm⟩

theorem Answers.bind {x : Ingestion α} {k : α → Ingestion β} {a : α} {b : β} {n m : Note}
    (hx : Answers r x c a n) (hk : Answers r (k a) c b m) : Answers r (x >>= k) c b (n + m) := by
  intro p hp
  obtain ⟨rfl, hn⟩ := hx p hp
  obtain ⟨rfl, hm⟩ := hk (x.run p).2 (by rw [hn]; exact hp)
  rw [hn, Summary.tell_tell] at hm
  exact ⟨rfl, hm⟩

theorem isAside_pure (a : α) : IsAside r (pure a : Ingestion α) :=
  fun _ => ⟨a, 0, answers_pure a⟩

theorem IsAside.bind {x : Ingestion α} {k : α → Ingestion β} (hx : IsAside r x)
    (hk : ∀ a, IsAside r (k a)) : IsAside r (x >>= k) := by
  intro c
  obtain ⟨a, n, ha⟩ := hx c
  obtain ⟨b, m, hb⟩ := hk a c
  exact ⟨b, n + m, ha.bind hb⟩

/-- A step that looks at the context. -/
theorem isAside_subgraph_bind {k : Subgraph → Ingestion α} (hk : ∀ s, k s = k s.context)
    (h : ∀ s, IsAside r (k s)) : IsAside r (subgraph >>= k) := by
  intro c
  obtain ⟨a, n, ha⟩ := h c c
  refine ⟨a, n, fun p hp => ?_⟩
  have hrun : (subgraph >>= k).run p = (k c).run p := by
    show (k p.subgraph).run p = (k c).run p
    rw [hk, ← hp]
    rfl
  rw [hrun]
  exact ha p hp

theorem isAside_foldlM {items : List ι} {step : β → ι → Ingestion β}
    (h : ∀ b i, IsAside r (step b i)) (b : β) : IsAside r (items.foldlM step b) := by
  induction items generalizing b with
  | nil => exact isAside_pure b
  | cons first others ih =>
    rw [List.foldlM_cons]
    exact (h b first).bind ih

theorem isAside_mapM {step : ι → Ingestion α} (h : ∀ i, IsAside r (step i)) (items : List ι) :
    IsAside r (items.mapM step) := by
  induction items with
  | nil =>
    rw [List.mapM_nil]
    exact isAside_pure []
  | cons first others ih =>
    rw [List.mapM_cons]
    exact (h first).bind fun _ => ih.bind fun _ => isAside_pure _

/-! ## Steps about one type -/

/-- What a step may look at besides the type that it is about. -/
structure View (V : Type) where
  see : Summary → V
  context : V → Subgraph
  context_see : ∀ σ, context (see σ) = σ.context
  see_tell : ∀ r σ n, see (σ.tell r n) = see σ

/-- Only the context is in view. -/
def View.plain : View Subgraph :=
  ⟨Summary.context, id, fun _ => rfl, fun _ _ _ => rfl⟩

/-- The context and the kinds of all types are in view. -/
def View.kinds : View (Subgraph × (String → Option TypeKind)) :=
  ⟨fun σ => (σ.context, fun name => (σ.types name).map TypeDef.kind), Prod.fst, fun _ => rfl,
    fun _ _ _ => rfl⟩

section

variable {view : View V} {v : V} {name : String} {d d' d'' : Option TypeDef} {n m : Note}

/-- From a view and a type on, a step gives an answer, replaces the type and notes something by the
way. What is in view stays. -/
def Acts (r : RootTypes) (view : View V) (name : String) (x : Ingestion α) (v : V)
    (d : Option TypeDef) (a : α) (d' : Option TypeDef) (n : Note) : Prop :=
  ∀ p : Progress, view.see p.summary = v → p.summary.types name = d →
    (x.run p).1 = a ∧ (x.run p).2.summary = (p.summary.put name d').tell r n ∧
      view.see (p.summary.put name d') = v

theorem Acts.bind {x : Ingestion α} {k : α → Ingestion β} {a : α} {b : β}
    (hx : Acts r view name x v d a d' n) (hk : Acts r view name (k a) v d' b d'' m) :
    Acts r view name (x >>= k) v d b d'' (n + m) := by
  intro p hp hd
  obtain ⟨rfl, hn, hv⟩ := hx p hp hd
  have hsee : view.see (x.run p).2.summary = v := by
    rw [hn, view.see_tell]
    exact hv
  have htype : (x.run p).2.summary.types name = d' := by
    rw [hn]
    exact p.summary.types_put_self name d'
  obtain ⟨rfl, hm, hv'⟩ := hk (x.run p).2 hsee htype
  rw [hn, Summary.put_tell, Summary.put_put] at hm hv'
  rw [Summary.tell_tell] at hm
  rw [view.see_tell] at hv'
  exact ⟨rfl, hm, hv'⟩

/-- One step comes after the other. -/
theorem Acts.seq {x : Ingestion α} {y : Ingestion β} {a : α} {b : β}
    (hx : Acts r view name x v d a d' n) (hy : Acts r view name y v d' b d'' m) :
    Acts r view name (x >>= fun _ => y) v d b d'' (n + m) :=
  hx.bind hy

/-- A step that notes nothing comes first. -/
theorem Acts.silent_seq {x : Ingestion α} {y : Ingestion β} {a : α} {b : β}
    (hx : Acts r view name x v d a d' 0) (hy : Acts r view name y v d' b d'' m) :
    Acts r view name (x >>= fun _ => y) v d b d'' m :=
  zero_add m ▸ hx.bind hy

/-- An answer is given at the end. -/
theorem Acts.bind_pure {x : Ingestion α} {a : α} (hx : Acts r view name x v d a d' n) (b : β) :
    Acts r view name (x >>= fun _ => pure b) v d b d' n := by
  intro p hp hd
  obtain ⟨-, hn⟩ := hx p hp hd
  exact ⟨rfl, hn⟩

/-- An aside leaves the type as it is. -/
theorem Answers.acts {x : Ingestion α} {a : α} (h : Answers r x (view.context v) a n) :
    Acts r view name x v d a d n := by
  rintro p rfl rfl
  obtain ⟨ha, hn⟩ := h p (view.context_see _).symm
  rw [Summary.put_types_self]
  exact ⟨ha, hn, rfl⟩

/-- A step that looks at the type and at what is in view. -/
theorem acts_subgraph_bind {k : Subgraph → Ingestion α} {y : Ingestion α} {a : α}
    (hk : ∀ p : Progress, view.see p.summary = v → p.summary.types name = d → k p.subgraph = y)
    (h : Acts r view name y v d a d' n) : Acts r view name (subgraph >>= k) v d a d' n := by
  intro p hp hd
  have hrun : (subgraph >>= k).run p = y.run p := by
    show (k p.subgraph).run p = y.run p
    rw [hk p hp hd]
  rw [hrun]
  exact h p hp hd

/-- A change of the type that does not depend on places. -/
theorem acts_modifyDefinition {f g : TypeDef → TypeDef} (hname : ∀ d, (f d).name = d.name)
    (hg : ∀ d, (f d).placeless = g d.placeless)
    (hsee : ∀ σ, view.see (σ.put name ((σ.types name).map g)) = view.see σ) :
    Acts r view name (modifyDefinition name f) v d () (d.map g) 0 := by
  rintro p rfl rfl
  refine ⟨rfl, ?_, hsee _⟩
  rw [Summary.tell_zero]
  refine Summary.ext rfl (funext fun other => ?_) rfl rfl rfl rfl
  show ((p.subgraph.modifyDefinition name f).definition? other).map TypeDef.placeless = _
  rw [Subgraph.definition?_modifyDefinition _ hname]
  by_cases heq : other = name
  · subst heq
    rw [if_pos rfl, Summary.types_put_self]
    show _ = ((p.subgraph.definition? other).map TypeDef.placeless).map g
    rw [Option.map_map, Option.map_map,
      show TypeDef.placeless ∘ f = g ∘ TypeDef.placeless from funext hg]
  · rw [if_neg heq, Summary.types_put_of_ne _ heq]
    rfl

/-- The steps are about the type, and do the same to it. -/
def AlikeAbout (r : RootTypes) (view : View V) (name : String) (x y : Ingestion α) : Prop :=
  ∀ v d, ∃ a d' n, Acts r view name x v d a d' n ∧ Acts r view name y v d a d' n

theorem IsAside.alikeAbout {x : Ingestion α} (h : IsAside r x) : AlikeAbout r view name x x := by
  intro v d
  obtain ⟨a, n, ha⟩ := h (view.context v)
  exact ⟨a, d, n, ha.acts, ha.acts⟩

theorem AlikeAbout.bind {x y : Ingestion α} {k l : α → Ingestion β}
    (hx : AlikeAbout r view name x y) (hk : ∀ a, AlikeAbout r view name (k a) (l a)) :
    AlikeAbout r view name (x >>= k) (y >>= l) := by
  intro v d
  obtain ⟨a, d', n, hx, hy⟩ := hx v d
  obtain ⟨b, d'', m, hk, hl⟩ := hk a v d'
  exact ⟨b, d'', n + m, hx.bind hk, hy.bind hl⟩

/-- Steps that look at the type and at what is in view. -/
theorem alikeAbout_subgraph_bind {k l : Subgraph → Ingestion α}
    (k' l' : V → Option TypeDef → Ingestion α)
    (hk : ∀ p : Progress, k p.subgraph = k' (view.see p.summary) (p.summary.types name))
    (hl : ∀ p : Progress, l p.subgraph = l' (view.see p.summary) (p.summary.types name))
    (h : ∀ v d, AlikeAbout r view name (k' v d) (l' v d)) :
    AlikeAbout r view name (subgraph >>= k) (subgraph >>= l) := by
  intro v d
  obtain ⟨a, d', n, hx, hy⟩ := h v d v d
  refine ⟨a, d', n, acts_subgraph_bind (fun p hp hd => ?_) hx,
    acts_subgraph_bind (fun p hp hd => ?_) hy⟩
  · rw [hk, hp, hd]
  · rw [hl, hp, hd]

theorem alikeAbout_modifyDefinition {f f' g : TypeDef → TypeDef}
    (hname : ∀ d, (f d).name = d.name) (hname' : ∀ d, (f' d).name = d.name)
    (hg : ∀ d, (f d).placeless = g d.placeless) (hg' : ∀ d, (f' d).placeless = g d.placeless)
    (hsee : ∀ σ, view.see (σ.put name ((σ.types name).map g)) = view.see σ) :
    AlikeAbout r view name (modifyDefinition name f) (modifyDefinition name f') :=
  fun _ d => ⟨(), d.map g, 0, acts_modifyDefinition hname hg hsee,
    acts_modifyDefinition hname' hg' hsee⟩

theorem alikeAbout_forM {items : List ι} {step step' : ι → Ingestion Unit}
    (h : ∀ i, AlikeAbout r view name (step i) (step' i)) :
    AlikeAbout r view name (items.forM step) (items.forM step') := by
  induction items with
  | nil => exact (isAside_pure ()).alikeAbout
  | cons first others ih => exact (h first).bind fun _ => ih

end

/-! ## Steps that do the same -/

/-- From states of some summaries on, the steps give the same answer and lead to states of the same
summary. -/
def AgreeFrom (I : Summary → Prop) (x y : Ingestion α) : Prop :=
  ∀ p q : Progress, I p.summary → p.summary = q.summary →
    (x.run p).1 = (y.run q).1 ∧ (x.run p).2.summary = (y.run q).2.summary

/-- The steps do the same from every state on. -/
def Agree (x y : Ingestion α) : Prop :=
  AgreeFrom (fun _ => True) x y

variable {I : Summary → Prop} {x y z : Ingestion α}

theorem Agree.agreeFrom (h : Agree x y) : AgreeFrom I x y :=
  fun p q _ heq => h p q trivial heq

theorem AgreeFrom.symm (h : AgreeFrom I x y) : AgreeFrom I y x := by
  intro p q hp heq
  obtain ⟨ha, hsummary⟩ := h q p (heq ▸ hp) heq.symm
  exact ⟨ha.symm, hsummary.symm⟩

theorem AgreeFrom.trans (h : AgreeFrom I x y) (h' : AgreeFrom I y z) : AgreeFrom I x z := by
  intro p q hp heq
  obtain ⟨ha, hsummary⟩ := h p q hp heq
  obtain ⟨ha', hsummary'⟩ := h' q q (heq ▸ hp) rfl
  exact ⟨ha.trans ha', hsummary.trans hsummary'⟩

theorem AgreeFrom.bind {k l : α → Ingestion β} (h : AgreeFrom I x y)
    (hk : ∀ a, Agree (k a) (l a)) : AgreeFrom I (x >>= k) (y >>= l) := by
  intro p q hp heq
  obtain ⟨ha, hsummary⟩ := h p q hp heq
  show ((k (x.run p).1).run _).1 = ((l (y.run q).1).run _).1 ∧
    ((k (x.run p).1).run _).2.summary = ((l (y.run q).1).run _).2.summary
  rw [ha]
  exact hk _ _ _ trivial hsummary

/-- What comes after a step may count on what the step achieves. -/
theorem AgreeFrom.bind_of_keeps {J : Summary → Prop} {k l : α → Ingestion β} (h : AgreeFrom I x y)
    (hkeeps : ∀ p : Progress, I p.summary → J (x.run p).2.summary)
    (hk : ∀ a, AgreeFrom J (k a) (l a)) : AgreeFrom I (x >>= k) (y >>= l) := by
  intro p q hp heq
  obtain ⟨ha, hsummary⟩ := h p q hp heq
  show ((k (x.run p).1).run _).1 = ((l (y.run q).1).run _).1 ∧
    ((k (x.run p).1).run _).2.summary = ((l (y.run q).1).run _).2.summary
  rw [ha]
  exact hk _ _ _ (hkeeps p hp) hsummary

/-- Steps that are alike about a type do the same. -/
theorem AlikeAbout.agree {view : View V} {name : String} (h : AlikeAbout r view name x y) :
    Agree x y := by
  intro p q _ heq
  obtain ⟨a, d, n, hx, hy⟩ := h (view.see p.summary) (p.summary.types name)
  obtain ⟨ha, hn, -⟩ := hx p rfl rfl
  obtain ⟨ha', hn', -⟩ := hy q (heq ▸ rfl) (heq ▸ rfl)
  exact ⟨ha.trans ha'.symm, by rw [hn, hn', heq]⟩

/-- A step about a type keeps the context. -/
theorem AlikeAbout.context_eq {view : View V} {name : String} (h : AlikeAbout r view name x x)
    (p : Progress) : (x.run p).2.summary.context = p.summary.context := by
  obtain ⟨a, d, n, hx, -⟩ := h (view.see p.summary) (p.summary.types name)
  obtain ⟨-, hn, -⟩ := hx p rfl rfl
  rw [hn]
  rfl

/-- Steps about different types can be taken in either order. -/
theorem AlikeAbout.comm {view : View V} {name other : String} {x y : Ingestion Unit}
    (hne : name ≠ other) (hx : AlikeAbout r view name x x) (hy : AlikeAbout r view other y y) :
    Agree (x >>= fun _ => y) (y >>= fun _ => x) := by
  intro p q _ heq
  obtain ⟨_, d, n, hx, -⟩ := hx (view.see p.summary) (p.summary.types name)
  obtain ⟨_, e, m, hy, -⟩ := hy (view.see p.summary) (p.summary.types other)
  obtain ⟨-, hn, hsee⟩ := hx p rfl rfl
  obtain ⟨-, hm, hsee'⟩ := hy q (heq ▸ rfl) (heq ▸ rfl)
  rw [← heq] at hm hsee'
  -- each step finds the other type as it was before
  obtain ⟨-, hnm, -⟩ := hy (x.run p).2 (by rw [hn, view.see_tell, hsee])
    (by rw [hn]; exact p.summary.types_put_of_ne hne.symm d)
  obtain ⟨-, hmn, -⟩ := hx (y.run q).2 (by rw [hm, view.see_tell, hsee'])
    (by rw [hm]; exact p.summary.types_put_of_ne hne e)
  refine ⟨rfl, hnm.trans (Eq.trans ?_ hmn.symm)⟩
  rw [hn, hm, Summary.put_tell, Summary.put_tell, Summary.tell_tell, Summary.tell_tell,
    Summary.put_comm _ hne, add_comm n m]

/-! ## Runs -/

theorem run_append (items items' : List ι) (step : ι → Ingestion Unit) :
    (items ++ items').forM step = items.forM step >>= fun _ => items'.forM step :=
  List.forM_append

/-- A run whose steps all do nothing does nothing. -/
theorem run_forM_of_passed {step : ι → Ingestion Unit} {items : List ι} {p : Progress}
    (h : ∀ i ∈ items, (step i).run p = ((), p)) : (items.forM step).run p = ((), p) := by
  induction items with
  | nil => rfl
  | cons first others ih =>
    obtain ⟨hfirst, hothers⟩ := List.forall_mem_cons.mp h
    show (step first >>= fun _ => others.forM step).run p = ((), p)
    rw [StateT.run_bind, hfirst]
    exact ih hothers

/-- What every step of a run keeps holds in the end. -/
theorem holds_forM {step : ι → Ingestion Unit} {items : List ι}
    (h : ∀ i ∈ items, ∀ p : Progress, I p.summary → I ((step i).run p).2.summary) (p : Progress)
    (hp : I p.summary) : I ((items.forM step).run p).2.summary := by
  induction items generalizing p with
  | nil => exact hp
  | cons first others ih =>
    obtain ⟨hfirst, hothers⟩ := List.forall_mem_cons.mp h
    exact ih hothers _ (hfirst p hp)

theorem agree_forM {step step' : ι → Ingestion Unit} (h : ∀ i, Agree (step i) (step' i))
    (items : List ι) : Agree (items.forM step) (items.forM step') := by
  induction items with
  | nil => exact fun p q _ heq => ⟨rfl, heq⟩
  | cons first others ih => exact AgreeFrom.bind (h first) fun _ => ih

section

variable {step : ι → Ingestion Unit} {name : ι → String} (hself : ∀ i, Agree (step i) (step i))

include hself

/-- A step that passes every item passes a run. -/
theorem agree_forM_pass {x : Ingestion Unit} (hx : Agree x x)
    (h : ∀ i, Agree (step i >>= fun _ => x) (x >>= fun _ => step i)) (items : List ι) :
    Agree (items.forM step >>= fun _ => x) (x >>= fun _ => items.forM step) := by
  induction items with
  | nil =>
    show Agree (pure () >>= fun _ => x) (x >>= fun _ => pure ())
    rw [pure_bind, bind_pure_unit]
    exact hx
  | cons first others ih =>
    have hlast : Agree ((step first >>= fun _ => others.forM step) >>= fun _ => x)
        ((step first >>= fun _ => x) >>= fun _ => others.forM step) := by
      rw [bind_assoc, bind_assoc]
      exact AgreeFrom.bind (hself first) fun _ => ih
    have hfirst : Agree ((step first >>= fun _ => x) >>= fun _ => others.forM step)
        ((x >>= fun _ => step first) >>= fun _ => others.forM step) :=
      AgreeFrom.bind (h first) fun _ => agree_forM hself others
    have hdone := hlast.trans hfirst
    rw [bind_assoc x] at hdone
    exact hdone

/-- Two runs pass each other if their items do. -/
theorem agree_forM_comm {step' : ι' → Ingestion Unit} (hself' : ∀ j, Agree (step' j) (step' j))
    (h : ∀ i j, Agree (step i >>= fun _ => step' j) (step' j >>= fun _ => step i))
    (items : List ι) (items' : List ι') :
    Agree (items.forM step >>= fun _ => items'.forM step')
      (items'.forM step' >>= fun _ => items.forM step) := by
  refine agree_forM_pass hself (agree_forM hself' items') (fun i => ?_) items
  exact (agree_forM_pass hself' (hself i) (fun j => (h i j).symm) items').symm

variable (hcomm : ∀ i j, name i ≠ name j →
  Agree (step i >>= fun _ => step j) (step j >>= fun _ => step i))

include hcomm

/-- An item can be taken before items of other names. -/
theorem agree_forM_move {front : List ι} {item : ι} (hfront : ∀ i ∈ front, name i ≠ name item)
    (back : List ι) :
    Agree ((front ++ item :: back).forM step) ((item :: (front ++ back)).forM step) := by
  induction front with
  | nil => exact agree_forM hself _
  | cons first others ih =>
    obtain ⟨hfirst, hothers⟩ := List.forall_mem_cons.mp hfront
    have hrest := agree_forM hself (others ++ back)
    -- the item passes the other items, and then the first one
    have hpassed : Agree (step first >>= fun _ => (others ++ item :: back).forM step)
        ((step first >>= fun _ => step item) >>= fun _ => (others ++ back).forM step) := by
      rw [bind_assoc]
      exact AgreeFrom.bind (hself first) fun _ => ih hothers
    have hswapped : Agree
        ((step first >>= fun _ => step item) >>= fun _ => (others ++ back).forM step)
        ((step item >>= fun _ => step first) >>= fun _ => (others ++ back).forM step) :=
      AgreeFrom.bind (hcomm first item hfirst) fun _ => hrest
    have hdone := hpassed.trans hswapped
    rw [bind_assoc (step item)] at hdone
    exact hdone

/-- It only matters which items of each name are taken, and in which order among themselves. -/
theorem agree_forM_of_filter {items items' : List ι}
    (h : ∀ other, items.filter (fun i => name i == other) =
      items'.filter fun i => name i == other) :
    Agree (items.forM step) (items'.forM step) := by
  induction items generalizing items' with
  | nil =>
    cases items' with
    | nil => exact agree_forM hself []
    | cons first others => simpa using h (name first)
  | cons first others ih =>
    have hfirst := h (name first)
    rw [List.filter_cons, if_pos (beq_self_eq_true _), eq_comm, List.filter_eq_cons_iff] at hfirst
    obtain ⟨front, back, rfl, hfront, -, hback⟩ := hfirst
    have hne : ∀ i ∈ front, name i ≠ name first := fun i hi heq => hfront i hi (beq_iff_eq.mpr heq)
    have hrest : ∀ other, others.filter (fun i => name i == other) =
        (front ++ back).filter fun i => name i == other := by
      intro other
      have hother := h other
      rw [List.filter_append, List.filter_cons, List.filter_cons] at hother
      by_cases heq : name first = other
      · subst heq
        have hnone : front.filter (fun i => name i == name first) = [] :=
          List.filter_eq_nil_iff.mpr hfront
        rw [List.filter_append, hnone, List.nil_append, hback]
      · rw [List.filter_append]
        simpa [heq] using hother
    have hmoved := agree_forM_move hself hcomm hne back
    exact (AgreeFrom.bind (hself first) fun _ => ih hrest).trans hmoved.symm

/-- The items of a name may come first. -/
theorem agree_forM_first {this : String} {items rest : List ι} (hnone : ∀ i ∈ rest, name i ≠ this)
    (hrest : ∀ other, other ≠ this → items.filter (fun i => name i == other) =
      rest.filter fun i => name i == other) :
    Agree (items.forM step) ((items.filter (fun i => name i == this) ++ rest).forM step) := by
  refine agree_forM_of_filter hself hcomm fun other => ?_
  rw [List.filter_append, List.filter_filter]
  by_cases heq : other = this
  · have hrest : rest.filter (fun i => name i == other) = [] :=
      List.filter_eq_nil_iff.mpr fun i hi hname => hnone i hi ((beq_iff_eq.mp hname).trans heq)
    rw [hrest, List.append_nil, heq]
    simp only [Bool.and_self]
  · have hown : items.filter (fun i => name i == other && name i == this) = [] := by
      refine List.filter_eq_nil_iff.mpr fun i _ hboth => heq ?_
      obtain ⟨hother, hthis⟩ := Bool.and_eq_true_iff.mp hboth
      exact (beq_iff_eq.mp hother).symm.trans (beq_iff_eq.mp hthis)
    rw [hown, List.nil_append]
    exact hrest other heq

end

end Ingestion

end Federation
