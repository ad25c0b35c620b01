import Federation.Proofs.Access.Conjunction

/-!
# Implication of access requirements

The comparison of two requirements, a test on their lists of groups, says what happens to clients:
the first requirement satisfies the second exactly if every client that meets the first meets the
second. An empty group is the one exception. Everybody has been granted it, so that a list with such
a group is met by everybody, but the comparison knows this of the list without groups only.
-/

namespace Federation

/-! ## Lists of groups -/

namespace Groups

/-- Groups that imply others are met by fewer grants. -/
theorem met_of_imply {granted : String → Prop} {provided required : List Group}
    (h : imply provided required = true) (hmet : Met granted provided) : Met granted required := by
  rcases Bool.or_eq_true_iff.mp h with hempty | hall
  · exact Or.inl (List.isEmpty_iff.mp hempty)
  · obtain ⟨hne, hall⟩ := Bool.and_eq_true_iff.mp hall
    rcases hmet with rfl | ⟨p, hp, hgranted⟩
    · cases hne
    · obtain ⟨r, hr, hsub⟩ := List.any_eq_true.mp (List.all_eq_true.mp hall p hp)
      exact Or.inr ⟨r, hr, fun name hname => hgranted name (Group.isSubset_iff.mp hsub hname)⟩

/-- Nothing is required, or something is provided and each of its groups contains a required one. -/
theorem imply_eq_true_iff {provided required : List Group} :
    imply provided required = true ↔
      required = [] ∨ provided ≠ [] ∧ ∀ p ∈ provided, ∃ r ∈ required, r ⊆ p := by
  simp [imply, Group.isSubset_iff]

/-- Whoever has been granted all the names meets a list of groups. -/
theorem met_flatten (groups : List Group) : Met (· ∈ groups.flatten) groups := by
  cases groups with
  | nil => exact Or.inl rfl
  | cons group groups =>
    exact Or.inr ⟨group, List.mem_cons_self, fun name hname => by simp [hname]⟩

/-- Whoever has been granted nothing meets the empty list, and a list with an empty group. -/
theorem met_nil_iff {groups : List Group} :
    Met (· ∈ ([] : List String)) groups ↔ groups = [] ∨ [] ∈ groups := by
  simp [Met, ← List.eq_nil_iff_forall_not_mem]

/-- The comparison is exact for finite grants, but for an empty group where nothing is provided. -/
theorem imply_iff_met {provided required : List Group} :
    imply provided required = true ↔
      (∀ names : List String, Met (· ∈ names) provided → Met (· ∈ names) required) ∧
        (provided = [] → [] ∉ required) := by
  constructor
  · intro h
    refine ⟨fun names => met_of_imply h, ?_⟩
    rintro rfl hmem
    obtain rfl | ⟨hne, -⟩ := imply_eq_true_iff.mp h
    · cases hmem
    · exact hne rfl
  · rintro ⟨hmet, hempty⟩
    rw [imply_eq_true_iff, or_iff_not_imp_left]
    intro hrequired
    refine ⟨?_, fun p hp => exists_subset_of_met hmet hrequired hp⟩
    -- a client without any grants would meet what is provided, and so what is required
    intro hprovided
    obtain hnil | hmem := met_nil_iff.mp (hmet [] (Or.inl hprovided))
    · exact hrequired hnil
    · exact hempty hprovided hmem

end Groups

/-! ## Requirements -/

/-- What a client has been granted, name by name. -/
def Grant.ofLists (authenticated : Bool) (policies scopes : List String) : Grant where
  authenticated := authenticated
  policies := (· ∈ policies)
  scopes := (· ∈ scopes)

namespace AccessRequirements

theorem satisfies_eq_true_iff {provided required : AccessRequirements} :
    provided.satisfies required = true ↔
      (required.authenticated = true → provided.authenticated = true) ∧
        Groups.imply provided.policies required.policies = true ∧
          Groups.imply provided.scopes required.scopes = true := by
  unfold satisfies
  cases required.authenticated <;> simp [and_assoc]

/-- Requirements that satisfy others are met by fewer grants. -/
theorem meets_of_satisfies {provided required : AccessRequirements}
    (h : provided.satisfies required = true) {grant : Grant} (hmeets : grant.Meets provided) :
    grant.Meets required := by
  obtain ⟨hauth, hpolicies, hscopes⟩ := satisfies_eq_true_iff.mp h
  obtain ⟨hauthenticated, hp, hs⟩ := hmeets
  exact ⟨fun hrequired => hauthenticated (hauth hrequired), Groups.met_of_imply hpolicies hp,
    Groups.met_of_imply hscopes hs⟩

/-- The three parts of a requirement are met independently: a grant for one part is completed by all
names of the others. So finite grants compare the requirements part by part. -/
theorem satisfies_of_finite_grants {provided required : AccessRequirements}
    (hpolicies : [] ∉ required.policies) (hscopes : [] ∉ required.scopes)
    (hmeets : ∀ authenticated policies scopes,
      (Grant.ofLists authenticated policies scopes).Meets provided →
        (Grant.ofLists authenticated policies scopes).Meets required) :
    provided.satisfies required = true := by
  have hallPolicies := Groups.met_flatten provided.policies
  have hallScopes := Groups.met_flatten provided.scopes
  rw [satisfies_eq_true_iff, Groups.imply_iff_met, Groups.imply_iff_met]
  refine ⟨?_, ⟨fun names hmet => ?_, fun _ => hpolicies⟩, fun names hmet => ?_, fun _ => hscopes⟩
  · exact (hmeets provided.authenticated _ _ ⟨id, hallPolicies, hallScopes⟩).1
  · exact (hmeets provided.authenticated names _ ⟨id, hmet, hallScopes⟩).2.1
  · exact (hmeets provided.authenticated _ names ⟨id, hallPolicies, hmet⟩).2.2

/-- **The comparison of requirements decides implication of access.** If a requirement satisfies
another, every client that meets the first meets the second. If no group of the second is empty, the
converse holds, too, and clients with finitely many grants suffice for it: where a requirement does
not satisfy another, a client with finitely many grants meets the first and not the second. -/
theorem satisfies_iff_access_implied (provided required : AccessRequirements) :
    (provided.satisfies required = true →
        ∀ grant : Grant, grant.Meets provided → grant.Meets required) ∧
      ((∀ group ∈ required.policies, group ≠ []) → (∀ group ∈ required.scopes, group ≠ []) →
        ((provided.satisfies required = true ↔
            ∀ grant : Grant, grant.Meets provided → grant.Meets required) ∧
          (provided.satisfies required = false ↔
            ∃ authenticated policies scopes,
              (Grant.ofLists authenticated policies scopes).Meets provided ∧
                ¬ (Grant.ofLists authenticated policies scopes).Meets required))) := by
  refine ⟨fun h grant => meets_of_satisfies h, fun hpolicies hscopes => ?_⟩
  have hfinite := @satisfies_of_finite_grants provided required
    (fun hnil => hpolicies [] hnil rfl) (fun hnil => hscopes [] hnil rfl)
  refine ⟨⟨fun h grant => meets_of_satisfies h, fun h => hfinite fun _ _ _ => h _⟩, ?_, ?_⟩
  · intro hfalse
    by_contra hnone
    push Not at hnone
    rw [hfinite hnone] at hfalse
    cases hfalse
  · rintro ⟨authenticated, policies, scopes, hprovided, hrequired⟩
    rw [← Bool.not_eq_true]
    exact fun h => hrequired (meets_of_satisfies h hprovided)

/-- Both alternatives contain a required one, with a name that is repeated. An alternative that
contains none is what a client needs to meet the first requirement and not the second. -/
theorem satisfies_iff_access_implied_of_alternatives :
    (∀ grant : Grant, grant.Meets ⟨true, [["read", "write"], ["admin"]], [["all"]]⟩ →
        grant.Meets ⟨true, [["write"], ["admin", "admin"]], []⟩) ∧
      ∃ authenticated policies scopes,
        (Grant.ofLists authenticated policies scopes).Meets ⟨false, [], [["read"], ["admin"]]⟩ ∧
          ¬ (Grant.ofLists authenticated policies scopes).Meets ⟨false, [], [["read"]]⟩ :=
  ⟨((satisfies_iff_access_implied _ _).2 (by decide) (by decide)).1.mp (by decide),
    ((satisfies_iff_access_implied _ _).2 (by decide) (by decide)).2.mp (by decide)⟩

/-- Everybody meets a requirement of an empty group, but nothing else satisfies it than a requirement
with groups. -/
example : AccessRequirements.satisfies {} { scopes := [[]] } = false ∧
    AccessRequirements.satisfies { scopes := [["read"]] } { scopes := [[]] } = true := by decide

end AccessRequirements

end Federation
