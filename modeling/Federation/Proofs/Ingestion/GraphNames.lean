import Mathlib
import Federation.Proofs.Document.Scanning
import Federation.Proofs.Ingestion.Growth
import Federation.Proofs.Loops

/-!
# Names of subgraphs in the enumeration

Every subgraph stands in the enumeration of all subgraphs under a value that is made from its name.
If the value is taken, numbers are put behind it, from one on. There are more candidates than
subgraphs, so the search for a free one always ends, and every candidate has the form of a name.
-/

namespace Federation

open Text (IsName isNameStart isNamePart)

/-! ## Names -/

/-- Letters and digits are parts of names, also in upper case. -/
theorem Text.isNamePart_toUpper {c : Char} (h : c.isAlphanum = true) :
    isNamePart c.toUpper = true := by
  by_cases hlower : c.isLower = true
  · have halpha : c.toUpper.isAlpha = true := by
      rw [Char.isAlpha_toUpper_eq_isAlpha]
      exact Bool.or_eq_true_iff.mpr (.inr hlower)
    exact isNamePart_of_isNameStart (Bool.or_eq_true_iff.mpr (.inl halpha))
  · rw [Char.toUpper_eq_of_not_isLower hlower]
    exact Bool.or_eq_true_iff.mpr (.inl h)

theorem Text.isNameStart_of_isNamePart {c : Char} (h : isNamePart c = true)
    (hdigit : c.isDigit = false) : isNameStart c = true := by
  have hpart : ((c.isAlpha || c.isDigit) || c == '_') = true := h
  rwa [hdigit, Bool.or_false] at hpart

/-- A name goes on with parts of names. -/
theorem Text.IsName.append {name : String} (h : IsName name) {text : String}
    (htext : ∀ c ∈ text.toList, isNamePart c = true) : IsName (name ++ text) := by
  obtain ⟨c, cs, rfl, hstart, hcs⟩ := h
  refine ⟨c, cs ++ text.toList, ?_, hstart, List.forall_mem_append.mpr ⟨hcs, htext⟩⟩
  rw [← List.cons_append, String.ofList_append, String.ofList_toList]

/-- What a name is turned into at first has the form of a name, whatever the name is. -/
theorem isName_enumBase (name : String) : IsName (enumBase name) := by
  have hparts : ∀ c ∈ name.toList.map fun c => if c.isAlphanum then c.toUpper else '_',
      isNamePart c = true := by
    refine List.forall_mem_map.mpr fun c _ => ?_
    split
    · exact Text.isNamePart_toUpper ‹_›
    · rfl
  unfold enumBase
  dsimp only
  split
  · exact ⟨'_', [], rfl, rfl, fun _ hc => absurd hc List.not_mem_nil⟩
  · rename_i c cs hcs
    rw [hcs] at hparts
    split
    · exact ⟨'_', c :: cs, by rw [hcs], rfl, hparts⟩
    · rename_i hdigit
      obtain ⟨hc, hrest⟩ := List.forall_mem_cons.mp hparts
      rw [Bool.not_eq_true] at hdigit
      exact ⟨c, cs, by rw [hcs], Text.isNameStart_of_isNamePart hc hdigit, hrest⟩

/-! ## The search -/

/-- The candidates one by one: the base itself, then the base with numbers from one on. -/
def enumCandidate (base : String) : Nat → String
  | 0 => base
  | i + 1 => s!"{base}_{i + 1}"

/-- The search goes on from a candidate that is taken. -/
def laterCandidate? (taken : List String) (base : String) (i : Nat) : Option Nat :=
  if enumCandidate base i ∈ taken then some (i + 1) else none

theorem enumCandidates_eq_map (base : String) (bound : Nat) :
    enumCandidates base bound = (List.range (bound + 1)).map (enumCandidate base) := by
  rw [List.range_succ_eq_map, List.map_cons, List.map_map]
  rfl

theorem isName_enumCandidate {base : String} (h : IsName base) (i : Nat) :
    IsName (enumCandidate base i) := by
  cases i with
  | zero => exact h
  | succ i =>
    have hcandidate : enumCandidate base (i + 1) = base ++ "_" ++ (i + 1).repr := rfl
    rw [hcandidate]
    have hunderscore : ∀ c ∈ "_".toList, isNamePart c = true := by
      rw [toList_eq_of_ofList_eq (rfl : String.ofList ['_'] = "_")]
      exact List.forall_mem_singleton.mpr rfl
    refine (h.append hunderscore).append fun c hc => ?_
    rw [Nat.toList_repr] at hc
    have hdigit := Nat.isDigit_of_mem_toDigits (by decide) (by decide) hc
    simp [isNamePart, Char.isAlphanum, hdigit]

/-- The search for a candidate that is not taken ends at the first one. -/
theorem endsIn_laterCandidate? {taken : List String} {base : String} {i : Nat}
    (hfree : enumCandidate base i ∉ taken) (hleast : ∀ j < i, enumCandidate base j ∈ taken) :
    EndsIn (laterCandidate? taken base) 0 i := by
  refine .of_rounds ?_ (if_neg hfree)
  clear hfree
  induction i with
  | zero => exact .refl
  | succ i ih =>
    have hrounds := ih fun j hj => hleast j (Nat.lt_succ_of_lt hj)
    exact hrounds.tail (if_pos (hleast i (Nat.lt_succ_self i)))

/-- Among the candidates that are looked at, one is free. -/
theorem exists_enumCandidate_notMem (taken : List String) (name : String) :
    ∃ i < taken.length + 1, enumCandidate (enumBase name) i ∉ taken := by
  have hmem : freeEnumValue taken name ∈ enumCandidates (enumBase name) taken.length := by
    unfold freeEnumValue
    dsimp only
    cases hfound : (enumCandidates (enumBase name) taken.length).find? fun value =>
        !taken.contains value with
    | none => exact List.mem_cons_self
    | some value => exact List.mem_of_find?_eq_some hfound
  rw [enumCandidates_eq_map] at hmem
  obtain ⟨i, hi, hvalue⟩ := List.mem_map.mp hmem
  exact ⟨i, List.mem_range.mp hi, hvalue ▸ SubgraphSet.freeEnumValue_notMem taken name⟩

/-- **The search for a free value ends**, and the value is the candidate that it ends at. -/
theorem exists_endsIn_freeEnumValue (taken : List String) (name : String) :
    ∃ i, EndsIn (laterCandidate? taken (enumBase name)) 0 i ∧
      freeEnumValue taken name = enumCandidate (enumBase name) i := by
  have hexists := exists_enumCandidate_notMem taken name
  have hbound := (Nat.find_spec hexists).1
  have hfree := (Nat.find_spec hexists).2
  have hleast : ∀ j < Nat.find hexists, enumCandidate (enumBase name) j ∈ taken := fun j hj =>
    by_contra fun hnot => Nat.find_min hexists hj ⟨hj.trans hbound, hnot⟩
  refine ⟨Nat.find hexists, endsIn_laterCandidate? hfree hleast, ?_⟩
  have hfound : ((List.range (taken.length + 1)).find? fun i =>
      !taken.contains (enumCandidate (enumBase name) i)) = some (Nat.find hexists) := by
    rw [List.find?_range_eq_some]
    refine ⟨by simpa using hfree, List.mem_range.mpr hbound, fun j hj => ?_⟩
    simpa using hleast j hj
  unfold freeEnumValue
  dsimp only
  rw [enumCandidates_eq_map, List.find?_map]
  exact congrArg (fun found : Option Nat => (found.map _).getD _) hfound

/-- A number is left out if some base looks like the base with that number. -/
example : freeEnumValue ["A_1", "A"] "a" = "A_2" := by cbv

/-! ## Sets of subgraphs -/

namespace SubgraphSet

/-- The value is chosen among those that the subgraphs before leave free, and a schema does not
change it. -/
theorem exists_enumValue_of_addText {set set' : SubgraphSet} {text name : String}
    {url : Option String} (h : set.addText text name url = .ok set') :
    ∃ s, set'.subgraphs = set.subgraphs ++ [s] ∧ s.name = name ∧
      s.enumValue = freeEnumValue (set.subgraphs.map Subgraph.enumValue) name := by
  rcases addText_cases h with ⟨diagnostics, -, hadded⟩ | ⟨schema, hread, -, hadded⟩
  · exact ⟨_, hadded, rfl, rfl⟩
  · have htypes := Document.Schema.hasPlainTypes_read hread
    exact ⟨_, hadded, name_build htypes _ _, (alike_build htypes (set.start name url).1
      (set.start name url).1 (set.start name url).2 (set.start name url).2.enumValue).2.2⟩

/-- Each subgraph has the value that is free after the subgraphs before it. -/
theorem Ingested.enumValue_eq {set : SubgraphSet} (h : set.Ingested) {id : SubgraphId}
    {s : Subgraph} (hs : set.subgraph? id = some s) :
    s.enumValue = freeEnumValue ((set.subgraphs.take id).map Subgraph.enumValue) s.name := by
  induction h with
  | empty => cases hs
  | @add set set' text name url _ hadd ih =>
    obtain ⟨added, hadded, hname, hvalue⟩ := exists_enumValue_of_addText hadd
    unfold subgraph? at hs ih
    rw [hadded] at hs ⊢
    by_cases hid : id < set.subgraphs.length
    · rw [List.getElem?_append_left hid] at hs
      rw [List.take_append_of_le_length hid.le]
      exact ih hs
    · rw [List.getElem?_append_right (Nat.le_of_not_lt hid)] at hs
      obtain ⟨hlast, rfl⟩ := List.getElem?_eq_some_iff.mp hs
      have hend : id = set.subgraphs.length :=
        Nat.le_antisymm (Nat.sub_eq_zero_iff_le.mp (Nat.lt_one_iff.mp hlast)) (Nat.le_of_not_lt hid)
      simp only [List.getElem_singleton, hend, List.take_left', hname]
      exact hvalue

/-- **The values of subgraphs in the enumeration are unique names.** Whatever schemas are offered
under whatever names, no two subgraphs have the same value, and every value has the form of a name.
Each value is the one at which a search ends that tries the base of the subgraph's name and then the
base with the numbers from one on, until it finds one that no earlier subgraph has. No subgraph gets
another value when more schemas are offered. -/
theorem enumeration_values_are_unique_names (sources more : List SchemaSource) :
    let set := ((offerAll sources).run {}).2
    let later := ((offerAll more).run set).2
    (set.subgraphs.map Subgraph.enumValue).Nodup ∧
      (∀ id s, set.subgraph? id = some s → IsName s.enumValue ∧
        ∃ i, EndsIn (laterCandidate? ((set.subgraphs.take id).map Subgraph.enumValue)
            (enumBase s.name)) 0 i ∧
          s.enumValue = enumCandidate (enumBase s.name) i) ∧
      ∀ id < set.size, later.enumValueOf id = set.enumValueOf id := by
  intro set later
  have hset : set.Ingested := (offerAll_run sources {}).2 .empty
  refine ⟨hset.nodup_enumValues, fun id s hs => ?_, fun id hid => ?_⟩
  · obtain ⟨i, hends, hvalue⟩ :=
      exists_endsIn_freeEnumValue ((set.subgraphs.take id).map Subgraph.enumValue) s.name
    rw [← hset.enumValue_eq hs] at hvalue
    exact ⟨hvalue ▸ isName_enumCandidate (isName_enumBase s.name) i, i, hends, hvalue⟩
  · unfold enumValueOf
    rw [((offerAll_run more set).1).subgraph?_eq hid]

end SubgraphSet

end Federation
