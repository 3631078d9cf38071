import RecordQuery.Proofs.Fields
import RecordQuery.Proofs.Schema.Descent
/-!
# Limits on the depth of selections

A limit on the depth decides how far a selection goes and nothing else. `Selected.cut` cuts a
selection off below a number of entered relations, and resolving with a smaller limit gives the
selection of a larger one cut off there. A limit that is no smaller than the number of entities that
are left to enter never decides anything, provided that every relation leads to a registered entity:
when no entity is left, all relations are cut off as visited.
-/

namespace RecordQuery

/-! ## Cutting selections off -/

namespace Selected

mutual

/-- What is left of a selection when `depth` relations may be entered one inside the other: a relation
below them only names its target. -/
def cut : (depth : Nat) → Selected → Selected
  | _, plain => plain
  | _, truncated entity => truncated entity
  | 0, related entity _ _ _ => truncated entity
  | depth + 1, related entity cardinality identifiers attributes =>
    related entity cardinality identifiers (cutFields depth attributes)
termination_by structural _ selected => selected

/-- Selected attributes with each of them cut off. -/
def cutFields (depth : Nat) : List (String × Selected) → List (String × Selected)
  | [] => []
  | (name, selected) :: rest => (name, selected.cut depth) :: cutFields depth rest
termination_by structural fields => fields

end

theorem cutFields_eq_map (depth : Nat) (fields : List (String × Selected)) :
    cutFields depth fields = fields.map fun field => (field.1, field.2.cut depth) := by
  induction fields with
  | nil => rfl
  | cons field rest ih => rw [cutFields, ih, List.map_cons]

end Selected

/-- Under the limit `depth` a selection is what is left of it under any larger one. -/
def CutsTo (r : Registry) (depth : Nat) : Prop :=
  ∀ {more : Nat} {schema : Schema} {visited : List String} {entries : List (String × Wanted)}
    {fields : List (String × Selected)}, depth ≤ more →
    resolve r more schema visited entries = .ok fields →
    resolve r depth schema visited entries = .ok (Selected.cutFields depth fields)

/-- What becomes of an attribute under a smaller limit is cut off there, if that holds of what is
selected inside. -/
theorem Resolves.cut {r : Registry} {schema : Schema} {visited : List String} {depth more : Nat}
    {entry : String × Wanted} {field : String × Selected} (hle : depth ≤ more)
    (inside : ∀ less < depth, CutsTo r less) (h : Resolves r schema visited more entry field) :
    Resolves r schema visited depth entry (field.1, field.2.cut depth) := by
  cases h with
  | plain hdefinition hrelation =>
      rw [Selected.cut]
      exact .plain hdefinition hrelation
  | truncated hdefinition hrelation hreason =>
      rw [Selected.cut]
      exact .truncated hdefinition hrelation (hreason.imp_left fun hzero => by omega)
  | related hdefinition hrelation hvisited htarget hpairs hinner =>
      cases depth with
      | zero => exact .truncated hdefinition hrelation (.inl rfl)
      | succ depth =>
          rw [Selected.cut]
          exact .related hdefinition hrelation hvisited htarget hpairs
            (inside depth (Nat.lt_succ_self depth) (Nat.le_of_succ_le_succ hle) hinner)

/-- A smaller limit cuts a selection off and changes nothing else. -/
theorem cutsTo (r : Registry) (depth : Nat) : CutsTo r depth := by
  induction depth using Nat.strong_induction_on with
  | _ depth ih =>
      intro more schema visited entries fields hle h
      apply resolve_of_forall₂
      rw [Selected.cutFields_eq_map, List.forall₂_map_right_iff]
      exact (forall₂_of_resolve h).imp fun entry field hentry => hentry.cut hle ih

/-! ## Limits that are never reached -/

/-- One of the attributes of the entity is the relation. -/
def Schema.HasRelation (s : Schema) (relation : Relation) : Prop :=
  ∃ name definition, s.attribute? name = some definition ∧ definition.relation = some relation

/-- All relations of the entity lead to registered entities. -/
def Schema.LeadsInto (s : Schema) (r : Registry) : Prop :=
  ∀ relation, s.HasRelation relation → r.has relation.entity = true

namespace Registry

/-- When a registered entity is visited, fewer are left. -/
theorem unvisited_cons_lt {r : Registry} {entity : String} {visited : List String}
    (hhas : r.has entity = true) (hvisited : entity ∉ visited) :
    r.unvisited (entity :: visited) < r.unvisited visited := by
  apply Finset.card_lt_card
  rw [List.toFinset_cons, Finset.ssubset_iff]
  refine ⟨entity, by simp, ?_⟩
  intro other hother
  rw [Finset.mem_insert, Finset.mem_sdiff, Finset.mem_insert, not_or] at hother
  rw [Finset.mem_sdiff, List.mem_toFinset, List.mem_toFinset]
  rcases hother with rfl | ⟨hkey, -, hleft⟩
  · exact ⟨mem_keys_of_has hhas, hvisited⟩
  · exact ⟨List.mem_toFinset.mp hkey, fun hmem => hleft (List.mem_toFinset.mpr hmem)⟩

/-- No more entities are left than are registered. -/
theorem unvisited_le_size (r : Registry) (visited : List String) : r.unvisited visited ≤ r.size := by
  have hkeys : (Fields.keys r.schemas).length = r.size := List.length_map _
  rw [← hkeys]
  exact (Finset.card_le_card Finset.sdiff_subset).trans (List.toFinset_card_le _)

end Registry

section

variable {r : Registry} (hregistered : ∀ entity s, r.schema? entity = some s → s.LeadsInto r)

include hregistered

/-- One more relation that may be entered changes nothing when no more entities are left than may be
entered without it. -/
theorem resolve_succ {depth : Nat} {schema : Schema} {visited : List String}
    (hschema : schema.LeadsInto r) (hdepth : r.unvisited visited ≤ depth)
    (entries : List (String × Wanted)) :
    resolve r (depth + 1) schema visited entries = resolve r depth schema visited entries := by
  induction depth using Nat.strong_induction_on generalizing schema visited entries with
  | _ depth ih =>
      rw [resolve_eq_mapM, resolve_eq_mapM]
      congr 1
      funext ⟨name, wanted⟩
      cases entryCase r schema visited name (depth + 1) with
      | missing hdefinition =>
          rw [resolveEntry_missing hdefinition, resolveEntry_missing hdefinition]
      | plain hdefinition hrelation =>
          rw [resolveEntry_plain hdefinition hrelation, resolveEntry_plain hdefinition hrelation]
      | truncated hdefinition hrelation hreason =>
          have hvisited := hreason.resolve_left (Nat.succ_ne_zero depth)
          rw [resolveEntry_truncated hdefinition hrelation (.inr hvisited),
            resolveEntry_truncated hdefinition hrelation (.inr hvisited)]
      | unregistered hdefinition hrelation _ htarget =>
          have hhas := hschema _ ⟨name, _, hdefinition, hrelation⟩
          rw [Registry.has, htarget] at hhas
          exact absurd hhas (by simp)
      | entered hdefinition hrelation hvisited htarget =>
          -- the target is registered and not visited, so an entity is left and may be entered
          have hlt := Registry.unvisited_cons_lt (Registry.has_of_schema? htarget) hvisited
          obtain ⟨less, rfl⟩ : ∃ less, depth = less + 1 := ⟨depth - 1, by omega⟩
          rw [resolveEntry_entered hdefinition hrelation hvisited htarget,
            resolveEntry_entered hdefinition hrelation hvisited htarget,
            ih less (Nat.lt_succ_self less) (hregistered _ _ htarget) (by omega)]

/-- All limits from the number of entities that are left on give the same selection, or the same
error. -/
theorem resolve_eq_of_le {depth : Nat} {schema : Schema} {visited : List String}
    (hschema : schema.LeadsInto r) (hdepth : r.unvisited visited ≤ depth)
    (entries : List (String × Wanted)) :
    resolve r depth schema visited entries =
      resolve r (r.unvisited visited) schema visited entries := by
  induction depth, hdepth using Nat.le_induction with
  | base => rfl
  | succ depth hle ih => rw [resolve_succ hregistered hschema hle, ih]

end

/-- **Limits on the depth only cut.** When a selection succeeds under a limit, under a smaller one it
is the same selection cut off there. When the relations of the start and of all registered entities
lead to registered entities, all limits from the number of these on give the same selection or the
same error. -/
theorem inferSelections_depth (r : Registry) (schema : Schema) (visited : List String)
    (entries : List (String × Wanted)) :
    (∀ depth more : Int, depth ≤ more → ∀ fields,
      inferSelections r more schema visited entries = .ok fields →
      inferSelections r depth schema visited entries =
        .ok (Selected.cutFields depth.toNat fields)) ∧
    (schema.LeadsInto r → (∀ entity s, r.schema? entity = some s → s.LeadsInto r) →
      ∀ depth other : Int, r.size ≤ depth → r.size ≤ other →
        inferSelections r depth schema visited entries =
          inferSelections r other schema visited entries) := by
  constructor
  · intro depth more hle fields h
    exact cutsTo r depth.toNat (Int.toNat_le_toNat hle) h
  · intro hschema hregistered depth other hdepth hother
    have hsize := r.unvisited_le_size visited
    rw [inferSelections, inferSelections,
      resolve_eq_of_le hregistered hschema (by omega : r.unvisited visited ≤ depth.toNat),
      resolve_eq_of_le hregistered hschema (by omega : r.unvisited visited ≤ other.toNat)]

theorem linkedSchema_leadsInto {r : Registry} {name link target : String}
    (h : r.has target = true) : (linkedSchema name link target).LeadsInto r := by
  rintro relation ⟨key, definition, hdefinition, hrelation⟩
  have hmem := Fields.mem_of_get? hdefinition
  obtain ⟨rfl, rfl⟩ := Prod.mk.inj (List.mem_singleton.mp hmem)
  obtain rfl := Option.some.inj hrelation
  exact h

/-- Users and groups lead to users and groups. -/
theorem peopleRegistry_leadsInto {entity : String} {s : Schema}
    (h : peopleRegistry.schema? entity = some s) : s.LeadsInto peopleRegistry := by
  have hmem := Fields.mem_of_get? h
  rcases List.mem_pair.mp hmem with heq | heq
  · obtain ⟨-, rfl⟩ := Prod.mk.inj heq
    exact linkedSchema_leadsInto rfl
  · obtain ⟨-, rfl⟩ := Prod.mk.inj heq
    exact linkedSchema_leadsInto rfl

/-- With one relation to enter the members of a group are cut off; two limits that are no smaller than
the number of entities cut off the same. -/
theorem groupsSelection_cut :
    inferSelections peopleRegistry 3 (linkedSchema "User" "group" "Group") [] groupsRequest =
        .ok groupsSelection ∧
      inferSelections peopleRegistry 1 (linkedSchema "User" "group" "Group") [] groupsRequest =
        .ok [("group", .related "Group" .manyToOne [] [("members", .truncated "User")])] ∧
      (linkedSchema "User" "group" "Group").LeadsInto peopleRegistry ∧
      (∀ entity s, peopleRegistry.schema? entity = some s → s.LeadsInto peopleRegistry) ∧
      peopleRegistry.size = 2 ∧
      inferSelections peopleRegistry 2 (linkedSchema "User" "group" "Group") [] groupsRequest =
        inferSelections peopleRegistry 9 (linkedSchema "User" "group" "Group") [] groupsRequest := by
  have hinfer : inferSelections peopleRegistry 3 (linkedSchema "User" "group" "Group") []
      groupsRequest = .ok groupsSelection := rfl
  have hstart : (linkedSchema "User" "group" "Group").LeadsInto peopleRegistry :=
    linkedSchema_leadsInto rfl
  have hregistered : ∀ entity s, peopleRegistry.schema? entity = some s →
      s.LeadsInto peopleRegistry := fun _ _ => peopleRegistry_leadsInto
  obtain ⟨hcut, hsame⟩ := inferSelections_depth peopleRegistry
    (linkedSchema "User" "group" "Group") [] groupsRequest
  exact ⟨hinfer, hcut 1 3 (by decide) _ hinfer, hstart, hregistered, rfl,
    hsame hstart hregistered 2 9 (by decide) (by decide)⟩

end RecordQuery
