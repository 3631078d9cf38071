import Mathlib.Data.Finset.Card
import Mathlib.Data.Finset.Dedup
import RecordQuery.Proofs.Outcome
import RecordQuery.Schema.Selection
/-!
# Descents through selections

The relations of a registry may form cycles, and a selection follows them only so far. `Resolves`
says what becomes of one requested attribute, and `Descends` walks down a selection through the
relations that were entered. On every such walk no entity is entered twice, none that was visited
before, and no more than the depth allows; a relation is cut off only for one of these reasons.
-/

namespace RecordQuery

/-! ## Resolving one attribute -/

/-- What becomes of a requested attribute of an entity, where `depth` further relations may be
entered and the entities of `visited` may not. -/
inductive Resolves (r : Registry) (schema : Schema) (visited : List String) :
    (depth : Nat) → String × Wanted → String × Selected → Prop
  /-- An attribute that is no relation is read itself. -/
  | plain {depth : Nat} {name : String} {wanted : Wanted} {definition : AttributeDefinition} :
      schema.attribute? name = some definition → definition.relation = none →
      Resolves r schema visited depth (name, wanted) (name, .plain)
  /-- A relation is cut off when no more may be entered or its target was visited. -/
  | truncated {depth : Nat} {name : String} {wanted : Wanted} {definition : AttributeDefinition}
      {relation : Relation} :
      schema.attribute? name = some definition → definition.relation = some relation →
      depth = 0 ∨ relation.entity ∈ visited →
      Resolves r schema visited depth (name, wanted) (name, .truncated relation.entity)
  /-- Any other relation is entered, and its target counts as visited from there on. -/
  | related {depth : Nat} {name : String} {wanted : Wanted} {definition : AttributeDefinition}
      {relation : Relation} {target : Schema} {pairs : List IdentifierPair}
      {inner : List (String × Selected)} :
      schema.attribute? name = some definition → definition.relation = some relation →
      relation.entity ∉ visited → r.schema? relation.entity = some target →
      Schema.resolveIdentifiers relation = .ok pairs →
      resolve r depth target (relation.entity :: visited) (wantedOf relation target wanted) =
        .ok inner →
      Resolves r schema visited (depth + 1) (name, wanted)
        (name, .related relation.entity relation.cardinality pairs inner)

theorem liftReading_eq_ok_iff {α : Type} {x : Schema.Reading α} {a : α} :
    liftReading x = .ok a ↔ x = .ok a := by
  cases x with
  | error issues => simp [liftReading]
  | ok b => simp [liftReading]

/-- How relations are entered when `depth` of them may be entered one inside the other. -/
def entering (r : Registry) : (depth : Nat) → Option Resolver
  | 0 => none
  | depth + 1 => some (resolve r depth)

theorem resolve_eq_mapM (r : Registry) (depth : Nat) (schema : Schema) (visited : List String)
    (entries : List (String × Wanted)) :
    resolve r depth schema visited entries =
      entries.mapM fun entry =>
        resolveEntry r (entering r depth) schema visited entry.1 entry.2 := by
  cases depth with
  | zero => rfl
  | succ depth => rfl

section

variable {r : Registry} {depth : Nat} {schema : Schema} {visited : List String} {name : String}
  {wanted : Wanted} {definition : AttributeDefinition} {relation : Relation}

/-- An attribute that the entity does not have is an error. -/
theorem resolveEntry_missing (h : schema.attribute? name = none) :
    resolveEntry r (entering r depth) schema visited name wanted =
      .error (.filter (.missingAttribute (.text name) (.text schema.name)
        (Fields.keys schema.attributes))) := by
  unfold resolveEntry
  simp only [h]

theorem resolveEntry_plain (hdefinition : schema.attribute? name = some definition)
    (hrelation : definition.relation = none) :
    resolveEntry r (entering r depth) schema visited name wanted = .ok (name, .plain) := by
  unfold resolveEntry
  simp only [hdefinition, hrelation]

/-- A relation is cut off, whether its target is registered or not, when no more may be entered or its
target was visited. -/
theorem resolveEntry_truncated (hdefinition : schema.attribute? name = some definition)
    (hrelation : definition.relation = some relation)
    (hreason : depth = 0 ∨ relation.entity ∈ visited) :
    resolveEntry r (entering r depth) schema visited name wanted =
      .ok (name, .truncated relation.entity) := by
  unfold resolveEntry
  cases depth with
  | zero => simp only [hdefinition, hrelation, entering]
  | succ depth =>
      have hvisited := hreason.resolve_left (Nat.succ_ne_zero depth)
      simp only [hdefinition, hrelation, entering, List.contains_iff_mem.mpr hvisited, if_true]

/-- A relation that may be entered is an error when its target is not registered. -/
theorem resolveEntry_unregistered (hdefinition : schema.attribute? name = some definition)
    (hrelation : definition.relation = some relation) (hvisited : relation.entity ∉ visited)
    (htarget : r.schema? relation.entity = none) :
    resolveEntry r (entering r (depth + 1)) schema visited name wanted =
      .error (.filter (.unknownEntity (.text relation.entity) (.text name) (.text schema.name))) := by
  have hcontains := Bool.eq_false_iff.mpr fun h => hvisited (List.contains_iff_mem.mp h)
  unfold resolveEntry
  simp only [hdefinition, hrelation, entering, hcontains, Bool.false_eq_true, if_false, htarget]

/-- A relation that may be entered has its identifiers resolved, and then what is wanted of its
target. -/
theorem resolveEntry_entered (hdefinition : schema.attribute? name = some definition)
    (hrelation : definition.relation = some relation) (hvisited : relation.entity ∉ visited)
    {target : Schema} (htarget : r.schema? relation.entity = some target) :
    resolveEntry r (entering r (depth + 1)) schema visited name wanted = (do
      let pairs ← liftReading (Schema.resolveIdentifiers relation)
      let attributes ← resolve r depth target (relation.entity :: visited)
        (wantedOf relation target wanted)
      return (name, .related relation.entity relation.cardinality pairs attributes)) := by
  have hcontains := Bool.eq_false_iff.mpr fun h => hvisited (List.contains_iff_mem.mp h)
  unfold resolveEntry
  simp only [hdefinition, hrelation, entering, hcontains, Bool.false_eq_true, if_false, htarget]

end

/-- How a requested attribute of an entity is met, where `depth` further relations may be entered and
the entities of `visited` may not: the entity lacks it, or it is no relation, or it is a relation that
is cut off, leads to no registered entity, or is entered. -/
inductive EntryCase (r : Registry) (schema : Schema) (visited : List String) (name : String) :
    (depth : Nat) → Prop
  | missing {depth : Nat} : schema.attribute? name = none → EntryCase r schema visited name depth
  | plain {depth : Nat} {definition : AttributeDefinition} :
      schema.attribute? name = some definition → definition.relation = none →
      EntryCase r schema visited name depth
  | truncated {depth : Nat} {definition : AttributeDefinition} {relation : Relation} :
      schema.attribute? name = some definition → definition.relation = some relation →
      depth = 0 ∨ relation.entity ∈ visited → EntryCase r schema visited name depth
  | unregistered {depth : Nat} {definition : AttributeDefinition} {relation : Relation} :
      schema.attribute? name = some definition → definition.relation = some relation →
      relation.entity ∉ visited → r.schema? relation.entity = none →
      EntryCase r schema visited name (depth + 1)
  | entered {depth : Nat} {definition : AttributeDefinition} {relation : Relation}
      {target : Schema} :
      schema.attribute? name = some definition → definition.relation = some relation →
      relation.entity ∉ visited → r.schema? relation.entity = some target →
      EntryCase r schema visited name (depth + 1)

/-- There are no other cases. -/
theorem entryCase (r : Registry) (schema : Schema) (visited : List String) (name : String)
    (depth : Nat) : EntryCase r schema visited name depth := by
  cases hdefinition : schema.attribute? name with
  | none => exact .missing hdefinition
  | some definition =>
      cases hrelation : definition.relation with
      | none => exact .plain hdefinition hrelation
      | some relation =>
          by_cases hreason : depth = 0 ∨ relation.entity ∈ visited
          · exact .truncated hdefinition hrelation hreason
          · obtain ⟨hdepth, hvisited⟩ := not_or.mp hreason
            obtain ⟨depth, rfl⟩ := Nat.exists_eq_succ_of_ne_zero hdepth
            cases htarget : r.schema? relation.entity with
            | none => exact .unregistered hdefinition hrelation hvisited htarget
            | some target => exact .entered hdefinition hrelation hvisited htarget

/-- What is selected for a requested attribute is what becomes of it. -/
theorem resolves_of_resolveEntry {r : Registry} {depth : Nat} {schema : Schema}
    {visited : List String} {name : String} {wanted : Wanted} {field : String × Selected}
    (h : resolveEntry r (entering r depth) schema visited name wanted = .ok field) :
    Resolves r schema visited depth (name, wanted) field := by
  cases entryCase r schema visited name depth with
  | missing hdefinition =>
      rw [resolveEntry_missing hdefinition] at h
      exact absurd h (by simp)
  | plain hdefinition hrelation =>
      rw [resolveEntry_plain hdefinition hrelation] at h
      obtain rfl := Except.ok.inj h
      exact .plain hdefinition hrelation
  | truncated hdefinition hrelation hreason =>
      rw [resolveEntry_truncated hdefinition hrelation hreason] at h
      obtain rfl := Except.ok.inj h
      exact .truncated hdefinition hrelation hreason
  | unregistered hdefinition hrelation hvisited htarget =>
      rw [resolveEntry_unregistered hdefinition hrelation hvisited htarget] at h
      exact absurd h (by simp)
  | entered hdefinition hrelation hvisited htarget =>
      rw [resolveEntry_entered hdefinition hrelation hvisited htarget] at h
      obtain ⟨pairs, hpairs, h⟩ := bind_eq_ok_iff.mp h
      obtain ⟨attributes, hattributes, h⟩ := bind_eq_ok_iff.mp h
      obtain rfl := Except.ok.inj h
      exact .related hdefinition hrelation hvisited htarget (liftReading_eq_ok_iff.mp hpairs)
        hattributes

/-- What becomes of a requested attribute is what is selected for it. -/
theorem resolveEntry_of_resolves {r : Registry} {depth : Nat} {schema : Schema}
    {visited : List String} {entry : String × Wanted} {field : String × Selected}
    (h : Resolves r schema visited depth entry field) :
    resolveEntry r (entering r depth) schema visited entry.1 entry.2 = .ok field := by
  cases h with
  | plain hdefinition hrelation => exact resolveEntry_plain hdefinition hrelation
  | truncated hdefinition hrelation hreason =>
      exact resolveEntry_truncated hdefinition hrelation hreason
  | related hdefinition hrelation hvisited htarget hpairs hinner =>
      rw [resolveEntry_entered hdefinition hrelation hvisited htarget,
        liftReading_eq_ok_iff.mpr hpairs, ok_bind, hinner]
      rfl

/-- A selection resolves the requested attributes one by one. -/
theorem forall₂_of_resolve {r : Registry} {depth : Nat} {schema : Schema} {visited : List String}
    {entries : List (String × Wanted)} {fields : List (String × Selected)}
    (h : resolve r depth schema visited entries = .ok fields) :
    List.Forall₂ (Resolves r schema visited depth) entries fields := by
  rw [resolve_eq_mapM] at h
  exact (mapM_eq_ok_iff.mp h).imp fun _ _ hentry => resolves_of_resolveEntry hentry

/-- A selection is what becomes of the requested attributes, one by one. -/
theorem resolve_of_forall₂ {r : Registry} {depth : Nat} {schema : Schema} {visited : List String}
    {entries : List (String × Wanted)} {fields : List (String × Selected)}
    (h : List.Forall₂ (Resolves r schema visited depth) entries fields) :
    resolve r depth schema visited entries = .ok fields := by
  rw [resolve_eq_mapM]
  exact mapM_eq_ok_iff.mpr (h.imp fun _ _ => resolveEntry_of_resolves)

/-- What is selected for an attribute goes by its name. -/
theorem Resolves.name_eq {r : Registry} {schema : Schema} {visited : List String} {depth : Nat}
    {entry : String × Wanted} {field : String × Selected}
    (h : Resolves r schema visited depth entry field) : field.1 = entry.1 := by
  cases h with
  | plain | truncated | related => rfl

/-- A selection has the names of what was wanted, in order. -/
theorem keys_of_resolve {r : Registry} {depth : Nat} {schema : Schema} {visited : List String}
    {entries : List (String × Wanted)} {fields : List (String × Selected)}
    (h : resolve r depth schema visited entries = .ok fields) :
    Fields.keys fields = Fields.keys entries :=
  (map_eq_map_of_forall₂ (fun _ _ hentry => hentry.name_eq.symm) (forall₂_of_resolve h)).symm

/-! ## Walking down a selection -/

namespace Selected

/-- The entity that a relation leads to, whether it is entered or cut off. -/
def entity? : Selected → Option String
  | plain => none
  | truncated entity => some entity
  | related entity .. => some entity

/-- The entity that is entered, if any. -/
def entered : Selected → List String
  | related entity .. => [entity]
  | _ => []

/-- Going down from selected attributes through the entered relations to the entities of `trail`,
one comes to `selected`. -/
inductive Descends : List (String × Selected) → (trail : List String) → Selected → Prop
  | here {fields : List (String × Selected)} {name : String} {selected : Selected} :
      (name, selected) ∈ fields → Descends fields [] selected
  | enter {fields inner : List (String × Selected)} {name entity : String}
      {cardinality : Cardinality} {pairs : List IdentifierPair} {trail : List String}
      {selected : Selected} :
      (name, .related entity cardinality pairs inner) ∈ fields → Descends inner trail selected →
      Descends fields (entity :: trail) selected

end Selected

/-- What a walk down a selection finds: the entities it has entered are distinct, registered and not
among the visited ones, they are no more than the depth allows, and a relation is cut off exactly
when its target was visited or entered before or the depth is used up. -/
structure Bounded (r : Registry) (visited : List String) (depth : Nat) (trail : List String)
    (selected : Selected) : Prop where
  distinct : (trail ++ selected.entered).Nodup
  registered : ∀ entity ∈ trail ++ selected.entered, r.has entity = true
  unvisited : ∀ entity ∈ trail ++ selected.entered, entity ∉ visited
  length_le : (trail ++ selected.entered).length ≤ depth
  truncated_iff : ∀ entity, selected.entity? = some entity →
    (selected = .truncated entity ↔ entity ∈ visited ∨ entity ∈ trail ∨ depth ≤ trail.length)

theorem Registry.has_of_schema? {r : Registry} {entity : String} {schema : Schema}
    (h : r.schema? entity = some schema) : r.has entity = true := by
  rw [Registry.has, h]
  rfl

/-- The bounds hold at a requested attribute itself. -/
theorem Resolves.bounded {r : Registry} {schema : Schema} {visited : List String} {depth : Nat}
    {entry : String × Wanted} {name : String} {selected : Selected}
    (h : Resolves r schema visited depth entry (name, selected)) :
    Bounded r visited depth [] selected := by
  cases h with
  | plain => constructor <;> simp [Selected.entered, Selected.entity?]
  | truncated _ _ hreason =>
      refine ⟨by simp [Selected.entered], by simp [Selected.entered], by simp [Selected.entered],
        by simp [Selected.entered], ?_⟩
      intro entity hentity
      obtain rfl := Option.some.inj hentity
      refine iff_of_true rfl ?_
      rcases hreason with hdepth | hvisited
      · right; right; omega
      · exact .inl hvisited
  | related _ _ hvisited htarget _ _ =>
      have hhas := Registry.has_of_schema? htarget
      refine ⟨by simp [Selected.entered], by simpa [Selected.entered] using hhas,
        by simpa [Selected.entered] using hvisited, by simp [Selected.entered], ?_⟩
      intro entity hentity
      obtain rfl := Option.some.inj hentity
      simp [hvisited]

/-- The bounds hold below an entered relation when they hold inside it, where its target counts as
visited and one relation less may be entered. -/
theorem Bounded.enter {r : Registry} {visited trail : List String} {depth : Nat} {entity : String}
    {selected : Selected} (hhas : r.has entity = true) (hvisited : entity ∉ visited)
    (h : Bounded r (entity :: visited) depth trail selected) :
    Bounded r visited (depth + 1) (entity :: trail) selected := by
  have hnew : entity ∉ trail ++ selected.entered := fun hmem =>
    h.unvisited entity hmem List.mem_cons_self
  refine ⟨?_, ?_, ?_, ?_, ?_⟩
  · rw [List.cons_append, List.nodup_cons]
    exact ⟨hnew, h.distinct⟩
  · rw [List.cons_append, List.forall_mem_cons]
    exact ⟨hhas, h.registered⟩
  · rw [List.cons_append, List.forall_mem_cons]
    exact ⟨hvisited, fun other hother hmem =>
      h.unvisited other hother (List.mem_cons_of_mem _ hmem)⟩
  · have hlength := h.length_le
    simp only [List.cons_append, List.length_cons]
    omega
  · intro other hother
    rw [h.truncated_iff other hother, List.mem_cons, List.mem_cons, List.length_cons]
    -- the entity that was entered moves from the visited ones to the trail
    constructor
    · rintro ((rfl | hmem) | hmem | hle)
      · exact .inr (.inl (.inl rfl))
      · exact .inl hmem
      · exact .inr (.inl (.inr hmem))
      · exact .inr (.inr (by omega))
    · rintro (hmem | (rfl | hmem) | hle)
      · exact .inl (.inr hmem)
      · exact .inl (.inl rfl)
      · exact .inr (.inl hmem)
      · exact .inr (.inr (by omega))

/-- The bounds hold wherever one walks down a resolved selection. -/
theorem bounded_of_resolve {r : Registry} {fields : List (String × Selected)}
    {trail : List String} {selected : Selected} (hdescends : Selected.Descends fields trail selected) :
    ∀ {depth : Nat} {schema : Schema} {visited : List String} {entries : List (String × Wanted)},
      resolve r depth schema visited entries = .ok fields →
      Bounded r visited depth trail selected := by
  induction hdescends with
  | here hmem =>
      intro depth schema visited entries h
      obtain ⟨entry, -, hresolves⟩ := exists_mem_of_forall₂ (forall₂_of_resolve h) hmem
      exact hresolves.bounded
  | enter hmem _ ih =>
      intro depth schema visited entries h
      obtain ⟨entry, -, hresolves⟩ := exists_mem_of_forall₂ (forall₂_of_resolve h) hmem
      cases hresolves with
      | related _ _ hvisited htarget _ hinner =>
          exact (ih hinner).enter (Registry.has_of_schema? htarget) hvisited

/-! ## How many entities there are to enter -/

/-- The number of registered entities that are not among the visited ones. -/
def Registry.unvisited (r : Registry) (visited : List String) : Nat :=
  ((Fields.keys r.schemas).toFinset \ visited.toFinset).card

theorem Registry.mem_keys_of_has {r : Registry} {entity : String} (h : r.has entity = true) :
    entity ∈ Fields.keys r.schemas := by
  rw [Registry.has, Option.isSome_iff_exists] at h
  obtain ⟨schema, hschema⟩ := h
  obtain ⟨before, after, heq, -⟩ := List.lookup_eq_some_iff.mp hschema
  rw [Fields.keys, heq]
  simp

/-- Distinct entities that are registered and not visited are no more than there are of these. -/
theorem Registry.length_le_unvisited {r : Registry} {visited entities : List String}
    (hdistinct : entities.Nodup) (hhas : ∀ entity ∈ entities, r.has entity = true)
    (hvisited : ∀ entity ∈ entities, entity ∉ visited) :
    entities.length ≤ r.unvisited visited := by
  rw [← List.toFinset_card_of_nodup hdistinct]
  apply Finset.card_le_card
  intro entity hentity
  rw [List.mem_toFinset] at hentity
  rw [Finset.mem_sdiff, List.mem_toFinset, List.mem_toFinset]
  exact ⟨Registry.mem_keys_of_has (hhas entity hentity), hvisited entity hentity⟩

/-- **Selections are bounded and free of cycles.** Wherever one walks down a selection, the entities
of the entered relations are distinct, registered and not among those visited at the start. They are
no more than the given depth and no more than there are registered entities that were not visited. A
relation is cut off exactly when its target was visited at the start or entered further up, or when
the given number of relations has been entered further up. -/
theorem inferSelections_bounded {r : Registry} {maxDepth : Int} {schema : Schema}
    {visited : List String} {entries : List (String × Wanted)} {fields : List (String × Selected)}
    (h : inferSelections r maxDepth schema visited entries = .ok fields) {trail : List String}
    {selected : Selected} (hdescends : Selected.Descends fields trail selected) :
    (trail ++ selected.entered).Nodup ∧
      (∀ entity ∈ trail ++ selected.entered, r.has entity = true ∧ entity ∉ visited) ∧
      ((trail ++ selected.entered).length : Int) ≤ max 0 (min maxDepth (r.unvisited visited)) ∧
      ∀ entity, selected.entity? = some entity →
        (selected = .truncated entity ↔
          entity ∈ visited ∨ entity ∈ trail ∨ maxDepth ≤ trail.length) := by
  have hbounded : Bounded r visited maxDepth.toNat trail selected := bounded_of_resolve hdescends h
  refine ⟨hbounded.distinct, fun entity hentity =>
    ⟨hbounded.registered entity hentity, hbounded.unvisited entity hentity⟩, ?_, ?_⟩
  · have hdepth := hbounded.length_le
    have hcount :=
      Registry.length_le_unvisited hbounded.distinct hbounded.registered hbounded.unvisited
    omega
  · intro entity hentity
    have hdepth : maxDepth.toNat ≤ trail.length ↔ maxDepth ≤ trail.length := by omega
    rw [hbounded.truncated_iff entity hentity, hdepth]

/-- A schema with one attribute, a relation to another entity. -/
def linkedSchema (name link target : String) : Schema :=
  ⟨name, [(link, ⟨"map", some ⟨target, .manyToOne, .given [], none⟩⟩)]⟩

/-- People and their groups, each related to the other. -/
def peopleRegistry : Registry :=
  (Registry.empty.register (linkedSchema "User" "group" "Group")).register
    (linkedSchema "Group" "members" "User")

/-- The group of a user with its members and their groups. -/
def groupsRequest : List (String × Wanted) :=
  [("group", .parts [("members", .parts [("group", .whole)])])]

/-- Groups lead to members, and the groups of members are cut off. -/
def groupsSelection : List (String × Selected) :=
  [("group", .related "Group" .manyToOne []
    [("members", .related "User" .manyToOne [] [("group", .truncated "Group")])])]

/-- Below a group and its members the group of a member is cut off, although one more relation might
be entered. -/
theorem groupsSelection_bounded :
    inferSelections peopleRegistry 3 (linkedSchema "User" "group" "Group") [] groupsRequest =
        .ok groupsSelection ∧
      Selected.Descends groupsSelection ["Group", "User"] (.truncated "Group") ∧
      (["Group", "User"] : List String).Nodup ∧
      (∀ entity ∈ ["Group", "User"], peopleRegistry.has entity = true ∧ entity ∉ ([] : List String)) ∧
      (2 : Int) ≤ max 0 (min 3 (peopleRegistry.unvisited [])) ∧
      (Selected.truncated "Group" = .truncated "Group" ↔
        "Group" ∈ ([] : List String) ∨ "Group" ∈ ["Group", "User"] ∨ (3 : Int) ≤ 2) := by
  have hinfer : inferSelections peopleRegistry 3 (linkedSchema "User" "group" "Group") []
      groupsRequest = .ok groupsSelection := rfl
  have hdescends : Selected.Descends groupsSelection ["Group", "User"] (.truncated "Group") :=
    .enter List.mem_cons_self (.enter List.mem_cons_self (.here List.mem_cons_self))
  obtain ⟨hdistinct, hentities, hlength, htruncated⟩ := inferSelections_bounded hinfer hdescends
  exact ⟨hinfer, hdescends, hdistinct, hentities, hlength, htruncated "Group" rfl⟩

end RecordQuery
