import RecordQuery.Proofs.Schema.Depth
/-!
# Which selections succeed

In a closed registry every relation leads to a registered entity that has the attributes which the
relation declares. There a request that only names attributes is always answered, however the
relations run in cycles: a request of the whole of a relation asks for declared or plain attributes of
its target, which exist again. `Answers` says what an answer has at every level, and
`SelectionFault` what can go wrong without a closed registry.
-/

namespace RecordQuery

/-! ## Requests -/

/-- The attributes of the target that are read when the whole of a relation is wanted: the declared
ones, or else the plain ones. -/
def Relation.defaultNames (relation : Relation) (target : Schema) : List String :=
  let declared := relation.attributes.getD []
  (if declared.isEmpty then target.plainNames else declared).eraseDups

/-- What a value requests of the target of a relation: the entries of a record, or the default
attributes. -/
def Relation.requested (relation : Relation) (target : Schema) : Value → Fields
  | .record fields => fields
  | _ => (relation.defaultNames target).map fun name => (name, .bool true)

/-- What a value that counts as true wants of an attribute. -/
def Wanted.ofTruthy : Value → Wanted
  | .record fields => .parts (ofFields fields)
  | _ => .whole

namespace Wanted

theorem ofValue?_eq (v : Value) : ofValue? v = if v.truthy then some (ofTruthy v) else none := by
  cases v with
  | record fields => cases fields <;> rfl
  | null | bool | int | float | text | list | tuple | moment | connective | node | deferred => rfl

/-- A record wants the entries that count as true, in order. -/
theorem ofFields_eq (tree : Fields) :
    ofFields tree =
      (tree.filter fun entry => entry.2.truthy).map fun entry => (entry.1, ofTruthy entry.2) := by
  induction tree with
  | nil => rfl
  | cons entry rest ih =>
      obtain ⟨name, value⟩ := entry
      rw [ofFields, ofValue?_eq, List.filter_cons, ih]
      cases value.truthy <;> rfl

end Wanted

/-- What is wanted of the target of a relation is what the value requests of it. -/
theorem wantedOf_ofTruthy (relation : Relation) (target : Schema) (value : Value) :
    wantedOf relation target (Wanted.ofTruthy value) =
      Wanted.ofFields (relation.requested target value) := by
  have hwhole : wantedOf relation target .whole = Wanted.ofFields
      ((relation.defaultNames target).map fun name => (name, Value.bool true)) := by
    rw [Wanted.ofFields_eq, List.filter_eq_self.mpr (by simp [Value.truthy]), List.map_map]
    rfl
  cases value with
  | record fields => rfl
  | null | bool | int | float | text | list | tuple | moment | connective | node | deferred =>
      exact hwhole

/-! ## Answers -/

/-- The entries of a request that count as true, with the schema whose attributes they name. -/
def Schema.asked (s : Schema) (tree : Fields) : List (Schema × String × Value) :=
  (tree.filter fun entry => entry.2.truthy).map fun entry => (s, entry)

/-- What a selection holds for an entry of a request: the name of the entry and, for an attribute that
is no relation, the attribute itself; for a relation, its target alone or an answer to each entry of
what is requested of the target. -/
inductive Answers (r : Registry) : Schema × String × Value → String × Selected → Prop
  | plain {schema : Schema} {name : String} {value : Value} {definition : AttributeDefinition} :
      schema.attribute? name = some definition → definition.relation = none →
      Answers r (schema, name, value) (name, .plain)
  | truncated {schema : Schema} {name : String} {value : Value} {definition : AttributeDefinition}
      {relation : Relation} :
      schema.attribute? name = some definition → definition.relation = some relation →
      Answers r (schema, name, value) (name, .truncated relation.entity)
  | related {schema target : Schema} {name : String} {value : Value}
      {definition : AttributeDefinition} {relation : Relation} {pairs : List IdentifierPair}
      {inner : List (String × Selected)} :
      schema.attribute? name = some definition → definition.relation = some relation →
      r.schema? relation.entity = some target → Schema.resolveIdentifiers relation = .ok pairs →
      List.Forall₂ (Answers r) (target.asked (relation.requested target value)) inner →
      Answers r (schema, name, value)
        (name, .related relation.entity relation.cardinality pairs inner)

/-- A selection answers the entries of its request one by one. -/
theorem answers_of_resolve {r : Registry} {depth : Nat} {schema : Schema} {visited : List String}
    {tree : Fields} {fields : List (String × Selected)}
    (h : resolve r depth schema visited (Wanted.ofFields tree) = .ok fields) :
    List.Forall₂ (Answers r) (schema.asked tree) fields := by
  induction depth using Nat.strong_induction_on generalizing schema visited tree fields with
  | _ depth ih =>
      have hresolves := forall₂_of_resolve h
      rw [Wanted.ofFields_eq, List.forall₂_map_left_iff] at hresolves
      rw [Schema.asked, List.forall₂_map_left_iff]
      refine hresolves.imp fun entry field hentry => ?_
      cases hentry with
      | plain hdefinition hrelation => exact .plain hdefinition hrelation
      | truncated hdefinition hrelation _ => exact .truncated hdefinition hrelation
      | @related depth _ _ _ _ _ _ _ hdefinition hrelation _ htarget hpairs hinner =>
          rw [wantedOf_ofTruthy] at hinner
          exact .related hdefinition hrelation htarget hpairs (ih depth (Nat.lt_succ_self depth) hinner)

/-! ## Closed registries -/

/-- The target of the relation is registered and has the attributes that the relation declares, and its
identifiers can be resolved. -/
structure Relation.Resolvable (relation : Relation) (r : Registry) : Prop where
  target : ∃ target, r.schema? relation.entity = some target ∧
    ∀ declared, relation.attributes = some declared → ∀ name ∈ declared,
      ∃ definition, target.attribute? name = some definition
  identifiers : ∃ pairs, Schema.resolveIdentifiers relation = .ok pairs

/-- All relations of the entity can be resolved. -/
def Schema.Resolvable (s : Schema) (r : Registry) : Prop :=
  ∀ relation, s.HasRelation relation → relation.Resolvable r

/-- All relations of all registered entities can be resolved. -/
def Registry.Closed (r : Registry) : Prop :=
  ∀ entity s, r.schema? entity = some s → s.Resolvable r

/-- Every entry of the request that counts as true names an attribute of the entity, and a record for a
relation is such a request for its target. -/
inductive ValidTree (r : Registry) : Schema → Fields → Prop
  | intro {schema : Schema} {tree : Fields}
      (known : ∀ name value, (name, value) ∈ tree → value.truthy = true →
        ∃ definition, schema.attribute? name = some definition)
      (below : ∀ name inner definition relation target, (name, .record inner) ∈ tree →
        inner ≠ [] → schema.attribute? name = some definition →
        definition.relation = some relation → r.schema? relation.entity = some target →
        ValidTree r target inner) :
      ValidTree r schema tree

/-- An attribute that is no relation is an attribute. -/
theorem Schema.exists_attribute_of_mem_plainNames {s : Schema} {name : String}
    (h : name ∈ s.plainNames) : ∃ definition, s.attribute? name = some definition := by
  obtain ⟨entry, hentry, rfl⟩ := List.mem_map.mp h
  exact Fields.mem_keys.mp (List.mem_map_of_mem (List.mem_of_mem_filter hentry))

/-- The default attributes of a relation that can be resolved are attributes of its target. -/
theorem Relation.Resolvable.exists_attribute {r : Registry} {relation : Relation}
    (h : relation.Resolvable r) {target : Schema} (htarget : r.schema? relation.entity = some target)
    {name : String} (hname : name ∈ relation.defaultNames target) :
    ∃ definition, target.attribute? name = some definition := by
  obtain ⟨found, hfound, hdeclared⟩ := h.target
  obtain rfl := Option.some.inj (hfound.symm.trans htarget)
  rw [Relation.defaultNames, List.mem_eraseDups] at hname
  cases hattributes : relation.attributes with
  | none =>
      rw [hattributes] at hname
      exact Schema.exists_attribute_of_mem_plainNames hname
  | some declared =>
      rw [hattributes, Option.getD_some] at hname
      split at hname
      · exact Schema.exists_attribute_of_mem_plainNames hname
      · exact hdeclared declared hattributes name hname

/-- What is requested of the target of a relation is valid again. -/
theorem ValidTree.requested {r : Registry} {schema target : Schema} {tree : Fields} {name : String}
    {value : Value} {definition : AttributeDefinition} {relation : Relation}
    (h : ValidTree r schema tree) (hmem : (name, value) ∈ tree) (htruthy : value.truthy = true)
    (hdefinition : schema.attribute? name = some definition)
    (hrelation : definition.relation = some relation) (hresolvable : relation.Resolvable r)
    (htarget : r.schema? relation.entity = some target) :
    ValidTree r target (relation.requested target value) := by
  obtain ⟨-, below⟩ := h
  have hdefault : ValidTree r target
      ((relation.defaultNames target).map fun name => (name, Value.bool true)) := by
    constructor
    · intro name value hentry _
      obtain ⟨asked, hasked, heq⟩ := List.mem_map.mp hentry
      obtain ⟨rfl, -⟩ := Prod.mk.inj heq
      exact hresolvable.exists_attribute htarget hasked
    · intro name inner _ _ _ hentry
      obtain ⟨asked, -, heq⟩ := List.mem_map.mp hentry
      exact absurd (Prod.mk.inj heq).2 (by simp)
  cases value with
  | record inner =>
      refine below name inner definition relation target hmem ?_ hdefinition hrelation htarget
      rintro rfl
      exact absurd htruthy (by simp [Value.truthy])
  | null | bool | int | float | text | list | tuple | moment | connective | node | deferred =>
      exact hdefault

/-- In a closed registry every valid request is resolved. -/
theorem exists_resolve {r : Registry} (hclosed : r.Closed) {depth : Nat} {schema : Schema}
    (hschema : schema.Resolvable r) {visited : List String} {tree : Fields}
    (hvalid : ValidTree r schema tree) :
    ∃ fields, resolve r depth schema visited (Wanted.ofFields tree) = .ok fields := by
  induction depth using Nat.strong_induction_on generalizing schema visited tree with
  | _ depth ih =>
      rw [resolve_eq_mapM, exists_mapM_iff, Wanted.ofFields_eq, List.forall_mem_map]
      rintro ⟨name, value⟩ hentry
      obtain ⟨hmem, htruthy⟩ := List.mem_filter.mp hentry
      obtain ⟨definition, hdefinition⟩ : ∃ definition, schema.attribute? name = some definition := by
        obtain ⟨known, -⟩ := hvalid
        exact known name value hmem htruthy
      suffices ∃ field, Resolves r schema visited depth (name, Wanted.ofTruthy value) field from
        this.imp fun field hfield => resolveEntry_of_resolves hfield
      cases entryCase r schema visited name depth with
      | missing hmissing => exact absurd (hmissing.symm.trans hdefinition) (by simp)
      | plain hdefinition hrelation => exact ⟨_, .plain hdefinition hrelation⟩
      | truncated hdefinition hrelation hreason =>
          exact ⟨_, .truncated hdefinition hrelation hreason⟩
      | unregistered hdefinition hrelation _ hnone =>
          obtain ⟨target, htarget, -⟩ := (hschema _ ⟨name, _, hdefinition, hrelation⟩).target
          exact absurd (hnone.symm.trans htarget) (by simp)
      | @entered less definition relation target hdefinition hrelation hvisited htarget =>
          have hresolvable := hschema relation ⟨name, definition, hdefinition, hrelation⟩
          obtain ⟨pairs, hpairs⟩ := hresolvable.identifiers
          have hbelow := hvalid.requested hmem htruthy hdefinition hrelation hresolvable htarget
          obtain ⟨inner, hinner⟩ : ∃ inner, resolve r less target (relation.entity :: visited)
              (Wanted.ofFields (relation.requested target value)) = .ok inner :=
            ih less (Nat.lt_succ_self less) (hclosed relation.entity target htarget) hbelow
          rw [← wantedOf_ofTruthy] at hinner
          exact ⟨_, .related hdefinition hrelation hvisited htarget hpairs hinner⟩

/-! ## Errors -/

/-- The entity is the one that a selection starts from, or a registered one. -/
def Schema.Met (owner : Schema) (r : Registry) (start : Schema) : Prop :=
  owner = start ∨ ∃ entity, r.schema? entity = some owner

/-- What can go wrong in a selection: an entity that is met lacks an attribute, the target of one of
its relations is not registered, or identifiers are faulty. -/
inductive SelectionFault (r : Registry) (start : Schema) : Error → Prop
  | unknownAttribute {owner : Schema} {name : String} :
      owner.Met r start → owner.attribute? name = none →
      SelectionFault r start (.filter (.missingAttribute (.text name) (.text owner.name)
        (Fields.keys owner.attributes)))
  | unknownEntity {owner : Schema} {name : String} {definition : AttributeDefinition}
      {relation : Relation} :
      owner.Met r start → owner.attribute? name = some definition →
      definition.relation = some relation → r.schema? relation.entity = none →
      SelectionFault r start (.filter (.unknownEntity (.text relation.entity) (.text name)
        (.text owner.name)))
  | badIdentifiers (issues : List Issue) : SelectionFault r start (.model issues)

theorem Schema.Met.of_registered {r : Registry} {owner start target : Schema} {entity : String}
    (htarget : r.schema? entity = some target) (h : owner.Met r target) : owner.Met r start := by
  rcases h with rfl | hregistered
  · exact .inr ⟨entity, htarget⟩
  · exact .inr hregistered

/-- What goes wrong from a registered entity on goes wrong from any start that leads there. -/
theorem SelectionFault.of_registered {r : Registry} {start target : Schema} {entity : String}
    {e : Error} (htarget : r.schema? entity = some target) (h : SelectionFault r target e) :
    SelectionFault r start e := by
  cases h with
  | unknownAttribute howner hnone => exact .unknownAttribute (howner.of_registered htarget) hnone
  | unknownEntity howner hdefinition hrelation hnone =>
      exact .unknownEntity (howner.of_registered htarget) hdefinition hrelation hnone
  | badIdentifiers issues => exact .badIdentifiers issues

/-- Every error of a selection is one of these. -/
theorem selectionFault_of_resolve {r : Registry} {depth : Nat} {schema : Schema}
    {visited : List String} {entries : List (String × Wanted)} {e : Error}
    (h : resolve r depth schema visited entries = .error e) : SelectionFault r schema e := by
  induction depth using Nat.strong_induction_on generalizing schema visited entries with
  | _ depth ih =>
      rw [resolve_eq_mapM] at h
      obtain ⟨⟨name, wanted⟩, -, h⟩ := exists_mem_of_mapM_eq_error h
      cases entryCase r schema visited name depth with
      | missing hdefinition =>
          rw [resolveEntry_missing hdefinition] at h
          obtain rfl := Except.error.inj h
          exact .unknownAttribute (.inl rfl) hdefinition
      | plain hdefinition hrelation =>
          rw [resolveEntry_plain hdefinition hrelation] at h
          exact absurd h (by simp)
      | truncated hdefinition hrelation hreason =>
          rw [resolveEntry_truncated hdefinition hrelation hreason] at h
          exact absurd h (by simp)
      | unregistered hdefinition hrelation hvisited htarget =>
          rw [resolveEntry_unregistered hdefinition hrelation hvisited htarget] at h
          obtain rfl := Except.error.inj h
          exact .unknownEntity (.inl rfl) hdefinition hrelation htarget
      | @entered less definition relation target hdefinition hrelation hvisited htarget =>
          rw [resolveEntry_entered hdefinition hrelation hvisited htarget] at h
          rcases bind_eq_error_iff.mp h with hpairs | ⟨pairs, -, h⟩
          · cases hissues : Schema.resolveIdentifiers relation with
            | ok pairs =>
                rw [hissues] at hpairs
                exact absurd hpairs (by simp [liftReading])
            | error issues =>
                rw [hissues] at hpairs
                obtain rfl := Except.error.inj hpairs
                exact .badIdentifiers issues
          · rcases bind_eq_error_iff.mp h with hinner | ⟨inner, -, h⟩
            · exact (ih less (Nat.lt_succ_self less) hinner).of_registered htarget
            · exact absurd h (by simp)

/-- An attribute that is reported as unknown is one that the entity reported with it lacks. -/
theorem SelectionFault.lacks {r : Registry} {start : Schema} {named entity : Value}
    {known suggestions : List String}
    (h : SelectionFault r start (.filter (.unknownAttribute named entity known suggestions))) :
    ∃ owner name, Schema.Met owner r start ∧ entity = .text owner.name ∧ named = .text name ∧
      owner.attribute? name = none := by
  generalize herror : Error.filter (.unknownAttribute named entity known suggestions) = e at h
  cases h with
  | @unknownAttribute owner name howner hnone =>
      rw [FilterError.missingAttribute, FilterError.missingAttributeAt] at herror
      injection herror with herror
      injection herror with hname hentity
      exact ⟨owner, name, howner, hentity, hname, hnone⟩
  | unknownEntity => exact absurd herror (by simp)
  | badIdentifiers => exact absurd herror (by simp)

/-- An entity that is reported as unknown is the target of the attribute reported with it, and is not
registered. -/
theorem SelectionFault.unregistered {r : Registry} {start : Schema} {entity named source : Value}
    (h : SelectionFault r start (.filter (.unknownEntity entity named source))) :
    ∃ owner name definition relation, Schema.Met owner r start ∧ source = .text owner.name ∧
      named = .text name ∧ owner.attribute? name = some definition ∧
      definition.relation = some relation ∧ entity = .text relation.entity ∧
      r.has relation.entity = false := by
  generalize herror : Error.filter (.unknownEntity entity named source) = e at h
  cases h with
  | unknownAttribute =>
      exact absurd herror (by simp [FilterError.missingAttribute, FilterError.missingAttributeAt])
  | @unknownEntity owner name definition relation howner hdefinition hrelation hnone =>
      injection herror with herror
      injection herror with hentity hname hsource
      refine ⟨owner, name, definition, relation, howner, hsource, hname, hdefinition, hrelation,
        hentity, ?_⟩
      rw [Registry.has, hnone]
      rfl
  | badIdentifiers => exact absurd herror (by simp)

/-! ## Selections -/

/-- **Selection is total and exact on closed registries, and its errors are truthful on any.** In a
closed registry every valid request of a registered entity is answered, entry by entry at every level,
whatever was visited and however deep one may go. In any registry an unknown attribute is one that the
entity named with it lacks, and an unknown entity is one that is not registered and to which the
attribute named with it leads. -/
theorem selection_total_exact (r : Registry) :
    (r.Closed → ∀ entity schema, r.schema? entity = some schema → ∀ tree, ValidTree r schema tree →
      ∀ visited maxDepth, ∃ fields,
        inferSelections r maxDepth schema visited (Wanted.ofFields tree) = .ok fields ∧
          List.Forall₂ (Answers r) (schema.asked tree) fields) ∧
    ∀ maxDepth schema visited entries,
      (∀ named entity known suggestions,
        inferSelections r maxDepth schema visited entries =
            .error (.filter (.unknownAttribute named entity known suggestions)) →
          ∃ owner name, Schema.Met owner r schema ∧ entity = .text owner.name ∧
            named = .text name ∧ owner.attribute? name = none) ∧
      ∀ entity named source,
        inferSelections r maxDepth schema visited entries =
            .error (.filter (.unknownEntity entity named source)) →
          ∃ owner name definition relation, Schema.Met owner r schema ∧ source = .text owner.name ∧
            named = .text name ∧ owner.attribute? name = some definition ∧
            definition.relation = some relation ∧ entity = .text relation.entity ∧
            r.has relation.entity = false := by
  refine ⟨?_, fun maxDepth schema visited entries => ⟨?_, ?_⟩⟩
  · intro hclosed entity schema hschema tree hvalid visited maxDepth
    obtain ⟨fields, hfields⟩ := exists_resolve hclosed (hclosed entity schema hschema) hvalid
    exact ⟨fields, hfields, answers_of_resolve hfields⟩
  · intro named entity known suggestions h
    exact (selectionFault_of_resolve h).lacks
  · intro entity named source h
    exact (selectionFault_of_resolve h).unregistered

/-- A schema with an attribute of its own and a relation that declares attributes of its target. -/
def clubSchema (name own link target : String) (declared : List String) : Schema :=
  ⟨name, [(own, ⟨"string", none⟩),
    (link, ⟨"map", some ⟨target, .manyToOne, .given [], some declared⟩⟩)]⟩

/-- Users with names and groups with titles, each declaring its relation to the other. -/
def clubRegistry : Registry :=
  (Registry.empty.register (clubSchema "User" "name" "group" "Group" ["title", "members"])).register
    (clubSchema "Group" "title" "members" "User" ["name", "group"])

theorem clubSchema_resolvable {r : Registry} {name own link target : String} {declared : List String}
    {found : Schema} (htarget : r.schema? target = some found)
    (hdeclared : ∀ key ∈ declared, (found.attribute? key).isSome = true) :
    (clubSchema name own link target declared).Resolvable r := by
  rintro relation ⟨key, definition, hdefinition, hrelation⟩
  have hmem := Fields.mem_of_get? hdefinition
  rcases List.mem_pair.mp hmem with heq | heq
  · obtain ⟨-, rfl⟩ := Prod.mk.inj heq
    exact absurd hrelation (by simp)
  · obtain ⟨-, rfl⟩ := Prod.mk.inj heq
    obtain rfl := Option.some.inj hrelation
    refine ⟨⟨found, htarget, ?_⟩, [], rfl⟩
    intro keys hkeys key hkey
    obtain rfl := Option.some.inj hkeys
    exact Option.isSome_iff_exists.mp (hdeclared key hkey)

theorem clubRegistry_closed : clubRegistry.Closed := by
  intro entity s h
  have hmem := Fields.mem_of_get? h
  rcases List.mem_pair.mp hmem with heq | heq
  · obtain ⟨-, rfl⟩ := Prod.mk.inj heq
    exact clubSchema_resolvable rfl (by decide)
  · obtain ⟨-, rfl⟩ := Prod.mk.inj heq
    exact clubSchema_resolvable rfl (by decide)

/-- The whole of a group of a user leads back to users and is answered; an age is no attribute of
users, and without groups the relation to them leads nowhere. -/
theorem clubSelection_answered :
    clubRegistry.Closed ∧ ∃ user, clubRegistry.schema? "User" = some user ∧
      ValidTree clubRegistry user [("age", .null), ("group", .int 1)] ∧
      (∃ fields, inferSelections clubRegistry 5 user []
          (Wanted.ofFields [("age", .null), ("group", .int 1)]) = .ok fields ∧
        List.Forall₂ (Answers clubRegistry) (user.asked [("age", .null), ("group", .int 1)]) fields) ∧
      inferSelections clubRegistry 5 user [] [("age", .whole)] =
        .error (.filter (.missingAttribute (.text "age") (.text "User") ["name", "group"])) ∧
      (∃ owner name, Schema.Met owner clubRegistry user ∧ Value.text "User" = .text owner.name ∧
        Value.text "age" = .text name ∧ owner.attribute? name = none) ∧
      inferSelections (Registry.empty.register user) 5 user [] [("group", .whole)] =
        .error (.filter (.unknownEntity (.text "Group") (.text "group") (.text "User"))) ∧
      ∃ owner name definition relation, Schema.Met owner (Registry.empty.register user) user ∧
        Value.text "User" = .text owner.name ∧ Value.text "group" = .text name ∧
        owner.attribute? name = some definition ∧ definition.relation = some relation ∧
        Value.text "Group" = .text relation.entity ∧
        (Registry.empty.register user).has relation.entity = false := by
  let user := clubSchema "User" "name" "group" "Group" ["title", "members"]
  have huser : clubRegistry.schema? "User" = some user := rfl
  have hvalid : ValidTree clubRegistry user [("age", .null), ("group", .int 1)] := by
    constructor
    · intro name value hmem htruthy
      rcases List.mem_pair.mp hmem with heq | heq
      · obtain ⟨-, rfl⟩ := Prod.mk.inj heq
        exact absurd htruthy (by decide)
      · obtain ⟨rfl, -⟩ := Prod.mk.inj heq
        exact ⟨_, rfl⟩
    · intro name inner _ _ _ hmem
      exact absurd hmem (by simp)
  have hage : inferSelections clubRegistry 5 user [] [("age", .whole)] =
      .error (.filter (.missingAttribute (.text "age") (.text "User") ["name", "group"])) := rfl
  have hgroup : inferSelections (Registry.empty.register user) 5 user [] [("group", .whole)] =
      .error (.filter (.unknownEntity (.text "Group") (.text "group") (.text "User"))) := rfl
  exact ⟨clubRegistry_closed, user, huser, hvalid,
    (selection_total_exact clubRegistry).1 clubRegistry_closed "User" user huser _ hvalid [] 5,
    hage, ((selection_total_exact clubRegistry).2 5 user [] _).1 _ _ _ _ hage, hgroup,
    ((selection_total_exact (Registry.empty.register user)).2 5 user [] _).2 _ _ _ hgroup⟩

end RecordQuery
