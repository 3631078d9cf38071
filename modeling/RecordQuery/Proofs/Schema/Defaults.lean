import Mathlib.Logic.Relation
import RecordQuery.Proofs.Schema.Totality
/-!
# The whole of a relation

To request the whole of a relation is to request each of its default attributes: those that the
relation declares, or else all plain attributes of its target. The two requests give the same
selection wherever they stand, and whatever becomes of the attributes further down, where default
attributes may be relations again (`whole_relation_spelled_out`). A relation that declares an empty
list is selected as if it declared none.
-/

namespace RecordQuery

/-! ## Default attributes -/

/-- The attributes that a relation declares, and the plain attributes of the target if it declares
none. An empty list is a declaration too. -/
def Relation.declaredOrPlain (relation : Relation) (target : Schema) : List String :=
  relation.attributes.getD target.plainNames

/-- The fields that request each of some attributes. -/
def Fields.requesting (names : List String) : Fields :=
  names.map fun name => (name, .bool true)

/-- Names stay when repetitions are left out, if there are any. -/
theorem eraseDups_eq_nil_iff {names : List String} : names.eraseDups = [] ↔ names = [] := by
  simp only [List.eq_nil_iff_forall_not_mem, List.mem_eraseDups]

namespace Relation

variable {relation : Relation} {target : Schema}

/-- The default attributes are the declared or the plain ones, except that an empty list counts as no
declaration. -/
theorem defaultNames_cases (relation : Relation) (target : Schema) :
    relation.attributes = some [] ∧ relation.defaultNames target = target.plainNames.eraseDups ∨
      relation.attributes ≠ some [] ∧
        relation.defaultNames target = (relation.declaredOrPlain target).eraseDups := by
  rw [defaultNames, declaredOrPlain]
  cases relation.attributes with
  | none => exact .inr ⟨by simp, rfl⟩
  | some declared =>
      cases declared with
      | nil => exact .inl ⟨rfl, rfl⟩
      | cons first rest => exact .inr ⟨by simp, rfl⟩

/-- So they are the declared or plain ones when there are any of these. -/
theorem defaultNames_of_ne_nil (h : relation.declaredOrPlain target ≠ []) :
    relation.defaultNames target = (relation.declaredOrPlain target).eraseDups := by
  rcases relation.defaultNames_cases target with ⟨hempty, -⟩ | ⟨-, hnames⟩
  · rw [declaredOrPlain, hempty] at h
    exact absurd rfl h
  · exact hnames

theorem defaultNames_eq_iff :
    relation.defaultNames target = (relation.declaredOrPlain target).eraseDups ↔
      (relation.attributes = some [] → target.plainNames = []) := by
  rcases relation.defaultNames_cases target with ⟨hempty, hnames⟩ | ⟨hdeclared, hnames⟩
  · have hnone : (relation.declaredOrPlain target).eraseDups = [] := by
      rw [declaredOrPlain, hempty]
      rfl
    rw [hnames, hnone, forall_prop_of_true hempty, eraseDups_eq_nil_iff]
  · exact iff_of_true hnames fun hempty => absurd hempty hdeclared

/-- A value that is no record requests the default attributes. -/
theorem requested_of_not_record {value : Value} (h : value.isRecord = false) :
    relation.requested target value = Fields.requesting (relation.defaultNames target) := by
  cases value with
  | record fields => exact absurd h (by simp [Value.isRecord])
  | null | bool | int | float | text | list | tuple | moment | connective | node | deferred => rfl

end Relation

/-- The attribute of the entity is the relation, which leads to a registered target. -/
def Schema.Relates (r : Registry) (s : Schema) (name : String) (relation : Relation)
    (target : Schema) : Prop :=
  ∃ definition, s.attribute? name = some definition ∧ definition.relation = some relation ∧
    r.schema? relation.entity = some target

/-- An attribute is one relation at most. -/
theorem Schema.Relates.unique {r : Registry} {s target other : Schema} {name : String}
    {relation relation' : Relation} (h : s.Relates r name relation target)
    (h' : s.Relates r name relation' other) : relation = relation' ∧ target = other := by
  obtain ⟨definition, hdefinition, hrelation, htarget⟩ := h
  obtain ⟨found, hfound, hleads, hregistered⟩ := h'
  obtain rfl := Option.some.inj (hdefinition.symm.trans hfound)
  obtain rfl := Option.some.inj (hrelation.symm.trans hleads)
  exact ⟨rfl, Option.some.inj (htarget.symm.trans hregistered)⟩

/-! ## Stages of a selection -/

/-- Where a selection has come to: the entity whose attributes are selected, the entities that were
visited on the way, and how many relations may still be entered. -/
structure Stage where
  schema : Schema
  visited : List String
  depth : Nat

namespace Stage

/-- What is selected from a stage on for a request. -/
def select (r : Registry) (s : Stage) (tree : Fields) : Except Error (List (String × Selected)) :=
  resolve r s.depth s.schema s.visited (Wanted.ofFields tree)

/-- The stage inside a relation to an entity. -/
def enter (s : Stage) (target : Schema) (entity : String) : Stage :=
  ⟨target, entity :: s.visited, s.depth - 1⟩

end Stage

/-- The entries of a request that count as true, each with what is selected for it. -/
def Fields.selections (tree : Fields) (fields : List (String × Selected)) :
    List ((String × Value) × (String × Selected)) :=
  (tree.filter fun entry => entry.2.truthy).zip fields

/-- Going down a request and its selection from a stage on, through the entered relations, one comes
to a requested attribute and what is selected for it. -/
inductive Occurs (r : Registry) : Stage → Fields → List (String × Selected) →
    Stage → String × Value → String × Selected → Prop
  | here {s : Stage} {tree : Fields} {fields : List (String × Selected)} {entry : String × Value}
      {field : String × Selected} :
      (entry, field) ∈ Fields.selections tree fields → Occurs r s tree fields s entry field
  | inside {s s' : Stage} {tree : Fields} {fields inner : List (String × Selected)}
      {name name' entity : String} {value : Value} {cardinality : Cardinality}
      {pairs : List IdentifierPair} {relation : Relation} {target : Schema}
      {entry : String × Value} {field : String × Selected} :
      ((name, value), (name', .related entity cardinality pairs inner)) ∈
        Fields.selections tree fields →
      s.schema.Relates r name relation target →
      Occurs r (s.enter target entity) (relation.requested target value) inner s' entry field →
      Occurs r s tree fields s' entry field

section

variable {r : Registry}

/-- A relation is entered for an attribute that leads to a registered entity, and what is selected
inside is what is wanted of this entity. -/
theorem Resolves.of_related {schema : Schema} {visited : List String} {depth : Nat}
    {name name' entity : String} {wanted : Wanted} {cardinality : Cardinality}
    {pairs : List IdentifierPair} {inner : List (String × Selected)}
    (h : Resolves r schema visited depth (name, wanted)
      (name', .related entity cardinality pairs inner)) :
    ∃ relation target, schema.Relates r name relation target ∧
      resolve r (depth - 1) target (entity :: visited) (wantedOf relation target wanted) =
        .ok inner := by
  cases h with
  | related hdefinition hrelation _ htarget _ hinner =>
      exact ⟨_, _, ⟨_, hdefinition, hrelation, htarget⟩, hinner⟩

/-- What is selected for the entries of a request is what becomes of them. -/
theorem resolves_of_mem_selections {s : Stage} {tree : Fields} {fields : List (String × Selected)}
    (h : s.select r tree = .ok fields) {entry : String × Value} {field : String × Selected}
    (hmem : (entry, field) ∈ Fields.selections tree fields) :
    Resolves r s.schema s.visited s.depth (entry.1, Wanted.ofTruthy entry.2) field := by
  have hresolves := forall₂_of_resolve h
  rw [Wanted.ofFields_eq, List.forall₂_map_left_iff] at hresolves
  exact (List.forall₂_iff_zip.mp hresolves).2 hmem

/-- That is so at every stage of the selection. -/
theorem Occurs.resolves {s s' : Stage} {tree : Fields} {fields : List (String × Selected)}
    {entry : String × Value} {field : String × Selected}
    (hoccurs : Occurs r s tree fields s' entry field) (h : s.select r tree = .ok fields) :
    Resolves r s'.schema s'.visited s'.depth (entry.1, Wanted.ofTruthy entry.2) field := by
  induction hoccurs with
  | here hmem => exact resolves_of_mem_selections h hmem
  | inside hmem hrelates _ ih =>
      obtain ⟨relation, target, hfound, hinner⟩ := (resolves_of_mem_selections h hmem).of_related
      obtain ⟨rfl, rfl⟩ := hrelates.unique hfound
      rw [wantedOf_ofTruthy] at hinner
      exact ih hinner

/-- Only entries that count as true occur. -/
theorem Occurs.truthy {s s' : Stage} {tree : Fields} {fields : List (String × Selected)}
    {entry : String × Value} {field : String × Selected}
    (h : Occurs r s tree fields s' entry field) : entry.2.truthy = true := by
  induction h with
  | here hmem => exact (List.mem_filter.mp (List.of_mem_zip hmem).1).2
  | inside _ _ _ ih => exact ih

/-- A request of one attribute, for a value that counts as true. -/
theorem Wanted.ofFields_singleton {name : String} {value : Value} (h : value.truthy = true) :
    ofFields [(name, value)] = [(name, ofTruthy value)] := by
  rw [ofFields_eq, List.filter_singleton, h]
  rfl

/-- A request of names wants just these. -/
theorem Wanted.keys_ofFields_requesting (names : List String) :
    Fields.keys (ofFields (Fields.requesting names)) = names := by
  rw [ofFields_eq, Fields.requesting, List.filter_eq_self.mpr (by simp [Value.truthy]), Fields.keys,
    List.map_map, List.map_map]
  exact List.map_id names

/-! ## Replacing entries of requests -/

section

variable {depth : Nat} {schema : Schema} {visited : List String} {name : String} {value value' : Value}

/-- An attribute is selected alike for two values that count as true when, if it is a relation that may
be entered, they request alike of its target. -/
theorem resolve_singleton_congr (htruthy : value.truthy = true) (htruthy' : value'.truthy = true)
    (h : ∀ relation target, schema.Relates r name relation target →
      ∀ depth visited, resolve r depth target visited
          (Wanted.ofFields (relation.requested target value')) =
        resolve r depth target visited (Wanted.ofFields (relation.requested target value))) :
    resolve r depth schema visited (Wanted.ofFields [(name, value')]) =
      resolve r depth schema visited (Wanted.ofFields [(name, value)]) := by
  have hentry : resolveEntry r (entering r depth) schema visited name (Wanted.ofTruthy value') =
      resolveEntry r (entering r depth) schema visited name (Wanted.ofTruthy value) := by
    cases entryCase r schema visited name depth with
    | missing hdefinition =>
        rw [resolveEntry_missing hdefinition, resolveEntry_missing hdefinition]
    | plain hdefinition hrelation =>
        rw [resolveEntry_plain hdefinition hrelation, resolveEntry_plain hdefinition hrelation]
    | truncated hdefinition hrelation hreason =>
        rw [resolveEntry_truncated hdefinition hrelation hreason,
          resolveEntry_truncated hdefinition hrelation hreason]
    | unregistered hdefinition hrelation hvisited htarget =>
        rw [resolveEntry_unregistered hdefinition hrelation hvisited htarget,
          resolveEntry_unregistered hdefinition hrelation hvisited htarget]
    | entered hdefinition hrelation hvisited htarget =>
        rw [resolveEntry_entered hdefinition hrelation hvisited htarget,
          resolveEntry_entered hdefinition hrelation hvisited htarget, wantedOf_ofTruthy,
          wantedOf_ofTruthy, h _ _ ⟨_, hdefinition, hrelation, htarget⟩]
  rw [Wanted.ofFields_singleton htruthy, Wanted.ofFields_singleton htruthy', resolve_eq_mapM,
    resolve_eq_mapM, List.mapM_cons, List.mapM_cons, hentry]

/-- A request is answered alike when one of its entries is replaced by one that is. -/
theorem resolve_replace (before after : Fields)
    (h : resolve r depth schema visited (Wanted.ofFields [(name, value')]) =
      resolve r depth schema visited (Wanted.ofFields [(name, value)])) :
    resolve r depth schema visited (Wanted.ofFields (before ++ (name, value') :: after)) =
      resolve r depth schema visited (Wanted.ofFields (before ++ (name, value) :: after)) := by
  have happend : ∀ first second : Fields, Wanted.ofFields (first ++ second) =
      Wanted.ofFields first ++ Wanted.ofFields second := by
    intro first second
    rw [Wanted.ofFields_eq, Wanted.ofFields_eq, Wanted.ofFields_eq, List.filter_append,
      List.map_append]
  have hsplit : ∀ v : Value, Wanted.ofFields (before ++ (name, v) :: after) =
      Wanted.ofFields before ++ (Wanted.ofFields [(name, v)] ++ Wanted.ofFields after) := by
    intro v
    rw [happend, ← List.singleton_append, happend]
  rw [resolve_eq_mapM, resolve_eq_mapM] at h ⊢
  rw [hsplit, hsplit, List.mapM_append, List.mapM_append, List.mapM_append, List.mapM_append, h]

/-- The whole of a relation is selected like the record that requests each declared or plain attribute,
if there are any. -/
theorem resolve_whole {relation : Relation} {target : Schema}
    (hrelates : schema.Relates r name relation target) (htruthy : value.truthy = true)
    (hrecord : value.isRecord = false) (hnames : relation.declaredOrPlain target ≠ []) :
    resolve r depth schema visited (Wanted.ofFields
        [(name, .record (Fields.requesting (relation.declaredOrPlain target).eraseDups))]) =
      resolve r depth schema visited (Wanted.ofFields [(name, value)]) := by
  have hentries : Fields.requesting (relation.declaredOrPlain target).eraseDups ≠ [] :=
    fun hnil => hnames (eraseDups_eq_nil_iff.mp (List.map_eq_nil_iff.mp hnil))
  refine resolve_singleton_congr htruthy (by simp [Value.truthy, hentries]) ?_
  intro found registered hfound depth visited
  obtain ⟨rfl, rfl⟩ := hrelates.unique hfound
  rw [Relation.requested_of_not_record hrecord, Relation.defaultNames_of_ne_nil hnames]
  rfl

end

/-! ## Spelling requests out -/

/-- In a request for an entity one relation, here or inside the records of the request, is spelled out:
its whole is replaced by the record that requests each declared or plain attribute. -/
inductive SpelledOutOnce (r : Registry) : Schema → Fields → Fields → Prop
  | here {schema target : Schema} {before after : Fields} {name : String} {value : Value}
      {relation : Relation} :
      schema.Relates r name relation target → value.truthy = true → value.isRecord = false →
      relation.declaredOrPlain target ≠ [] →
      SpelledOutOnce r schema (before ++ (name, value) :: after) (before ++ (name,
        .record (Fields.requesting (relation.declaredOrPlain target).eraseDups)) :: after)
  | inside {schema target : Schema} {before after inner inner' : Fields} {name : String}
      {relation : Relation} :
      schema.Relates r name relation target → SpelledOutOnce r target inner inner' →
      SpelledOutOnce r schema (before ++ (name, .record inner) :: after)
        (before ++ (name, .record inner') :: after)

/-- Relations are spelled out, any number of them one after the other. -/
def SpelledOut (r : Registry) (schema : Schema) : Fields → Fields → Prop :=
  Relation.ReflTransGen (SpelledOutOnce r schema)

/-- Records in which a relation is spelled out have entries. -/
theorem SpelledOutOnce.truthy {schema : Schema} {inner inner' : Fields}
    (h : SpelledOutOnce r schema inner inner') :
    (Value.record inner).truthy = true ∧ (Value.record inner').truthy = true := by
  cases h <;> simp [Value.truthy]

/-- Spelling a relation out changes nothing, at any stage. -/
theorem SpelledOutOnce.resolve_eq {schema : Schema} {tree tree' : Fields}
    (h : SpelledOutOnce r schema tree tree') :
    ∀ depth visited, resolve r depth schema visited (Wanted.ofFields tree') =
      resolve r depth schema visited (Wanted.ofFields tree) := by
  induction h with
  | here hrelates htruthy hrecord hnames =>
      intro depth visited
      exact resolve_replace _ _ (resolve_whole hrelates htruthy hrecord hnames)
  | inside hrelates hinner ih =>
      intro depth visited
      refine resolve_replace _ _ (resolve_singleton_congr hinner.truthy.1 hinner.truthy.2 ?_)
      intro found registered hfound
      obtain ⟨rfl, rfl⟩ := hrelates.unique hfound
      exact ih

end

/-! ## Selections -/

/-- **The whole of a relation is its declared or plain attributes.** Wherever a relation is entered
in a selection for a value that is no record, the attributes selected of its target are the declared or
plain ones, each once and in order, exactly unless an empty list is declared for a target with plain
attributes; and when there are such attributes, the record that requests each of them gives the same
selection there. In a request any number of relations can be replaced by these records, at any depth,
and the selection is the same or fails with the same error. -/
theorem whole_relation_spelled_out (r : Registry) (schema : Schema) (visited : List String)
    (maxDepth : Int) :
    (∀ tree fields, inferSelections r maxDepth schema visited (Wanted.ofFields tree) = .ok fields →
      ∀ s name value name' entity cardinality pairs inner, value.isRecord = false →
        Occurs r ⟨schema, visited, maxDepth.toNat⟩ tree fields s (name, value)
          (name', .related entity cardinality pairs inner) →
        ∃ relation target, s.schema.Relates r name relation target ∧
          (Fields.keys inner = (relation.declaredOrPlain target).eraseDups ↔
            (relation.attributes = some [] → target.plainNames = [])) ∧
          (relation.declaredOrPlain target ≠ [] →
            s.select r [(name,
                .record (Fields.requesting (relation.declaredOrPlain target).eraseDups))] =
              .ok [(name', .related entity cardinality pairs inner)])) ∧
    ∀ tree tree', SpelledOut r schema tree tree' →
      inferSelections r maxDepth schema visited (Wanted.ofFields tree') =
        inferSelections r maxDepth schema visited (Wanted.ofFields tree) := by
  constructor
  · intro tree fields h s name value name' entity cardinality pairs inner hrecord hoccurs
    have hresolves := hoccurs.resolves h
    obtain ⟨relation, target, hrelates, hinner⟩ := hresolves.of_related
    refine ⟨relation, target, hrelates, ?_, fun hnames => ?_⟩
    · rw [wantedOf_ofTruthy, Relation.requested_of_not_record hrecord] at hinner
      rw [keys_of_resolve hinner, Wanted.keys_ofFields_requesting]
      exact Relation.defaultNames_eq_iff
    · refine (resolve_whole hrelates hoccurs.truthy hrecord hnames).trans ?_
      rw [Wanted.ofFields_singleton hoccurs.truthy]
      exact resolve_of_forall₂ (.cons hresolves .nil)
  · intro tree tree' h
    induction h with
    | refl => rfl
    | tail _ hstep ih => exact (hstep.resolve_eq maxDepth.toNat visited).trans ih

/-- Users, whose groups are read with titles and members. -/
def clubUser : Schema :=
  clubSchema "User" "name" "group" "Group" ["title", "members"]

/-- Groups, whose members are read with names and groups. -/
def clubGroup : Schema :=
  clubSchema "Group" "title" "members" "User" ["name", "group"]

/-- The members of a group with their names; their groups are cut off. -/
def clubMembers : String × Selected :=
  ("members", .related "User" .manyToOne [] [("name", .plain), ("group", .truncated "Group")])

/-- The group of a user with its title and members. -/
def clubSelection : List (String × Selected) :=
  [("group", .related "Group" .manyToOne [] [("title", .plain), clubMembers])]

/-- The whole of a group with the whole of its members in it, both spelled out. -/
def clubRequest : Fields :=
  [("group", .record [("title", .bool true),
    ("members", .record [("name", .bool true), ("group", .bool true)])])]

/-- The groups of users. -/
theorem clubUser_relates : clubUser.Relates clubRegistry "group"
    ⟨"Group", .manyToOne, .given [], some ["title", "members"]⟩ clubGroup :=
  ⟨_, rfl, rfl, rfl⟩

/-- The members of groups. -/
theorem clubGroup_relates : clubGroup.Relates clubRegistry "members"
    ⟨"User", .manyToOne, .given [], some ["name", "group"]⟩ clubUser :=
  ⟨_, rfl, rfl, rfl⟩

theorem clubRequest_spelledOut :
    SpelledOut clubRegistry clubUser [("group", .int 1)] clubRequest := by
  have hgroup : SpelledOutOnce clubRegistry clubUser [("group", .int 1)]
      [("group", .record (Fields.requesting ["title", "members"]))] :=
    @SpelledOutOnce.here _ _ _ [] [] _ _ _ clubUser_relates rfl rfl (by decide)
  have hmembers : SpelledOutOnce clubRegistry clubGroup (Fields.requesting ["title", "members"])
      [("title", .bool true), ("members", .record (Fields.requesting ["name", "group"]))] :=
    @SpelledOutOnce.here _ _ _ [("title", .bool true)] [] _ (.bool true) _ clubGroup_relates rfl rfl
      (by decide)
  exact .tail (.single hgroup) (@SpelledOutOnce.inside _ _ _ [] [] _ _ _ _ clubUser_relates hmembers)

/-- The members of the group of a user are selected like their names and groups, below the group as in
a request of their own; and the request that spells both out gives the same selection. -/
theorem clubMembers_spelled_out :
    inferSelections clubRegistry 5 clubUser [] (Wanted.ofFields [("group", .int 1)]) =
        .ok clubSelection ∧
      Occurs clubRegistry ⟨clubUser, [], 5⟩ [("group", .int 1)] clubSelection
        ⟨clubGroup, ["Group"], 4⟩ ("members", .bool true) clubMembers ∧
      Stage.select clubRegistry ⟨clubGroup, ["Group"], 4⟩
          [("members", .record (Fields.requesting ["name", "group"]))] = .ok [clubMembers] ∧
      SpelledOut clubRegistry clubUser [("group", .int 1)] clubRequest ∧
      inferSelections clubRegistry 5 clubUser [] (Wanted.ofFields clubRequest) = .ok clubSelection := by
  have hinfer : inferSelections clubRegistry 5 clubUser [] (Wanted.ofFields [("group", .int 1)]) =
      .ok clubSelection := rfl
  have hmembers : Occurs clubRegistry ⟨clubUser, [], 5⟩ [("group", .int 1)] clubSelection
      ⟨clubGroup, ["Group"], 4⟩ ("members", .bool true) clubMembers :=
    .inside List.mem_cons_self clubUser_relates (.here (List.mem_cons_of_mem _ List.mem_cons_self))
  obtain ⟨hwhole, hspelled⟩ := whole_relation_spelled_out clubRegistry clubUser [] 5
  obtain ⟨relation, target, hrelates, -, hselect⟩ := hwhole _ _ hinfer _ _ _ _ _ _ _ _ rfl hmembers
  obtain ⟨rfl, rfl⟩ := clubGroup_relates.unique hrelates
  exact ⟨hinfer, hmembers, hselect (by decide), clubRequest_spelledOut,
    (hspelled _ _ clubRequest_spelledOut).trans hinfer⟩

/-- A relation that declares an empty list is selected with the title of its target all the same. -/
theorem emptyDeclaration_ignored :
    inferSelections (Registry.empty.register clubGroup) 5 (clubSchema "User" "name" "group" "Group" [])
        [] (Wanted.ofFields [("group", .bool true)]) =
        .ok [("group", .related "Group" .manyToOne [] [("title", .plain)])] ∧
      (Relation.mk "Group" .manyToOne (.given []) (some [])).declaredOrPlain clubGroup = [] ∧
      Fields.keys [("title", Selected.plain)] ≠ ([] : List String).eraseDups :=
  ⟨rfl, rfl, by decide⟩

end RecordQuery
