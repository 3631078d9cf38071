import RecordQuery.Filter.Validate
import RecordQuery.Proofs.Fields
/-!
# Going through raw filters

A raw filter is a record, and what it holds in its branches are raw filters again. `branchItems?` is
the view of a record through which building and reporting both descend, `Value.memberInduction` is
the induction that goes with it, and `Value.everywhere` says of a value what holds of all it is made
of, as that there is no ready filter in it. A value has at most one of the three shapes, and
`Value.rawLeaves` finds in a tree of groups what is none.
-/

namespace RecordQuery

/-! ## Members of branches -/

/-- The raw members that a value holds as a branch: none when it is absent, the items of a list, and
no members at all when it is something else. -/
def Value.members? : Value → Option (List Value)
  | null => some []
  | list items => some items
  | _ => none

/-- The raw members of a branch of a record; a branch that is missing has none. -/
def branchItems? (fields : Fields) (branch : Connective) : Option (List Value) :=
  ((Fields.get? fields branch.word).getD .null).members?

theorem branchItems?_cons_self (branch : Connective) (value : Value) (rest : Fields) :
    branchItems? ((branch.word, value) :: rest) branch = value.members? := by
  rw [branchItems?, Fields.get?_cons, if_pos rfl]
  rfl

theorem branchItems?_cons_of_ne {branch : Connective} {key : String} (h : key ≠ branch.word)
    (value : Value) (rest : Fields) :
    branchItems? ((key, value) :: rest) branch = branchItems? rest branch := by
  rw [branchItems?, branchItems?, Fields.get?_cons, if_neg h.symm]

/-- A branch is built from its members. -/
theorem buildBranch_eq (w : Option Whitelist) (path : String) (branch : Connective)
    (fields : Fields) :
    buildBranch w path branch fields =
      match branchItems? fields branch with
      | some items => buildMembers w s!"{path}.{branch.word}" 0 items
      | none => .error (.shape (.branchNotList branch) (.text s!"{path}.{branch.word}")) := by
  induction fields with
  | nil => rfl
  | cons field rest ih =>
      obtain ⟨key, value⟩ := field
      rw [buildBranch.eq_def]
      by_cases hkey : key = branch.word
      · subst hkey
        rw [branchItems?_cons_self]
        cases value <;> exact if_pos rfl
      · rw [branchItems?_cons_of_ne hkey, ← ih]
        exact if_neg hkey

/-- A branch is reported on member by member. -/
theorem branchReports_eq (w : Option Whitelist) (path : String) (branch : Connective)
    (fields : Fields) :
    branchReports w path branch fields =
      match branchItems? fields branch with
      | some items => memberReports w s!"{path}.{branch.word}" 0 items
      | none => [.ok s!"{path}.{branch.word}: group branch must be a list"] := by
  induction fields with
  | nil => rfl
  | cons field rest ih =>
      obtain ⟨key, value⟩ := field
      rw [branchReports.eq_def]
      by_cases hkey : key = branch.word
      · subst hkey
        rw [branchItems?_cons_self]
        cases value <;> exact if_pos rfl
      · rw [branchItems?_cons_of_ne hkey, ← ih]
        exact if_neg hkey

/-- A branch that has members is a list in a field of the record. -/
theorem get?_of_branchItems? {fields : Fields} {branch : Connective} {items : List Value}
    (h : branchItems? fields branch = some items) (hne : items ≠ []) :
    Fields.get? fields branch.word = some (.list items) := by
  rw [branchItems?] at h
  cases hget : Fields.get? fields branch.word with
  | none =>
      rw [hget] at h
      exact absurd (Option.some.inj h).symm hne
  | some value =>
      rw [hget, Option.getD_some] at h
      cases value with
      | null => exact absurd (Option.some.inj h).symm hne
      | list found => rw [Option.some.inj h]
      | bool | int | float | text | tuple | record | moment | connective | node | deferred =>
          exact absurd h (by simp [Value.members?])

theorem mem_of_branchItems? {fields : Fields} {branch : Connective} {items : List Value}
    (h : branchItems? fields branch = some items) {item : Value} (hitem : item ∈ items) :
    (branch.word, .list items) ∈ fields :=
  Fields.mem_of_get? (get?_of_branchItems? h (List.ne_nil_of_mem hitem))

/-- A member of a branch is smaller than the record. -/
theorem sizeOf_lt_of_branchItems? {fields : Fields} {branch : Connective} {items : List Value}
    (h : branchItems? fields branch = some items) {item : Value} (hitem : item ∈ items) :
    sizeOf item < sizeOf (Value.record fields) := by
  have hfield := List.sizeOf_lt_of_mem (mem_of_branchItems? h hitem)
  have hmem := List.sizeOf_lt_of_mem hitem
  simp only [Prod.mk.sizeOf_spec, Value.list.sizeOf_spec] at hfield
  simp only [Value.record.sizeOf_spec]
  omega

/-- What holds of values that are no records, and of records of whose members it holds, holds of
every raw filter. -/
@[elab_as_elim]
theorem Value.memberInduction {P : Value → Prop}
    (record : ∀ fields, (∀ branch items, branchItems? fields branch = some items →
      ∀ item ∈ items, P item) → P (.record fields))
    (other : ∀ v : Value, v.record? = none → P v) : ∀ v : Value, P v
  | .record fields =>
    record fields fun _ _ _ item _ => Value.memberInduction record other item
  | .null | .bool _ | .int _ | .float _ | .text _ | .list _ | .tuple _ | .moment _ | .connective _
  | .node _ | .deferred _ => other _ rfl
termination_by v => sizeOf v
decreasing_by exact sizeOf_lt_of_branchItems? ‹_› ‹_›

/-! ## What a value is made of -/

/-- What holds of scalars and ready filters, and of lists, tuples, records and deferred values of
whose parts it holds, holds of every value. -/
@[elab_as_elim]
theorem Value.partInduction {P : Value → Prop}
    (list : ∀ items, (∀ item ∈ items, P item) → P (.list items))
    (tuple : ∀ items, (∀ item ∈ items, P item) → P (.tuple items))
    (record : ∀ fields : Fields, (∀ field ∈ fields, P field.2) → P (.record fields))
    (deferred : ∀ answer, P answer → P (.deferred answer))
    (other : ∀ v : Value, v.items? = none → v.record? = none → (∀ answer, v ≠ .deferred answer) →
      P v) : ∀ v : Value, P v
  | .list items => list items fun item _ => Value.partInduction list tuple record deferred other item
  | .tuple items => tuple items fun item _ => Value.partInduction list tuple record deferred other item
  | .record fields =>
    record fields fun field _ => Value.partInduction list tuple record deferred other field.2
  | .deferred answer => deferred answer (Value.partInduction list tuple record deferred other answer)
  | .null | .bool _ | .int _ | .float _ | .text _ | .moment _ | .connective _ | .node _ =>
    other _ rfl rfl (fun _ h => nomatch h)
termination_by v => sizeOf v
decreasing_by
  · have := List.sizeOf_lt_of_mem ‹item ∈ items›
    simp only [Value.list.sizeOf_spec]
    omega
  · have := List.sizeOf_lt_of_mem ‹item ∈ items›
    simp only [Value.tuple.sizeOf_spec]
    omega
  · have hmem := List.sizeOf_lt_of_mem ‹field ∈ fields›
    obtain ⟨key, value⟩ := field
    simp only [Prod.mk.sizeOf_spec] at hmem
    simp only [Value.record.sizeOf_spec]
    omega
  · simp only [Value.deferred.sizeOf_spec]
    omega

mutual

/-- Whether a test passes on a value and on all values inside it. Ready filters are not looked
into. -/
def Value.everywhere (test : Value → Bool) : Value → Bool
  | .list items => test (.list items) && Value.everywhereItems test items
  | .tuple items => test (.tuple items) && Value.everywhereItems test items
  | .record fields => test (.record fields) && Value.everywhereFields test fields
  | .deferred answer => test (.deferred answer) && answer.everywhere test
  | v => test v
termination_by structural v => v

/-- Whether a test passes everywhere in the items of a list. -/
def Value.everywhereItems (test : Value → Bool) : List Value → Bool
  | [] => true
  | item :: rest => item.everywhere test && Value.everywhereItems test rest
termination_by structural items => items

/-- Whether a test passes everywhere in the fields of a record. -/
def Value.everywhereFields (test : Value → Bool) : List (String × Value) → Bool
  | [] => true
  | (_, value) :: rest => value.everywhere test && Value.everywhereFields test rest
termination_by structural fields => fields

end

namespace Value

variable {test : Value → Bool}

theorem everywhereItems_iff {items : List Value} :
    everywhereItems test items = true ↔ ∀ item ∈ items, item.everywhere test = true := by
  induction items with
  | nil => simp [everywhereItems]
  | cons item rest ih => simp [everywhereItems, ih]

theorem everywhereFields_iff {fields : Fields} :
    everywhereFields test fields = true ↔ ∀ field ∈ fields, field.2.everywhere test = true := by
  induction fields with
  | nil => simp [everywhereFields]
  | cons field rest ih =>
      obtain ⟨key, value⟩ := field
      simp [everywhereFields, ih]

/-- A test passes everywhere in a list when it passes on the list and everywhere in its items. -/
theorem everywhere_list {items : List Value} :
    (list items).everywhere test = true ↔
      test (list items) = true ∧ ∀ item ∈ items, item.everywhere test = true := by
  rw [everywhere, Bool.and_eq_true, everywhereItems_iff]

/-- A test passes everywhere in a tuple when it passes on the tuple and everywhere in its items. -/
theorem everywhere_tuple {items : List Value} :
    (tuple items).everywhere test = true ↔
      test (tuple items) = true ∧ ∀ item ∈ items, item.everywhere test = true := by
  rw [everywhere, Bool.and_eq_true, everywhereItems_iff]

/-- A test passes everywhere in a record when it passes on the record and everywhere in its
fields. -/
theorem everywhere_record {fields : Fields} :
    (record fields).everywhere test = true ↔
      test (record fields) = true ∧ ∀ field ∈ fields, field.2.everywhere test = true := by
  rw [everywhere, Bool.and_eq_true, everywhereFields_iff]

/-- What passes a test everywhere passes it. -/
theorem test_of_everywhere {v : Value} (h : v.everywhere test = true) : test v = true := by
  cases v <;> simp_all [everywhere]

/-- A test that passes everywhere in a raw filter passes everywhere in its members. -/
theorem everywhere_of_branchItems? {fields : Fields} (h : (record fields).everywhere test = true)
    {branch : Connective} {items : List Value} (hitems : branchItems? fields branch = some items) :
    ∀ item ∈ items, item.everywhere test = true := by
  intro item hitem
  have hlist := (everywhere_record.mp h).2 _ (mem_of_branchItems? hitems hitem)
  exact (everywhere_list.mp hlist).2 item hitem

end Value

/-! ## Ready filters -/

namespace Value

/-- The value is a ready filter. -/
def isNode : Value → Bool
  | node _ => true
  | _ => false

/-- There is no ready filter in the value. -/
def isNodeFree (v : Value) : Bool :=
  v.everywhere fun part => !part.isNode

/-- A value without ready filters is no ready filter. -/
theorem ne_node_of_isNodeFree {v : Value} (h : v.isNodeFree = true) (n : Node) : v ≠ node n := by
  rintro rfl
  exact absurd (test_of_everywhere h) (by simp [isNode])

end Value

/-! ## Shapes -/

/-- Branches are no metadata. -/
theorem FilterKey.isMetadata_word (branch : Connective) : isMetadata branch.word = false := by
  cases branch <;> decide

/-- The metadata of a map of attributes is metadata of any filter. -/
theorem FilterKey.isMetadata_of_isMapMetadata {key : String} {value : Value}
    (h : isMapMetadata key value = true) : isMetadata key = true := by
  rw [isMapMetadata, Bool.or_eq_true, Bool.and_eq_true] at h
  rw [isMetadata, Bool.or_eq_true]
  exact h.imp_right And.left

namespace Value

variable {fields : Fields}

/-- A group has no field for the name of an attribute. -/
theorem not_isGroupFilter_of_has (h : Fields.has fields FilterKey.name = true) :
    ¬(record fields).isGroupFilter = true := by
  intro hgroup
  obtain ⟨name, hname⟩ := Fields.has_iff.mp h
  rw [isGroupFilter, Bool.and_eq_true, List.all_eq_true] at hgroup
  have hkey : ¬(FilterKey.isBranch FilterKey.name || FilterKey.isMetadata FilterKey.name) = true := by
    decide
  exact hkey (hgroup.2 _ (Fields.mem_of_get? hname))

/-- A filter on one attribute is no group: it has a field for the name of the attribute. -/
theorem not_isGroupFilter_of_isAttributeFilter (h : (record fields).isAttributeFilter = true) :
    ¬(record fields).isGroupFilter = true := by
  rw [isAttributeFilter, Bool.and_eq_true] at h
  exact not_isGroupFilter_of_has h.2

/-- A filter on one attribute is no map of attributes: such a map has no field for a name either. -/
theorem not_isEntityFilter_of_isAttributeFilter (h : (record fields).isAttributeFilter = true) :
    ¬(record fields).isEntityFilter = true := by
  intro hmap
  rw [isAttributeFilter, Bool.and_eq_true] at h
  rw [isEntityFilter, Bool.and_eq_true, h.2] at hmap
  exact absurd hmap.1 (by simp)

/-- A group is no map of attributes: its branches hold neither metadata nor operators. -/
theorem not_isEntityFilter_of_isGroupFilter (h : (record fields).isGroupFilter = true) :
    ¬(record fields).isEntityFilter = true := by
  intro hmap
  rw [isEntityFilter, Bool.and_eq_true, List.all_eq_true] at hmap
  rw [isGroupFilter, Bool.and_eq_true, List.any_eq_true] at h
  obtain ⟨⟨branch, -, hlist⟩, -⟩ := h
  have hword := FilterKey.isMetadata_word branch
  cases hget : Fields.get? fields branch.word with
  | none =>
      rw [hget] at hlist
      exact absurd hlist (by simp [isList])
  | some value =>
      rw [hget, Option.getD_some] at hlist
      cases value with
      | list items =>
          rcases Bool.or_eq_true_iff.mp (hmap.2 _ (Fields.mem_of_get? hget)) with hmeta | hcriteria
          · rw [FilterKey.isMetadata_of_isMapMetadata hmeta] at hword
            exact absurd hword (by simp)
          · exact absurd hcriteria (by simp [isCriteria])
      | null | bool | int | float | text | tuple | record | moment | connective | node | deferred =>
          exact absurd hlist (by simp [isList])

/-- What is no record has none of the shapes. -/
theorem no_shape_of_not_record {v : Value} (h : v.record? = none) :
    ¬v.isAttributeFilter = true ∧ ¬v.isGroupFilter = true ∧ ¬v.isEntityFilter = true := by
  cases v with
  | record => exact absurd h (by simp [record?])
  | null | bool | int | float | text | list | tuple | moment | connective | node | deferred =>
      exact ⟨Bool.false_ne_true, Bool.false_ne_true, Bool.false_ne_true⟩

/-- A record has one of the shapes, or none of them. -/
theorem shape_cases (fields : Fields) :
    (record fields).isAttributeFilter = true ∨ (record fields).isGroupFilter = true ∨
      (record fields).isEntityFilter = true ∨
      (¬(record fields).isAttributeFilter = true ∧ ¬(record fields).isGroupFilter = true ∧
        ¬(record fields).isEntityFilter = true) := by
  by_cases hattribute : (record fields).isAttributeFilter = true
  · exact .inl hattribute
  by_cases hgroup : (record fields).isGroupFilter = true
  · exact .inr (.inl hgroup)
  by_cases hmap : (record fields).isEntityFilter = true
  · exact .inr (.inr (.inl hmap))
  exact .inr (.inr (.inr ⟨hattribute, hgroup, hmap⟩))

/-! ## Maps of attributes inside a filter -/

/-- A raw filter has a map of attributes inside: it is one, or a member of its branches has. -/
inductive HasMap : Value → Fields → Prop
  | self {fields : Fields} : (record fields).isEntityFilter = true → HasMap (record fields) fields
  | member {fields inner : Fields} {branch : Connective} {items : List Value} {item : Value} :
      (record fields).isGroupFilter = true → branchItems? fields branch = some items →
      item ∈ items → HasMap item inner → HasMap (record fields) inner

/-- A map of attributes has no other map inside. -/
theorem hasMap_iff_of_isEntityFilter {inner : Fields} (h : (record fields).isEntityFilter = true) :
    HasMap (record fields) inner ↔ inner = fields := by
  constructor
  · intro hmap
    cases hmap with
    | self => rfl
    | member hgroup => exact absurd h (not_isEntityFilter_of_isGroupFilter hgroup)
  · rintro rfl
    exact .self h

/-- The maps of attributes inside a group are those inside its members. -/
theorem hasMap_iff_of_isGroupFilter {inner : Fields} (h : (record fields).isGroupFilter = true) :
    HasMap (record fields) inner ↔ ∃ branch items, branchItems? fields branch = some items ∧
      ∃ item ∈ items, HasMap item inner := by
  constructor
  · intro hmap
    cases hmap with
    | self hentity => exact absurd hentity (not_isEntityFilter_of_isGroupFilter h)
    | member _ hitems hitem hinner => exact ⟨_, _, hitems, _, hitem, hinner⟩
  · rintro ⟨branch, items, hitems, item, hitem, hinner⟩
    exact .member h hitems hitem hinner

/-- A property of all maps of attributes inside a raw filter. -/
def AllMaps (Q : Fields → Prop) (v : Value) : Prop :=
  ∀ inner, v.HasMap inner → Q inner

variable {Q : Fields → Prop}

theorem allMaps_iff_of_isEntityFilter (h : (record fields).isEntityFilter = true) :
    (record fields).AllMaps Q ↔ Q fields := by
  simp only [AllMaps, hasMap_iff_of_isEntityFilter h, forall_eq]

theorem allMaps_iff_of_isGroupFilter (h : (record fields).isGroupFilter = true) :
    (record fields).AllMaps Q ↔ ∀ branch items, branchItems? fields branch = some items →
      ∀ item ∈ items, item.AllMaps Q := by
  simp only [AllMaps, hasMap_iff_of_isGroupFilter h]
  constructor
  · intro hall branch items hitems item hitem inner hinner
    exact hall inner ⟨branch, items, hitems, item, hitem, hinner⟩
  · rintro hall inner ⟨branch, items, hitems, item, hitem, hinner⟩
    exact hall branch items hitems item hitem inner hinner

/-- What is neither a group nor a map of attributes has no such map inside. -/
theorem allMaps_of_no_map {v : Value} (hgroup : ¬v.isGroupFilter = true)
    (hmap : ¬v.isEntityFilter = true) : v.AllMaps Q := by
  intro inner hinner
  cases hinner with
  | self h => exact absurd h hmap
  | member h => exact absurd h hgroup

/-- A filter on one attribute has no map of attributes inside. -/
theorem allMaps_of_isAttributeFilter (h : (record fields).isAttributeFilter = true) :
    (record fields).AllMaps Q :=
  allMaps_of_no_map (not_isGroupFilter_of_isAttributeFilter h)
    (not_isEntityFilter_of_isAttributeFilter h)

end Value

/-! ## Raw leaves -/

mutual

/-- The raw filters in the branches of a tree of groups that are no groups themselves, from left to
right, each with its place. -/
def Value.rawLeaves (path : String) : Value → List (String × Value)
  | .record fields =>
    if (Value.record fields).isGroupFilter then
      Value.branchRawLeaves path .and fields ++ Value.branchRawLeaves path .or fields ++
        Value.branchRawLeaves path .not fields
    else [(path, .record fields)]
  | v => [(path, v)]
termination_by structural value => value

/-- The raw leaves in a branch among the fields of a group. -/
def Value.branchRawLeaves (path : String) (branch : Connective) :
    List (String × Value) → List (String × Value)
  | [] => []
  | (key, value) :: rest =>
    if key = branch.word then
      match value with
      | .list items => Value.memberRawLeaves s!"{path}.{branch.word}" 0 items
      | _ => []
    else Value.branchRawLeaves path branch rest
termination_by structural fields => fields

/-- The raw leaves in the members of a branch, of which the first has the given index. -/
def Value.memberRawLeaves (path : String) (index : Nat) : List Value → List (String × Value)
  | [] => []
  | value :: rest =>
    value.rawLeaves s!"{path}[{index}]" ++ Value.memberRawLeaves path (index + 1) rest
termination_by structural values => values

end

namespace Value

/-- The raw leaves of a branch are those of its members. -/
theorem branchRawLeaves_eq (path : String) (branch : Connective) (fields : Fields) :
    branchRawLeaves path branch fields =
      match branchItems? fields branch with
      | some items => memberRawLeaves s!"{path}.{branch.word}" 0 items
      | none => [] := by
  induction fields with
  | nil => rfl
  | cons field rest ih =>
      obtain ⟨key, value⟩ := field
      rw [branchRawLeaves.eq_def]
      by_cases hkey : key = branch.word
      · subst hkey
        rw [branchItems?_cons_self]
        cases value <;> exact if_pos rfl
      · rw [branchItems?_cons_of_ne hkey, ← ih]
        exact if_neg hkey

theorem rawLeaves_of_isGroupFilter {fields : Fields} (h : (record fields).isGroupFilter = true)
    (path : String) :
    (record fields).rawLeaves path =
      branchRawLeaves path .and fields ++ branchRawLeaves path .or fields ++
        branchRawLeaves path .not fields := by
  rw [rawLeaves, if_pos h]

/-- What is no group is a raw leaf of its own. -/
theorem rawLeaves_of_not_isGroupFilter {v : Value} (h : ¬v.isGroupFilter = true) (path : String) :
    v.rawLeaves path = [(path, v)] := by
  cases v with
  | record fields => rw [rawLeaves, if_neg h]
  | null | bool | int | float | text | list | tuple | moment | connective | node | deferred => rfl

/-- A tree of groups: every branch that is present is a list, and what stands there besides groups is
no map of attributes. -/
inductive IsGroupTree : Value → Prop
  | leaf {v : Value} : ¬v.isGroupFilter = true → ¬v.isEntityFilter = true → IsGroupTree v
  | group {fields : Fields} : (record fields).isGroupFilter = true →
      (∀ branch, (branchItems? fields branch).isSome = true) →
      (∀ branch items, branchItems? fields branch = some items → ∀ item ∈ items, IsGroupTree item) →
      IsGroupTree (record fields)

end Value

end RecordQuery
