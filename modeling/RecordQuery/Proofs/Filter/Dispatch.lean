import Mathlib.Data.List.Basic
import RecordQuery.Proofs.Filter.Descent
/-!
# The order of the tests for shapes

Building and reporting find out the shape of a raw filter by one test after the other, each in an order
of its own. No value has two shapes, so the order of the tests does not matter: `buildInOrder` and
`reportsInOrder` test in any order at every level of a filter, and `shapes_exclusive` says that they
build and report the same.
-/

namespace RecordQuery

/-! ## Shapes -/

/-- The shapes of raw filters: operators on one attribute, a group, a map of attributes. -/
inductive Shape
  | leaf
  | group
  | map

namespace Shape

/-- The value has the shape. -/
def fits : Shape → Value → Bool
  | leaf, v => v.isAttributeFilter
  | group, v => v.isGroupFilter
  | map, v => v.isEntityFilter

/-- The shapes in the order in which building tests for them. -/
def buildingOrder : List Shape := [leaf, group, map]

/-- The shapes in the order in which reporting tests for them; whatever has none of these is left to
building. -/
def reportingOrder : List Shape := [group, map]

/-- The first shape that the value has, when it is tested for shapes in order. -/
def first? (order : List Shape) (v : Value) : Option Shape :=
  order.find? fun shape => shape.fits v

/-- No value has two shapes. -/
theorem eq_of_fits {a b : Shape} {v : Value} (ha : a.fits v = true) (hb : b.fits v = true) :
    a = b := by
  cases hrecord : v.record? with
  | none =>
      obtain ⟨hleaf, hgroup, hmap⟩ := Value.no_shape_of_not_record hrecord
      cases a with
      | leaf => exact absurd ha hleaf
      | group => exact absurd ha hgroup
      | map => exact absurd ha hmap
  | some fields =>
      obtain rfl : v = .record fields := by
        cases v <;> simp_all [Value.record?]
      cases a with
      | leaf =>
          cases b with
          | leaf => rfl
          | group => exact absurd hb (Value.not_isGroupFilter_of_isAttributeFilter ha)
          | map => exact absurd hb (Value.not_isEntityFilter_of_isAttributeFilter ha)
      | group =>
          cases b with
          | leaf => exact absurd ha (Value.not_isGroupFilter_of_isAttributeFilter hb)
          | group => rfl
          | map => exact absurd hb (Value.not_isEntityFilter_of_isGroupFilter ha)
      | map =>
          cases b with
          | leaf => exact absurd ha (Value.not_isEntityFilter_of_isAttributeFilter hb)
          | group => exact absurd ha (Value.not_isEntityFilter_of_isGroupFilter hb)
          | map => rfl

/-- A shape that is tested for is found when the value has it, wherever it stands among the tests. -/
theorem first?_eq_some_iff {order : List Shape} {v : Value} {shape : Shape} :
    first? order v = some shape ↔ shape ∈ order ∧ shape.fits v = true := by
  unfold first?
  constructor
  · intro h
    have hfits := List.find?_some h
    exact ⟨List.mem_of_find?_eq_some h, hfits⟩
  · rintro ⟨hmem, hfits⟩
    cases hfirst : order.find? fun shape => shape.fits v with
    | none => exact absurd hfits (List.find?_eq_none.mp hfirst shape hmem)
    | some found =>
        have hfound := List.find?_some hfirst
        rw [eq_of_fits hfound hfits]

/-- The order of the tests does not matter. -/
theorem first?_perm {order order' : List Shape} (h : order.Perm order') (v : Value) :
    first? order v = first? order' v := by
  ext shape
  rw [first?_eq_some_iff, first?_eq_some_iff, h.mem_iff]

end Shape

/-! ## Building -/

section

variable (order : List Shape) (w : Option Whitelist)

mutual

/-- The canonical tree of a raw filter at a place, when records are tested for shapes in the given
order. -/
def buildInOrder (path : String) : Value → Except FilterError Node
  | .node n => .ok n
  | .record fields =>
    match Shape.first? order (.record fields) with
    | some .leaf => attributeLeaf w path fields
    | some .group => do
      let ands ← branchInOrder path .and fields
      let ors ← branchInOrder path .or fields
      let nots ← branchInOrder path .not fields
      let tag := Tag.ofFields fields
      return .group ands ors nots tag.id tag.label
    | some .map => (mapGroup w path fields).map Group.toNode
    | none => .error (shapeFault path (.record fields))
  | v => .error (shapeFault path v)
termination_by structural value => value

/-- The members of a branch among the fields of a group. -/
def branchInOrder (path : String) (branch : Connective) :
    List (String × Value) → Except FilterError (List Node)
  | [] => .ok []
  | (key, value) :: rest =>
    if key = branch.word then
      match value with
      | .null => .ok []
      | .list items => membersInOrder s!"{path}.{branch.word}" 0 items
      | _ => .error (.shape (.branchNotList branch) (.text s!"{path}.{branch.word}"))
    else branchInOrder path branch rest
termination_by structural fields => fields

/-- The members of a branch, of which the first has the given index. -/
def membersInOrder (path : String) (index : Nat) : List Value → Except FilterError (List Node)
  | [] => .ok []
  | value :: rest => do
    let member ← buildInOrder s!"{path}[{index}]" value
    let rest ← membersInOrder path (index + 1) rest
    return member :: rest
termination_by structural values => values

end

end

section

variable {order : List Shape} {w : Option Whitelist}

/-- The builder tests a record in its order. -/
theorem buildAt_record (path : String) (fields : Fields) :
    buildAt w path (.record fields) =
      match Shape.first? Shape.buildingOrder (.record fields) with
      | some .leaf => attributeLeaf w path fields
      | some .group => do
        let ands ← buildBranch w path .and fields
        let ors ← buildBranch w path .or fields
        let nots ← buildBranch w path .not fields
        let tag := Tag.ofFields fields
        return .group ands ors nots tag.id tag.label
      | some .map => (mapGroup w path fields).map Group.toNode
      | none => .error (shapeFault path (.record fields)) := by
  rw [buildAt, Shape.first?, Shape.buildingOrder, List.find?_cons, List.find?_cons, List.find?_cons]
  simp only [Shape.fits]
  cases (Value.record fields).isAttributeFilter <;> cases (Value.record fields).isGroupFilter <;>
    cases (Value.record fields).isEntityFilter <;> rfl

mutual

/-- Building gives the same in any order of the tests. -/
theorem buildInOrder_eq (horder : order.Perm Shape.buildingOrder) (path : String) :
    ∀ v : Value, buildInOrder order w path v = buildAt w path v
  | .record fields => by
    rw [buildInOrder, buildAt_record, Shape.first?_perm horder, branchInOrder_eq horder path .and,
      branchInOrder_eq horder path .or, branchInOrder_eq horder path .not]
  | .node _ | .null | .bool _ | .int _ | .float _ | .text _ | .list _ | .tuple _ | .moment _
  | .connective _ | .deferred _ => rfl
termination_by structural v => v

theorem branchInOrder_eq (horder : order.Perm Shape.buildingOrder) (path : String)
    (branch : Connective) : ∀ fields : List (String × Value),
      branchInOrder order w path branch fields = buildBranch w path branch fields
  | [] => rfl
  | (key, value) :: rest => by
    rw [branchInOrder.eq_def, buildBranch.eq_def]
    dsimp only
    rw [branchInOrder_eq horder path branch rest]
    cases value with
    | list items =>
        dsimp only
        rw [membersInOrder_eq horder _ 0 items]
    | null | bool | int | float | text | tuple | record | moment | connective | node | deferred => rfl
termination_by structural fields => fields

theorem membersInOrder_eq (horder : order.Perm Shape.buildingOrder) (path : String) (index : Nat) :
    ∀ values : List Value, membersInOrder order w path index values = buildMembers w path index values
  | [] => rfl
  | value :: rest => by
    rw [membersInOrder, buildMembers, buildInOrder_eq horder _ value,
      membersInOrder_eq horder path (index + 1) rest]
termination_by structural values => values

end

end

/-! ## Reporting -/

section

variable (order : List Shape) (build : String → Value → Except FilterError Node)

/-- The report of a filter that is built as a whole in the given way. -/
def leafReportsBy (path : String) (v : Value) : List (Except Fault String) :=
  match build path v with
  | .ok _ => []
  | .error e => [reported path e]

/-- The reports of the entries of a map of attributes. -/
def mapReportsBy (path : String) (fields : Fields) : List (Except Fault String) :=
  (fields.filter fun field => !FilterKey.isMapMetadata field.1 field.2).flatMap fun field =>
    leafReportsBy build s!"{path}.{field.1}" (entryFilter field.1 field.2)

mutual

/-- The reports of all faults of a raw filter at a place, when records are tested for shapes in the
given order and what is built is built in the given way. -/
def reportsInOrder (path : String) : Value → List (Except Fault String)
  | .record fields =>
    match Shape.first? order (.record fields) with
    | some .group =>
      branchReportsInOrder path .and fields ++ branchReportsInOrder path .or fields ++
        branchReportsInOrder path .not fields
    | some .map => mapReportsBy build path fields
    | _ => leafReportsBy build path (.record fields)
  | v => leafReportsBy build path v
termination_by structural value => value

/-- The reports of a branch among the fields of a group. -/
def branchReportsInOrder (path : String) (branch : Connective) :
    List (String × Value) → List (Except Fault String)
  | [] => []
  | (key, value) :: rest =>
    if key = branch.word then
      match value with
      | .null => []
      | .list items => memberReportsInOrder s!"{path}.{branch.word}" 0 items
      | _ => [.ok s!"{path}.{branch.word}: group branch must be a list"]
    else branchReportsInOrder path branch rest
termination_by structural fields => fields

/-- The reports of the members of a branch, of which the first has the given index. -/
def memberReportsInOrder (path : String) (index : Nat) :
    List Value → List (Except Fault String)
  | [] => []
  | value :: rest =>
    reportsInOrder s!"{path}[{index}]" value ++ memberReportsInOrder path (index + 1) rest
termination_by structural values => values

end

end

section

variable {order : List Shape} {w : Option Whitelist}

/-- Reporting tests a record in its order. -/
theorem reportsAt_record (path : String) (fields : Fields) :
    reportsAt w path (.record fields) =
      match Shape.first? Shape.reportingOrder (.record fields) with
      | some .group =>
        branchReports w path .and fields ++ branchReports w path .or fields ++
          branchReports w path .not fields
      | some .map => mapReports w path fields
      | _ => leafReports w path (.record fields) := by
  rw [reportsAt, Shape.first?, Shape.reportingOrder, List.find?_cons, List.find?_cons]
  simp only [Shape.fits]
  cases (Value.record fields).isGroupFilter <;> cases (Value.record fields).isEntityFilter <;> rfl

mutual

/-- Reporting gives the same in any order of the tests. -/
theorem reportsInOrder_eq (horder : order.Perm Shape.reportingOrder) (path : String) :
    ∀ v : Value, reportsInOrder order (buildAt w) path v = reportsAt w path v
  | .record fields => by
    rw [reportsInOrder, reportsAt_record, Shape.first?_perm horder,
      branchReportsInOrder_eq horder path .and, branchReportsInOrder_eq horder path .or,
      branchReportsInOrder_eq horder path .not]
    rfl
  | .node _ | .null | .bool _ | .int _ | .float _ | .text _ | .list _ | .tuple _ | .moment _
  | .connective _ | .deferred _ => rfl
termination_by structural v => v

theorem branchReportsInOrder_eq (horder : order.Perm Shape.reportingOrder) (path : String)
    (branch : Connective) : ∀ fields : List (String × Value),
      branchReportsInOrder order (buildAt w) path branch fields = branchReports w path branch fields
  | [] => rfl
  | (key, value) :: rest => by
    rw [branchReportsInOrder.eq_def, branchReports.eq_def]
    dsimp only
    rw [branchReportsInOrder_eq horder path branch rest]
    cases value with
    | list items =>
        dsimp only
        rw [memberReportsInOrder_eq horder _ 0 items]
    | null | bool | int | float | text | tuple | record | moment | connective | node | deferred => rfl
termination_by structural fields => fields

theorem memberReportsInOrder_eq (horder : order.Perm Shape.reportingOrder) (path : String)
    (index : Nat) : ∀ values : List Value,
      memberReportsInOrder order (buildAt w) path index values = memberReports w path index values
  | [] => rfl
  | value :: rest => by
    rw [memberReportsInOrder, memberReports, reportsInOrder_eq horder _ value,
      memberReportsInOrder_eq horder path (index + 1) rest]
termination_by structural values => values

end

end

/-- **The shapes exclude each other.** No value is at once operators on one attribute, a group or a map
of attributes. Building and reporting, which test for the shapes in different orders, find the same
shape, save that reporting leaves operators on one attribute to building; and in any other order of the
tests, at every level of a filter, both give the same. -/
theorem shapes_exclusive (v : Value) :
    (¬(v.isAttributeFilter = true ∧ v.isGroupFilter = true) ∧
      ¬(v.isAttributeFilter = true ∧ v.isEntityFilter = true) ∧
      ¬(v.isGroupFilter = true ∧ v.isEntityFilter = true)) ∧
    (∀ shape, Shape.first? Shape.reportingOrder v = some shape ↔
      Shape.first? Shape.buildingOrder v = some shape ∧ shape ≠ .leaf) ∧
    ∀ order, order.Perm Shape.buildingOrder → ∀ w path,
      buildInOrder order w path v = buildAt w path v ∧
        ∀ order', order'.Perm Shape.reportingOrder →
          reportsInOrder order' (buildInOrder order w) path v = reportsAt w path v := by
  refine ⟨⟨?_, ?_, ?_⟩, fun shape => ?_, fun order horder w path =>
    ⟨buildInOrder_eq horder path v, fun order' horder' => ?_⟩⟩
  · rintro ⟨hleaf, hgroup⟩
    exact absurd (Shape.eq_of_fits (a := .leaf) (b := .group) hleaf hgroup) (by simp)
  · rintro ⟨hleaf, hmap⟩
    exact absurd (Shape.eq_of_fits (a := .leaf) (b := .map) hleaf hmap) (by simp)
  · rintro ⟨hgroup, hmap⟩
    exact absurd (Shape.eq_of_fits (a := .group) (b := .map) hgroup hmap) (by simp)
  · rw [Shape.first?_eq_some_iff, Shape.first?_eq_some_iff, and_right_comm]
    refine and_congr_left fun _ => ?_
    cases shape <;> simp [Shape.reportingOrder, Shape.buildingOrder]
  · have hbuild : buildInOrder order w = buildAt w := by
      funext path v
      exact buildInOrder_eq horder path v
    rw [hbuild, reportsInOrder_eq horder']

/-- A group with an id. Its members are a map of attributes named like a branch and like metadata, and
operators on an attribute named like a branch. -/
def oddlyNamedFilter : Value :=
  .record [("id", .int 7), ("or", .list [
    .record [("not", .record [("eq", .int 1)]), ("id", .record [("gt", .int 2)]), ("label", .text "x")],
    .record [("attribute", .text "and"), ("neq", .int 3)]])]

/-- It is built and reported on alike when maps of attributes are tested for first and operators on one
attribute last. -/
theorem oddlyNamedFilter_in_reverse :
    [Shape.map, .group, .leaf].Perm Shape.buildingOrder ∧
      [Shape.map, .group].Perm Shape.reportingOrder ∧
      buildInOrder [.map, .group, .leaf] none rootPath oddlyNamedFilter =
        .ok (.group [] [
          .group [.leaf "not" [(.equals, .int 1)] .and .null .null,
            .leaf "id" [(.greater, .int 2)] .and .null .null] [] [] .null (.text "x"),
          .leaf "and" [(.differs, .int 3)] .and .null .null] [] (.int 7) .null) ∧
      reportsInOrder [.map, .group] (buildInOrder [.map, .group, .leaf] none) rootPath
        oddlyNamedFilter = [] := by
  have hbuilding : [Shape.map, .group, .leaf].Perm Shape.buildingOrder :=
    Shape.buildingOrder.reverse_perm
  have hreporting : [Shape.map, .group].Perm Shape.reportingOrder :=
    Shape.reportingOrder.reverse_perm
  obtain ⟨hbuild, hreports⟩ :=
    (shapes_exclusive oddlyNamedFilter).2.2 _ hbuilding none rootPath
  exact ⟨hbuilding, hreporting, hbuild.trans rfl, (hreports _ hreporting).trans rfl⟩

end RecordQuery
