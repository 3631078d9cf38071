import RecordQuery.Proofs.Filter.Canonical
/-!
# Where the values of built filters come from

Every leaf of a built filter stands for one operator map of the raw filter, and each of its criteria
for one field of that map. Only lists and ranges are brought into another form, inside literal
envelopes whose other fields are kept: `Value.InEnvelopes` relates the two values. A value that has
been shaped once stays as it is.
-/

namespace RecordQuery

/-! ## Shaping inside envelopes -/

namespace Value

/-- Two values in the same literal envelopes, with contents that are related; or, inside such
envelopes, one and the same envelope of another kind. -/
inductive InEnvelopes (R : Value → Value → Prop) : Value → Value → Prop
  | bare {v v' : Value} : v.envelope? = none → R v v' → InEnvelopes R v v'
  | kept {fields : Fields} {content : Value} : Fields.get? fields "val" = some content →
      (record fields).kind ≠ .literal → InEnvelopes R (record fields) (record fields)
  | literal {fields : Fields} {content content' : Value} :
      Fields.get? fields "val" = some content → (record fields).kind = .literal →
      InEnvelopes R content content' →
      InEnvelopes R (record fields) (record (Fields.set fields "val" content'))

variable {R : Value → Value → Prop} {v v' : Value}

theorem InEnvelopes.imp {S : Value → Value → Prop} (hRS : ∀ v v', R v v' → S v v')
    (h : v.InEnvelopes R v') : v.InEnvelopes S v' := by
  induction h with
  | bare henv hR => exact .bare henv (hRS _ _ hR)
  | kept hval hkind => exact .kept hval hkind
  | literal hval hkind _ ih => exact .literal hval hkind ih

/-- Equal contents in the same envelopes make equal values. -/
theorem InEnvelopes.eq (hR : ∀ v v', R v v' → v' = v) (h : v.InEnvelopes R v') : v' = v := by
  induction h with
  | bare _ hv => exact hR _ _ hv
  | kept => rfl
  | literal hval _ _ ih => rw [ih, Fields.set_of_get? hval]

end Value

/-- Shaping keeps the envelopes and shapes what is in them. -/
theorem inEnvelopes_of_shapeValue {op : Operator} {v shaped : Value}
    (h : shapeValue op v = .ok shaped) :
    v.InEnvelopes (fun bare shaped => shapeBare op bare = .ok shaped) shaped := by
  induction v using Value.contentInduction generalizing shaped with
  | envelope fields content hval ih =>
      by_cases hkind : (Value.record fields).kind = .literal
      · rw [shapeValue_literal hval hkind] at h
        obtain ⟨inner, hinner, rfl⟩ := map_eq_ok_iff.mp h
        exact .literal hval hkind (ih hinner)
      · rw [shapeValue_of_kind_ne hval hkind] at h
        obtain rfl := Except.ok.inj h
        exact .kept hval hkind
  | bare v henv =>
      rw [shapeValue_of_not_envelope henv] at h
      exact .bare henv h

/-- What a bare value is shaped into is shaped into itself. -/
theorem shapeValue_of_shapeBare {op : Operator} {v shaped : Value} (henv : v.envelope? = none)
    (h : shapeBare op v = .ok shaped) : shapeValue op shaped = .ok shaped := by
  have hbare := not_envelope_of_shapeBare henv h
  rw [shapeValue_of_not_envelope hbare]
  rcases op.form_cases with hlisted | rfl | ⟨hlisted, hbetween⟩
  · rw [shapeBare_of_isListed hlisted] at h
    rw [← Except.ok.inj h, shapeBare_of_isListed hlisted, Value.toItems_list]
  · rw [shapeBare_between] at h
    obtain ⟨range, -, rfl⟩ := map_eq_ok_iff.mp h
    rw [shapeBare_between, Value.toRange_ofRange]
    rfl
  · rw [shapeBare_of_single hlisted hbetween]

/-- Shaping a value twice is shaping it once. -/
theorem shapeValue_shapeValue {op : Operator} {v shaped : Value} (h : shapeValue op v = .ok shaped) :
    shapeValue op shaped = .ok shaped := by
  have henvelopes := inEnvelopes_of_shapeValue h
  clear h
  induction henvelopes with
  | bare henv hshaped => exact shapeValue_of_shapeBare henv hshaped
  | kept hval hkind => exact shapeValue_of_kind_ne hval hkind
  | @literal fields content content' hval hkind _ ih =>
      rw [shapeValue_literal (Fields.get?_set_self fields "val" content')
        ((Value.kind_set_val hval _).trans hkind), ih]
      show Except.ok (Value.record (Fields.set (Fields.set fields "val" content') "val" content')) = _
      rw [Fields.set_set]

/-! ## Criteria and their fields -/

/-- A criterion comes from a field of an operator map: the key spells its operator, and in the
envelopes of the value of the field stands the list of its items, the pair of its ends, or the value
itself. Shaping the value of the criterion once more changes nothing. -/
structure CriterionFrom (field : String × Value) (criterion : Operator × Value) : Prop where
  operator : Operator.ofSpelling? field.1 = some criterion.1
  items : criterion.1.isListed = true →
    field.2.InEnvelopes (fun v list => list = .list v.toItems) criterion.2
  range : criterion.1 = .between →
    field.2.InEnvelopes (fun v pair => ∃ range, v.toRange = .ok range ∧ pair = .ofRange range)
      criterion.2
  same : criterion.1.isListed = false → criterion.1 ≠ .between → criterion.2 = field.2
  settled : shapeValue criterion.1 criterion.2 = .ok criterion.2

/-- A value that is shaped for the operator of its key makes a criterion. -/
theorem criterionFrom_of_shapeValue {key : String} {op : Operator} {v shaped : Value}
    (hop : Operator.ofSpelling? key = some op) (h : shapeValue op v = .ok shaped) :
    CriterionFrom (key, v) (op, shaped) where
  operator := hop
  items := by
    intro hlisted
    apply (inEnvelopes_of_shapeValue h).imp
    intro bare list hlist
    rw [shapeBare_of_isListed hlisted] at hlist
    exact (Except.ok.inj hlist).symm
  range := by
    rintro rfl
    apply (inEnvelopes_of_shapeValue h).imp
    intro bare pair hpair
    obtain ⟨range, hrange, rfl⟩ := map_eq_ok_iff.mp hpair
    exact ⟨range, hrange, rfl⟩
  same := by
    intro hlisted hbetween
    apply (inEnvelopes_of_shapeValue h).eq
    intro bare value hvalue
    rw [shapeBare_of_single hlisted hbetween] at hvalue
    exact (Except.ok.inj hvalue).symm
  settled := shapeValue_shapeValue h

/-! ## Leaves and their operator maps -/

/-- A leaf comes from an operator map: it has criteria, each operator at most once and joined by a
conjunction or a disjunction, and they come from the fields of the map that hold criteria, in
order. -/
structure LeafFrom (fields : Fields) (l : Leaf) : Prop where
  criteria_ne_nil : l.criteria ≠ []
  distinct : (l.criteria.map Prod.fst).Nodup
  joiner : l.joiner = .and ∨ l.joiner = .or
  criteria : List.Forall₂ CriterionFrom
    (fields.filter fun field => FilterKey.isCriterion field.1) l.criteria

/-- The operator maps of a raw leaf: a filter on one attribute is one itself, and a map of attributes
has one in every entry. -/
def Value.leafMaps : Value → List Fields
  | .record fields =>
    if (Value.record fields).isAttributeFilter then [fields]
    else (mapEntries fields).map fun entry => operatorMap entry.2
  | _ => []

/-- The operator maps of a raw filter, from left to right. -/
def Value.operatorMaps (path : String) (v : Value) : List Fields :=
  (v.rawLeaves path).flatMap fun leaf => leaf.2.leafMaps

/-- The operator maps of a map of attributes are those of its entries. -/
theorem Value.operatorMaps_of_isEntityFilter {fields : Fields}
    (h : (Value.record fields).isEntityFilter = true) (path : String) :
    (Value.record fields).operatorMaps path =
      (mapEntries fields).map fun entry => operatorMap entry.2 := by
  have hgroup : ¬(Value.record fields).isGroupFilter = true := fun hgroup =>
    not_isEntityFilter_of_isGroupFilter hgroup h
  have hattribute : ¬(Value.record fields).isAttributeFilter = true := fun hattribute =>
    not_isEntityFilter_of_isAttributeFilter hattribute h
  rw [operatorMaps, rawLeaves_of_not_isGroupFilter hgroup, List.flatMap_singleton, leafMaps,
    if_neg hattribute]

section

variable {w : Option Whitelist} {path : String}

/-- A leaf that is built comes from its operator map. -/
theorem leafFrom_of_leafOf {name : String} {fields : Fields} {n : Node}
    (h : leafOf w name path fields = .ok n) : ∃ l, n.leaves = [l] ∧ LeafFrom fields l := by
  obtain ⟨criteria, joiner, hcriteria, hne, hjoiner, rfl⟩ := leafOf_eq_ok_iff.mp h
  refine ⟨_, Node.leaves_leaf _ _ _ _ _, hne, (distinct_of_criteriaAfter hcriteria).2, ?_, ?_⟩
  · have hnot := ne_not_of_joinerOf hjoiner
    show joiner = .and ∨ joiner = .or
    cases joiner with
    | and => exact .inl rfl
    | or => exact .inr rfl
    | not => exact absurd rfl hnot
  · apply (forall₂_of_criteriaAfter hcriteria).imp
    rintro ⟨key, v⟩ ⟨op, shaped⟩ ⟨hop, hshaped⟩
    exact criterionFrom_of_shapeValue hop hshaped

/-- The leaves of a map of attributes come from the operator maps of its entries. -/
theorem leavesFrom_mapLeaves {fields : Fields} {ns : List Node}
    (h : mapLeaves w path fields = .ok ns) :
    List.Forall₂ LeafFrom ((mapEntries fields).map fun entry => operatorMap entry.2)
      (ns.flatMap Node.leaves) := by
  rw [mapLeaves_eq_mapM] at h
  have hentries := mapM_eq_ok_iff.mp h
  clear h
  generalize mapEntries fields = entries at hentries
  induction hentries with
  | nil => exact .nil
  | cons hleaf _ ih =>
      obtain ⟨l, hl, hfrom⟩ := leafFrom_of_leafOf hleaf
      rw [List.map_cons, List.flatMap_cons, hl]
      exact .cons hfrom ih

/-- The leaves of related members come from the operator maps of the members. -/
theorem leavesFrom_members {items : List Value} {ns : List Node}
    (h : List.Forall₂ (fun item n => ∀ place,
      List.Forall₂ LeafFrom (item.operatorMaps place) n.leaves) items ns) (index : Nat) :
    List.Forall₂ LeafFrom
      ((Value.memberRawLeaves path index items).flatMap fun leaf => leaf.2.leafMaps)
      (ns.flatMap Node.leaves) := by
  induction h generalizing index with
  | nil => exact .nil
  | cons hitem _ ih =>
      rw [Value.memberRawLeaves, List.flatMap_append, List.flatMap_cons]
      exact List.rel_append (hitem _) (ih (index + 1))

end

/-- **Canonical form.** The leaves of a filter that is built from a raw filter without ready ones come
from its operator maps, one by one and in order. -/
theorem leaves_from_operatorMaps {w : Option Whitelist} {path : String} {raw : Value} {n : Node}
    (hfree : raw.isNodeFree = true) (h : buildAt w path raw = .ok n) :
    List.Forall₂ LeafFrom (raw.operatorMaps path) n.leaves := by
  -- the place only names the raw leaves, and members stand at places of their own
  have hplaces : ∀ place, List.Forall₂ LeafFrom (raw.operatorMaps place) n.leaves := by
    refine builtInduction
      (P := fun v n => ∀ place, List.Forall₂ LeafFrom (v.operatorMaps place) n.leaves)
      ?leaf ?group ?map hfree h
    case leaf =>
      intro fields path n hbuild hattribute place
      obtain ⟨name, -, -, hleaf⟩ := attributeLeaf_eq_ok_iff.mp hbuild
      obtain ⟨l, hl, hfrom⟩ := leafFrom_of_leafOf hleaf
      have hgroup := Value.not_isGroupFilter_of_isAttributeFilter hattribute
      rw [Value.operatorMaps, Value.rawLeaves_of_not_isGroupFilter hgroup, List.flatMap_singleton,
        Value.leafMaps, if_pos hattribute, hl]
      exact .cons hfrom .nil
    case group =>
      intro fields g hgroup hbranch place
      have hmembers : ∀ branch, List.Forall₂ LeafFrom
          ((Value.branchRawLeaves place branch fields).flatMap fun leaf => leaf.2.leafMaps)
          ((g.branch branch).flatMap Node.leaves) := by
        intro branch
        obtain ⟨items, hitems, hrelated⟩ := hbranch branch
        rw [Value.branchRawLeaves_eq, hitems]
        exact leavesFrom_members hrelated 0
      rw [Value.operatorMaps, Value.rawLeaves_of_isGroupFilter hgroup, List.flatMap_append,
        List.flatMap_append, Group.toNode, Node.leaves_group]
      exact List.rel_append (List.rel_append (hmembers .and) (hmembers .or)) (hmembers .not)
    case map =>
      intro fields path g hbuild hmap place
      obtain ⟨branch, leaves, -, hleaves, rfl⟩ := mapGroup_eq_ok_iff.mp hbuild
      rw [Value.operatorMaps_of_isEntityFilter hmap, Node.leaves_ofBranch]
      exact leavesFrom_mapLeaves hleaves
  exact hplaces path

/-- Members who are named Ada, or whose age and tags are as wanted. -/
def memberQuery : Value :=
  .record [("or", .list [
    .record [("attribute", .text "name"), ("==", .text "Ada")],
    .record [("age", .record [("><", .record [("val", .record
        [("val", .record [("from", .int 18), ("to", .int 65)]), ("note", .text "adults")])])]),
      ("tags", .record [("in", .text "new"),
        ("nin", .record [("val", .text "banned"), ("valType", .text "propRef")])])]])]

/-- A name, a range in two envelopes, a list, and a reference that is kept come from the three operator
maps of the query. -/
theorem memberQuery_leaves :
    memberQuery.isNodeFree = true ∧ ∃ n, buildNode none memberQuery = .ok n ∧
      n.leaves.map Leaf.criteria =
        [[(.equals, .text "Ada")],
          [(.between, .record [("val", .record
            [("val", .tuple [.int 18, .int 65]), ("note", .text "adults")])])],
          [(.oneOf, .list [.text "new"]),
            (.noneOf, .record [("val", .text "banned"), ("valType", .text "propRef")])]] ∧
      List.Forall₂ LeafFrom (memberQuery.operatorMaps rootPath) n.leaves := by
  have hbuild : buildNode none memberQuery = .ok _ := rfl
  refine ⟨rfl, _, hbuild, rfl, ?_⟩
  exact leaves_from_operatorMaps rfl hbuild

end RecordQuery
