import RecordQuery.Proofs.Filter.Building
import RecordQuery.Proofs.Filter.Leaves
import RecordQuery.Proofs.Filter.Shaping
/-!
# What built filters are like

A leaf is canonical when it has criteria, each operator at most once and with a value in its stored
form, joined by a conjunction or a disjunction. Filters that are built from plain data have canonical
leaves. Nothing is promised about the names of the attributes.
-/

namespace RecordQuery

/-- The form of the leaves of built filters. -/
structure Leaf.Canonical (l : Leaf) : Prop where
  criteria_ne_nil : l.criteria ≠ []
  distinct : (l.criteria.map Prod.fst).Nodup
  joiner_ne_not : l.joiner ≠ .not
  stored : ∀ criterion ∈ l.criteria, criterion.2.Stored criterion.1

/-- Plain data: there are neither tuples nor ready filters in it. -/
def Value.isData (v : Value) : Bool :=
  v.isTupleFree && v.isNodeFree

/-- The operator map of an entry without tuples has none. -/
theorem isTupleFree_of_mem_operatorMap {value : Value} (h : value.isTupleFree = true) :
    ∀ field ∈ operatorMap value, field.2.isTupleFree = true := by
  intro field hfield
  cases value with
  | record fields => exact (Value.everywhere_record.mp h).2 field hfield
  | null | bool | int | float | text | list | tuple | moment | connective | node | deferred =>
      exact absurd hfield List.not_mem_nil

/-! ## Criteria -/

section

variable {w : Option Whitelist} {name path : String}

/-- The criteria that are read are the fields that hold criteria, each with the operator that it
spells and with its value shaped. -/
theorem forall₂_of_criteriaAfter {seen : List (Operator × String)} {fields : Fields}
    {criteria : Criteria} (h : criteriaAfter w name path seen fields = .ok criteria) :
    List.Forall₂ (fun field criterion => Operator.ofSpelling? field.1 = some criterion.1 ∧
        shapeValue criterion.1 field.2 = .ok criterion.2)
      (fields.filter fun field => FilterKey.isCriterion field.1) criteria := by
  induction fields generalizing seen criteria with
  | nil =>
      obtain rfl : [] = criteria := Except.ok.inj h
      exact .nil
  | cons field rest ih =>
      obtain ⟨key, value⟩ := field
      rcases criteriaAfter_cons_eq_ok_iff.mp h with ⟨hkey, h⟩ | ⟨hkey, op, shaped, later, hop, -, -,
        hshaped, hlater, rfl⟩
      · rw [List.filter_cons_of_neg (by simp [hkey])]
        exact ih h
      · rw [List.filter_cons_of_pos (by simp [hkey])]
        exact .cons ⟨hop, hshaped⟩ (ih hlater)

/-- The operators that are read are new and distinct. -/
theorem distinct_of_criteriaAfter {seen : List (Operator × String)} {fields : Fields}
    {criteria : Criteria} (h : criteriaAfter w name path seen fields = .ok criteria) :
    (∀ criterion ∈ criteria, seen.lookup criterion.1 = none) ∧
      (criteria.map Prod.fst).Nodup := by
  induction fields generalizing seen criteria with
  | nil =>
      obtain rfl : [] = criteria := Except.ok.inj h
      simp
  | cons field rest ih =>
      obtain ⟨key, value⟩ := field
      rcases criteriaAfter_cons_eq_ok_iff.mp h with ⟨-, h⟩ | ⟨-, op, shaped, later, -, hnew, -, -,
        hlater, rfl⟩
      · exact ih h
      · obtain ⟨hunseen, hdistinct⟩ := ih hlater
        -- the operator of this criterion has been seen when the later ones are read
        have hlookup : ∀ criterion ∈ later, criterion.1 ≠ op ∧ seen.lookup criterion.1 = none := by
          intro criterion hcriterion
          have hnone := hunseen criterion hcriterion
          rw [List.lookup_cons] at hnone
          by_cases hop : criterion.1 = op
          · rw [hop, beq_self_eq_true] at hnone
            exact absurd hnone (by simp)
          · rw [beq_eq_false_iff_ne.mpr hop] at hnone
            exact ⟨hop, hnone⟩
        constructor
        · rw [List.forall_mem_cons]
          exact ⟨hnew, fun criterion hcriterion => (hlookup criterion hcriterion).2⟩
        · rw [List.map_cons, List.nodup_cons]
          refine ⟨fun hmem => ?_, hdistinct⟩
          obtain ⟨criterion, hcriterion, hop⟩ := List.mem_map.mp hmem
          exact (hlookup criterion hcriterion).1 hop

/-- The values that are read off fields without tuples are stored. -/
theorem stored_of_criteriaAfter {seen : List (Operator × String)} {fields : Fields}
    {criteria : Criteria} (hfree : ∀ field ∈ fields, field.2.isTupleFree = true)
    (h : criteriaAfter w name path seen fields = .ok criteria) :
    ∀ criterion ∈ criteria, criterion.2.Stored criterion.1 := by
  intro criterion hcriterion
  obtain ⟨field, hfield, -, hshaped⟩ :=
    exists_mem_of_forall₂ (forall₂_of_criteriaAfter h) hcriterion
  exact stored_of_shapeValue (hfree field (List.mem_of_mem_filter hfield)) hshaped

/-- A leaf that is built is canonical. -/
theorem canonical_of_leafOf {fields : Fields} {n : Node}
    (hfree : ∀ field ∈ fields, field.2.isTupleFree = true) (h : leafOf w name path fields = .ok n) :
    ∀ l ∈ n.leaves, l.Canonical := by
  obtain ⟨criteria, joiner, hcriteria, hne, hjoiner, rfl⟩ := leafOf_eq_ok_iff.mp h
  intro l hl
  rw [Node.leaves_leaf] at hl
  obtain rfl := List.mem_singleton.mp hl
  exact ⟨hne, (distinct_of_criteriaAfter hcriteria).2, ne_not_of_joinerOf hjoiner,
    stored_of_criteriaAfter hfree hcriteria⟩

/-- The leaves of a map of attributes that is built are canonical. -/
theorem canonical_of_mapLeaves {fields : Fields} {ns : List Node}
    (hfree : (Value.record fields).isTupleFree = true) (h : mapLeaves w path fields = .ok ns) :
    ∀ n ∈ ns, ∀ l ∈ n.leaves, l.Canonical := by
  rw [mapLeaves_eq_mapM] at h
  have hentries := mapM_eq_ok_iff.mp h
  intro n hn
  obtain ⟨entry, hentry, hleaf⟩ := exists_mem_of_forall₂ hentries hn
  have hvalue := (Value.everywhere_record.mp hfree).2 entry (List.mem_of_mem_filter hentry)
  exact canonical_of_leafOf (isTupleFree_of_mem_operatorMap hvalue) hleaf

end

/-! ## Trees -/

/-- The leaves of a group with one branch are those of its members. -/
theorem Node.leaves_ofBranch (branch : Connective) (members : List Node) (tag : Tag) :
    (Group.ofBranch branch members tag).toNode.leaves = members.flatMap Node.leaves := by
  cases branch <;> simp [Group.ofBranch, Group.toNode]

/-- The leaves of a filter that is built from plain data are canonical. -/
theorem canonical_of_buildAt {w : Option Whitelist} {v : Value} (hdata : v.isData = true)
    {path : String} {n : Node} (h : buildAt w path v = .ok n) : ∀ l ∈ n.leaves, l.Canonical := by
  rw [Value.isData, Bool.and_eq_true] at hdata
  obtain ⟨htuple, hnode⟩ := hdata
  revert htuple
  refine builtInduction (P := fun v n => v.isTupleFree = true → ∀ l ∈ n.leaves, l.Canonical)
    ?leaf ?group ?map hnode h
  case leaf =>
    intro fields path n hbuild _ htuple
    obtain ⟨name, -, -, hleaf⟩ := attributeLeaf_eq_ok_iff.mp hbuild
    exact canonical_of_leafOf (Value.everywhere_record.mp htuple).2 hleaf
  case group =>
    intro fields g _ hbranch htuple
    refine Group.forall_leaves_toNode.mpr fun branch n hn => ?_
    obtain ⟨items, hitems, hmembers⟩ := hbranch branch
    obtain ⟨item, hitem, hcanonical⟩ := exists_mem_of_forall₂ hmembers hn
    exact hcanonical (Value.everywhere_of_branchItems? htuple hitems item hitem)
  case map =>
    intro fields path g hbuild _ htuple
    obtain ⟨branch, leaves, -, hleaves, rfl⟩ := mapGroup_eq_ok_iff.mp hbuild
    rw [Node.leaves_ofBranch, List.forall_mem_flatMap]
    exact canonical_of_mapLeaves htuple hleaves

/-! ## Names -/

/-- All leaves of the filter have names that are not empty. -/
def Node.Named (n : Node) : Prop :=
  ∀ l ∈ n.leaves, l.name ≠ ""

/-- No attribute of the map has the empty name. -/
def Fields.Named (fields : Fields) : Prop :=
  ∀ entry ∈ mapEntries fields, entry.1 ≠ ""

/-- A leaf that is built has the name that it was to have. -/
theorem named_of_leafOf_iff {w : Option Whitelist} {name path : String} {fields : Fields} {n : Node}
    (h : leafOf w name path fields = .ok n) : n.Named ↔ name ≠ "" := by
  obtain ⟨criteria, joiner, -, -, -, rfl⟩ := leafOf_eq_ok_iff.mp h
  simp [Node.Named]

/-- The leaves of a map of attributes have the names of its entries. -/
theorem named_of_mapLeaves_iff {w : Option Whitelist} {path : String} {fields : Fields}
    {ns : List Node} (h : mapLeaves w path fields = .ok ns) :
    (∀ n ∈ ns, n.Named) ↔ Fields.Named fields := by
  rw [mapLeaves_eq_mapM] at h
  have hentries := mapM_eq_ok_iff.mp h
  exact forall_mem_iff_of_forall₂ (hentries.imp fun entry n hleaf => named_of_leafOf_iff hleaf)

/-- All leaves of a built filter have names exactly when the raw filter has no map of attributes with
the empty name. -/
theorem named_of_buildAt_iff {w : Option Whitelist} {v : Value} (hfree : v.isNodeFree = true)
    {path : String} {n : Node} (h : buildAt w path v = .ok n) :
    n.Named ↔ v.AllMaps Fields.Named := by
  refine builtInduction (P := fun v n => n.Named ↔ v.AllMaps Fields.Named) ?leaf ?group ?map hfree h
  case leaf =>
    intro fields path n hbuild hattribute
    obtain ⟨name, -, hname, hleaf⟩ := attributeLeaf_eq_ok_iff.mp hbuild
    exact iff_of_true ((named_of_leafOf_iff hleaf).mpr hname)
      (Value.allMaps_of_isAttributeFilter hattribute)
  case group =>
    intro fields g hgroup hbranch
    rw [Node.Named, Group.forall_leaves_toNode, Value.allMaps_iff_of_isGroupFilter hgroup]
    refine forall_congr' fun branch => ?_
    obtain ⟨items, hitems, hmembers⟩ := hbranch branch
    simp only [hitems, Option.some.injEq, forall_eq']
    exact forall_mem_iff_of_forall₂ hmembers
  case map =>
    intro fields path g hbuild hmap
    obtain ⟨branch, leaves, -, hleaves, rfl⟩ := mapGroup_eq_ok_iff.mp hbuild
    rw [Node.Named, Node.leaves_ofBranch, List.forall_mem_flatMap,
      Value.allMaps_iff_of_isEntityFilter hmap]
    exact named_of_mapLeaves_iff hleaves

end RecordQuery
