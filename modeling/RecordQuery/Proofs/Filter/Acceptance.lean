import RecordQuery.Proofs.Filter.Building
/-!
# Which raw filters are built

A raw filter is built when it passes three kinds of checks: every record in it has one of the shapes,
with criteria that can be read; the attributes that it names may be filtered by their operators; and
the maps of attributes in it have joiners. None of this hangs on the place of a record.
`Value.Passes` holds what building and reporting check alike, `Fields.BuildDemand` what building
checks at maps of attributes beyond that, and `exists_buildAt_iff` says that building checks no more.
-/

namespace RecordQuery

/-! ## Joiners and criteria -/

/-- A joiner is the same at every place. -/
theorem joinerOf_ok_at {fields : Fields} {path : String} {allowed : List Connective} {c : Connective}
    (h : joinerOf fields path allowed = .ok c) (other : String) :
    joinerOf fields other allowed = .ok c := by
  rw [joinerOf] at h ⊢
  cases hvalue : (Fields.get? fields "logicalOp").getD .null with
  | null =>
      rw [hvalue] at h
      exact h
  | connective d =>
      rw [hvalue] at h
      by_cases hmem : d ∈ allowed
      · simpa only [if_pos hmem] using h
      · simp only [if_neg hmem] at h
        exact absurd h (by simp)
  | bool | int | float | text | list | tuple | record | moment | node | deferred =>
      rw [hvalue] at h
      simp only at h ⊢
      split at h
      · exact h
      · exact absurd h (by simp)

/-- The attribute may be filtered by all operators among the fields. -/
def Fields.Allowed (w : Option Whitelist) (name : String) (fields : Fields) : Prop :=
  ∀ field ∈ fields, FilterKey.isCriterion field.1 = true → ∀ op,
    Operator.ofSpelling? field.1 = some op → Whitelist.checkOption w name op.name = .ok ()

/-- The criteria that are read hang on the attribute and the whitelist in so far only as the operators
have to be allowed. -/
theorem criteriaAfter_eq_ok_iff {w : Option Whitelist} {name path : String}
    {seen : List (Operator × String)} {fields : Fields} {criteria : Criteria} :
    criteriaAfter w name path seen fields = .ok criteria ↔
      criteriaAfter none "" rootPath seen fields = .ok criteria ∧ fields.Allowed w name := by
  induction fields generalizing seen criteria with
  | nil => simp [criteriaAfter, Fields.Allowed]
  | cons field rest ih =>
      obtain ⟨key, value⟩ := field
      rw [criteriaAfter_cons_eq_ok_iff, criteriaAfter_cons_eq_ok_iff, Fields.Allowed,
        List.forall_mem_cons]
      constructor
      · rintro (⟨hkey, h⟩ | ⟨hkey, op, shaped, later, hop, hnew, hcheck, hshaped, hlater, rfl⟩)
        · obtain ⟨hread, hallowed⟩ := ih.mp h
          refine ⟨.inl ⟨hkey, hread⟩, fun hcriterion => ?_, hallowed⟩
          rw [hkey] at hcriterion
          exact absurd hcriterion (by simp)
        · obtain ⟨hread, hallowed⟩ := ih.mp hlater
          refine ⟨.inr ⟨hkey, op, shaped, later, hop, hnew, rfl, hshaped, hread, rfl⟩, ?_, hallowed⟩
          intro _ found hfound
          rwa [← Option.some.inj (hop.symm.trans hfound)]
      · rintro ⟨⟨hkey, h⟩ | ⟨hkey, op, shaped, later, hop, hnew, -, hshaped, hlater, rfl⟩,
          hcheck, hallowed⟩
        · exact .inl ⟨hkey, ih.mpr ⟨h, hallowed⟩⟩
        · exact .inr ⟨hkey, op, shaped, later, hop, hnew, hcheck hkey op hop, hshaped,
            ih.mpr ⟨hlater, hallowed⟩, rfl⟩

/-! ## Leaves -/

/-- The record is an operator map: it has criteria that can be read, and a joiner. -/
def Fields.IsOperatorMap (fields : Fields) : Prop :=
  ∃ n, leafOf none "" rootPath fields = .ok n

/-- The leaf of an operator map is built when the operators are allowed. -/
theorem exists_leafOf_iff {w : Option Whitelist} {name path : String} {fields : Fields} :
    (∃ n, leafOf w name path fields = .ok n) ↔ fields.IsOperatorMap ∧ fields.Allowed w name := by
  constructor
  · rintro ⟨n, hn⟩
    obtain ⟨criteria, joiner, hcriteria, hne, hjoiner, -⟩ := leafOf_eq_ok_iff.mp hn
    obtain ⟨hread, hallowed⟩ := criteriaAfter_eq_ok_iff.mp hcriteria
    exact ⟨⟨_, leafOf_eq_ok_iff.mpr ⟨criteria, joiner, hread, hne, joinerOf_ok_at hjoiner _, rfl⟩⟩,
      hallowed⟩
  · rintro ⟨⟨n, hn⟩, hallowed⟩
    obtain ⟨criteria, joiner, hread, hne, hjoiner, -⟩ := leafOf_eq_ok_iff.mp hn
    have hcriteria : criteriaAfter w name path [] fields = .ok criteria :=
      criteriaAfter_eq_ok_iff.mpr ⟨hread, hallowed⟩
    exact ⟨_, leafOf_eq_ok_iff.mpr ⟨criteria, joiner, hcriteria, hne, joinerOf_ok_at hjoiner _, rfl⟩⟩

/-- A leaf that is built is the same at every place, and without the whitelist. -/
theorem leafOf_ok_at {w : Option Whitelist} {name path : String} {fields : Fields} {n : Node}
    (h : leafOf w name path fields = .ok n) (other : String) :
    leafOf none name other fields = .ok n := by
  obtain ⟨criteria, joiner, hcriteria, hne, hjoiner, rfl⟩ := leafOf_eq_ok_iff.mp h
  have hallowed : fields.Allowed none name := fun _ _ _ _ _ => rfl
  have hread : criteriaAfter none name other [] fields = .ok criteria :=
    criteriaAfter_eq_ok_iff.mpr ⟨(criteriaAfter_eq_ok_iff.mp hcriteria).1, hallowed⟩
  exact leafOf_eq_ok_iff.mpr ⟨criteria, joiner, hread, hne, joinerOf_ok_at hjoiner other, rfl⟩

/-- So is the leaf of a filter on one attribute. -/
theorem attributeLeaf_ok_at {w : Option Whitelist} {path : String} {fields : Fields} {n : Node}
    (h : attributeLeaf w path fields = .ok n) (other : String) :
    attributeLeaf none other fields = .ok n := by
  obtain ⟨name, hname, hne, hleaf⟩ := attributeLeaf_eq_ok_iff.mp h
  exact attributeLeaf_eq_ok_iff.mpr ⟨name, hname, hne, leafOf_ok_at hleaf other⟩

/-- A value names an attribute that may be filtered by the operators among the fields. -/
def Fields.NamedBy (w : Option Whitelist) (name : Value) (fields : Fields) : Prop :=
  ∃ s, name.text? = some s ∧ s ≠ "" ∧ fields.Allowed w s

/-- A filter on one attribute is built when it is an operator map and its attribute has a name. -/
theorem exists_attributeLeaf_iff {w : Option Whitelist} {path : String} {fields : Fields} :
    (∃ n, attributeLeaf w path fields = .ok n) ↔ fields.IsOperatorMap ∧
      fields.NamedBy w ((Fields.get? fields FilterKey.name).getD .null) := by
  constructor
  · rintro ⟨n, hn⟩
    obtain ⟨name, hname, hne, hleaf⟩ := attributeLeaf_eq_ok_iff.mp hn
    obtain ⟨hmap, hallowed⟩ := exists_leafOf_iff.mp ⟨n, hleaf⟩
    exact ⟨hmap, name, hname, hne, hallowed⟩
  · rintro ⟨hmap, name, hname, hne, hallowed⟩
    obtain ⟨n, hleaf⟩ := exists_leafOf_iff.mpr ⟨hmap, hallowed⟩
    exact ⟨n, attributeLeaf_eq_ok_iff.mpr ⟨name, hname, hne, hleaf⟩⟩

/-! ## Maps of attributes -/

/-- Every entry of a map of attributes is an operator map. -/
def Fields.IsAttributeMap (fields : Fields) : Prop :=
  ∀ entry ∈ mapEntries fields, (operatorMap entry.2).IsOperatorMap

/-- What building asks of a map of attributes beyond its operator maps: a joiner, and that the
attributes of its keys may be filtered by the operators. -/
def Fields.BuildDemand (w : Option Whitelist) (fields : Fields) : Prop :=
  (∃ branch, joinerOf fields rootPath Connective.all = .ok branch) ∧
    ∀ entry ∈ mapEntries fields, (operatorMap entry.2).Allowed w entry.1

/-- A map of attributes is built when it holds operator maps and meets the demands of building. -/
theorem exists_mapGroup_iff {w : Option Whitelist} {path : String} {fields : Fields} :
    (∃ g, mapGroup w path fields = .ok g) ↔ fields.IsAttributeMap ∧ fields.BuildDemand w := by
  have hleaves : (∃ ns, mapLeaves w path fields = .ok ns) ↔ ∀ entry ∈ mapEntries fields,
      (operatorMap entry.2).IsOperatorMap ∧ (operatorMap entry.2).Allowed w entry.1 := by
    rw [mapLeaves_eq_mapM, exists_mapM_iff]
    simp only [exists_leafOf_iff]
  constructor
  · rintro ⟨g, hg⟩
    obtain ⟨branch, leaves, hbranch, hns, -⟩ := mapGroup_eq_ok_iff.mp hg
    have hentries := hleaves.mp ⟨leaves, hns⟩
    refine ⟨?_, ⟨branch, joinerOf_ok_at hbranch _⟩, ?_⟩
    · intro entry hentry
      exact (hentries entry hentry).1
    · intro entry hentry
      exact (hentries entry hentry).2
  · rintro ⟨hmap, ⟨branch, hbranch⟩, hallowed⟩
    obtain ⟨leaves, hns⟩ := hleaves.mpr fun entry hentry =>
      ⟨hmap entry hentry, hallowed entry hentry⟩
    exact ⟨_, mapGroup_eq_ok_iff.mpr ⟨branch, leaves, joinerOf_ok_at hbranch _, hns, rfl⟩⟩

/-! ## Trees -/

/-- The checks of a raw filter that building and reporting have in common. Ready filters pass them.
What the entries of maps of attributes are named and how they are joined is not among them. -/
inductive Value.Passes (w : Option Whitelist) : Value → Prop
  | ready (n : Node) : Passes w (.node n)
  | leaf {fields : Fields} : (Value.record fields).isAttributeFilter = true →
      fields.IsOperatorMap → fields.NamedBy w ((Fields.get? fields FilterKey.name).getD .null) →
      Passes w (.record fields)
  | group {fields : Fields} : (Value.record fields).isGroupFilter = true →
      (∀ branch, (branchItems? fields branch).isSome = true) →
      (∀ branch items, branchItems? fields branch = some items → ∀ item ∈ items, Passes w item) →
      Passes w (.record fields)
  | map {fields : Fields} : (Value.record fields).isEntityFilter = true → fields.IsAttributeMap →
      Passes w (.record fields)

namespace Value

variable {w : Option Whitelist} {fields : Fields}

theorem passes_iff_of_isAttributeFilter (h : (record fields).isAttributeFilter = true) :
    (record fields).Passes w ↔ fields.IsOperatorMap ∧
      fields.NamedBy w ((Fields.get? fields FilterKey.name).getD .null) := by
  constructor
  · intro hpasses
    cases hpasses with
    | leaf _ hmap hnamed => exact ⟨hmap, hnamed⟩
    | group hgroup => exact absurd hgroup (not_isGroupFilter_of_isAttributeFilter h)
    | map hmap => exact absurd hmap (not_isEntityFilter_of_isAttributeFilter h)
  · rintro ⟨hmap, hnamed⟩
    exact .leaf h hmap hnamed

theorem passes_iff_of_isGroupFilter (h : (record fields).isGroupFilter = true) :
    (record fields).Passes w ↔ (∀ branch, (branchItems? fields branch).isSome = true) ∧
      ∀ branch items, branchItems? fields branch = some items → ∀ item ∈ items, item.Passes w := by
  constructor
  · intro hpasses
    cases hpasses with
    | leaf hattribute => exact absurd h (not_isGroupFilter_of_isAttributeFilter hattribute)
    | group _ hlists hitems => exact ⟨hlists, hitems⟩
    | map hmap => exact absurd hmap (not_isEntityFilter_of_isGroupFilter h)
  · rintro ⟨hlists, hitems⟩
    exact .group h hlists hitems

theorem passes_iff_of_isEntityFilter (h : (record fields).isEntityFilter = true) :
    (record fields).Passes w ↔ fields.IsAttributeMap := by
  constructor
  · intro hpasses
    cases hpasses with
    | leaf hattribute => exact absurd h (not_isEntityFilter_of_isAttributeFilter hattribute)
    | group hgroup => exact absurd h (not_isEntityFilter_of_isGroupFilter hgroup)
    | map _ hmap => exact hmap
  · exact .map h

/-- What has no shape does not pass. -/
theorem not_passes {v : Value} (hnode : ∀ n, v ≠ node n) (hattribute : ¬v.isAttributeFilter = true)
    (hgroup : ¬v.isGroupFilter = true) (hmap : ¬v.isEntityFilter = true) : ¬v.Passes w := by
  intro hpasses
  cases hpasses with
  | ready n => exact hnode n rfl
  | leaf h => exact hattribute h
  | group h => exact hgroup h
  | map h => exact hmap h

/-- A group passes together with a demand on the maps of attributes inside when its branches are lists
and the members do. -/
theorem passes_and_allMaps_iff_of_isGroupFilter {Q : Fields → Prop}
    (h : (record fields).isGroupFilter = true) :
    ((record fields).Passes w ∧ (record fields).AllMaps Q) ↔
      ∀ branch, ∃ items, branchItems? fields branch = some items ∧
        ∀ item ∈ items, item.Passes w ∧ item.AllMaps Q := by
  rw [passes_iff_of_isGroupFilter h, allMaps_iff_of_isGroupFilter h]
  constructor
  · rintro ⟨⟨hlists, hpasses⟩, hmaps⟩ branch
    obtain ⟨items, hitems⟩ := Option.isSome_iff_exists.mp (hlists branch)
    refine ⟨items, hitems, ?_⟩
    intro item hitem
    exact ⟨hpasses branch items hitems item hitem, hmaps branch items hitems item hitem⟩
  · intro hall
    have hmember : ∀ branch items, branchItems? fields branch = some items → ∀ item ∈ items,
        item.Passes w ∧ item.AllMaps Q := by
      intro branch items hitems item hitem
      obtain ⟨found, hfound, hmembers⟩ := hall branch
      obtain rfl : items = found := Option.some.inj (hitems.symm.trans hfound)
      exact hmembers item hitem
    refine ⟨⟨?_, ?_⟩, ?_⟩
    · intro branch
      obtain ⟨items, hitems, -⟩ := hall branch
      rw [hitems]
      rfl
    · intro branch items hitems item hitem
      exact (hmember branch items hitems item hitem).1
    · intro branch items hitems item hitem
      exact (hmember branch items hitems item hitem).2

end Value

/-- Members are built when every one of them is. -/
theorem exists_buildMembers_iff {w : Option Whitelist} {P : Value → Prop} {items : List Value}
    (h : ∀ item ∈ items, ∀ place, (∃ n, buildAt w place item = .ok n) ↔ P item) {path : String}
    {index : Nat} : (∃ ns, buildMembers w path index items = .ok ns) ↔ ∀ item ∈ items, P item := by
  induction items generalizing index with
  | nil => exact iff_of_true ⟨[], rfl⟩ (by simp)
  | cons item rest ih =>
      rw [List.forall_mem_cons] at h
      have hrest : (∃ ns, buildMembers w path (index + 1) rest = .ok ns) ↔ ∀ item ∈ rest, P item :=
        ih h.2
      rw [List.forall_mem_cons, ← h.1 s!"{path}[{index}]", ← hrest, buildMembers]
      constructor
      · rintro ⟨ns, hns⟩
        obtain ⟨n, hn, hns⟩ := bind_eq_ok_iff.mp hns
        obtain ⟨later, hlater, -⟩ := bind_eq_ok_iff.mp hns
        exact ⟨⟨n, hn⟩, later, hlater⟩
      · rintro ⟨⟨n, hn⟩, later, hlater⟩
        exact ⟨n :: later, by rw [hn, ok_bind, hlater]; rfl⟩

/-- A raw filter is built exactly when it passes the common checks and the maps of attributes inside
meet the demands of building. -/
theorem exists_buildAt_iff {w : Option Whitelist} {v : Value} {path : String} :
    (∃ n, buildAt w path v = .ok n) ↔ v.Passes w ∧ v.AllMaps (Fields.BuildDemand w) := by
  induction v using Value.memberInduction generalizing path with
  | other v hrecord =>
      obtain ⟨hattribute, hgroup, hmap⟩ := Value.no_shape_of_not_record hrecord
      by_cases hready : ∃ n, v = .node n
      · obtain ⟨n, rfl⟩ := hready
        exact iff_of_true ⟨n, rfl⟩ ⟨.ready n, Value.allMaps_of_no_map hgroup hmap⟩
      · have hnode : ∀ n, v ≠ .node n := fun n hn => hready ⟨n, hn⟩
        rw [buildAt_of_not_record hrecord hnode]
        refine iff_of_false (by simp) fun hpasses => ?_
        exact Value.not_passes hnode hattribute hgroup hmap hpasses.1
  | record fields ih =>
      rcases Value.shape_cases fields with hattribute | hgroup | hmap | ⟨hattribute, hgroup, hmap⟩
      · rw [buildAt_of_isAttributeFilter hattribute, exists_attributeLeaf_iff,
          Value.passes_iff_of_isAttributeFilter hattribute]
        exact (and_iff_left (Value.allMaps_of_isAttributeFilter hattribute)).symm
      · rw [Value.passes_and_allMaps_iff_of_isGroupFilter hgroup]
        have hbranch : ∀ branch, (∃ ns, buildBranch w path branch fields = .ok ns) ↔
            ∃ items, branchItems? fields branch = some items ∧
              ∀ item ∈ items, item.Passes w ∧ item.AllMaps (Fields.BuildDemand w) := by
          intro branch
          rw [buildBranch_eq]
          cases hitems : branchItems? fields branch with
          | none => simp
          | some items =>
              simp only [Option.some.injEq, exists_eq_left']
              exact exists_buildMembers_iff fun item hitem place =>
                ih branch items hitems item hitem
        simp only [← hbranch]
        constructor
        · rintro ⟨n, hn⟩ branch
          obtain ⟨g, hg, -⟩ := (buildAt_eq_ok_iff_of_isGroupFilter hgroup).mp hn
          exact ⟨_, hg branch⟩
        · intro hall
          obtain ⟨ands, hands⟩ := hall .and
          obtain ⟨ors, hors⟩ := hall .or
          obtain ⟨nots, hnots⟩ := hall .not
          rw [buildAt_of_isGroupFilter hgroup, hands, ok_bind, hors, ok_bind, hnots]
          exact ⟨_, rfl⟩
      · rw [buildAt_of_isEntityFilter hmap, Value.passes_iff_of_isEntityFilter hmap,
          Value.allMaps_iff_of_isEntityFilter hmap, ← exists_mapGroup_iff]
        constructor
        · rintro ⟨n, hn⟩
          obtain ⟨g, hg, -⟩ := map_eq_ok_iff.mp hn
          exact ⟨g, hg⟩
        · rintro ⟨g, hg⟩
          exact ⟨g.toNode, by rw [hg]; rfl⟩
      · rw [buildAt_of_no_shape hattribute hgroup hmap]
        refine iff_of_false (by simp) fun hpasses => ?_
        exact Value.not_passes (by simp) hattribute hgroup hmap hpasses.1

end RecordQuery
