import RecordQuery.Proofs.Filter.Canonical
/-!
# Reloading saved filters

The record that a canonical filter is saved as has one of the three shapes again: that of a filter
on one attribute for a leaf, that of a group for a group with members, and that of an empty map of
attributes for a group without members. Building it gives the filter back, unless an attribute has
the empty name: a map of attributes may have it, and a filter on one attribute may not.
`reload_iff` is the exact statement.
-/

namespace RecordQuery

/-! ## The fields of a saved filter -/

/-- The name of an operator is the key of a criterion. -/
theorem FilterKey.isCriterion_name (op : Operator) : isCriterion op.name = true := by
  cases op <;> decide

/-- Criteria are saved under keys of criteria alone. -/
theorem get?_criteriaFields {criteria : Criteria} {key : String}
    (h : FilterKey.isCriterion key = false) : Fields.get? (criteriaFields criteria) key = none := by
  refine List.lookup_eq_none_iff.mpr fun field hfield => ?_
  obtain ⟨criterion, -, rfl⟩ := List.mem_map.mp hfield
  rw [bne_iff_ne]
  rintro rfl
  rw [FilterKey.isCriterion_name] at h
  exact absurd h (by simp)

/-- An identifier and a label that are saved are found again. -/
theorem getD_get?_tagFields (id label : Value) :
    (Fields.get? (tagFields id label) "filterId").getD .null = id ∧
      (Fields.get? (tagFields id label) "filterLabel").getD .null = label := by
  by_cases hid : id = .null <;> by_cases hlabel : label = .null <;>
    simp [tagFields, Value.isNull_iff, hid, hlabel, Fields.get?_cons]

/-- Under other keys no identifier and no label is saved. -/
theorem get?_tagFields_of_ne (id label : Value) {key : String} (hid : key ≠ "filterId")
    (hlabel : key ≠ "filterLabel") : Fields.get? (tagFields id label) key = none := by
  rw [tagFields, Fields.get?_append]
  split <;> split <;> simp [Fields.get?_cons, hid, hlabel]

/-- Fields that say of the metadata what the fields for an identifier and a label say have these two as
their metadata. -/
theorem Tag.ofFields_eq {fields : Fields} {id label : Value}
    (h : ∀ key ∈ ["filterId", "id", "filterLabel", "label"],
      Fields.get? fields key = Fields.get? (tagFields id label) key) :
    ofFields fields = ⟨id, label⟩ := by
  obtain ⟨hid, hlabel⟩ := getD_get?_tagFields id label
  rw [ofFields, h "filterId" (by decide), h "id" (by decide), h "filterLabel" (by decide),
    h "label" (by decide), get?_tagFields_of_ne _ _ (by decide : "id" ≠ "filterId") (by decide),
    get?_tagFields_of_ne _ _ (by decide : "label" ≠ "filterId") (by decide), Option.or_none,
    Option.or_none, hid, hlabel]

/-- Identifiers and labels are saved under two keys. -/
theorem key_of_mem_tagFields {id label : Value} {field : String × Value}
    (h : field ∈ tagFields id label) : field.1 = "filterId" ∨ field.1 = "filterLabel" := by
  rcases List.mem_append.mp h with hid | hlabel
  · split at hid
    · exact absurd hid List.not_mem_nil
    · exact .inl (by rw [List.mem_singleton.mp hid])
  · split at hlabel
    · exact absurd hlabel List.not_mem_nil
    · exact .inr (by rw [List.mem_singleton.mp hlabel])

/-- Members are saved under the word of their branch. -/
theorem get?_branchFields (branch : Connective) (members : List Value) (key : String) :
    Fields.get? (branchFields branch members) key =
      if key = branch.word ∧ members ≠ [] then some (.list members) else none := by
  cases members with
  | nil => simp [branchFields]
  | cons member rest => simp [branchFields, Fields.get?_cons]

/-! ## Leaves -/

/-- The fields that a leaf is saved as. -/
def Leaf.toFields (l : Leaf) : Fields :=
  (FilterKey.name, .text l.name) :: (criteriaFields l.criteria ++
    (joinerFields l.joiner ++ tagFields l.id l.label))

theorem Leaf.toValue_toNode (l : Leaf) : l.toNode.toValue = .record l.toFields := by
  show Value.record _ = Value.record _
  rw [toFields, List.append_assoc, List.cons_append]
  rfl

theorem Leaf.get?_toFields_name (l : Leaf) :
    Fields.get? l.toFields FilterKey.name = some (.text l.name) := by
  rw [toFields, Fields.get?_cons, if_pos rfl]

/-- What is saved of a leaf under a key that is no criterion. -/
theorem Leaf.get?_toFields (l : Leaf) {key : String} (hname : key ≠ FilterKey.name)
    (hkey : FilterKey.isCriterion key = false) :
    Fields.get? l.toFields key =
      (Fields.get? (joinerFields l.joiner) key).or (Fields.get? (tagFields l.id l.label) key) := by
  rw [toFields, Fields.get?_cons, if_neg hname, Fields.get?_append, get?_criteriaFields hkey,
    Option.none_or, Fields.get?_append]

theorem Leaf.tag_toFields (l : Leaf) : Tag.ofFields l.toFields = ⟨l.id, l.label⟩ := by
  refine Tag.ofFields_eq fun key hkey => ?_
  have hnone : Fields.get? (joinerFields l.joiner) key = none := by
    have hne : key ≠ "logicalOp" := by
      rintro rfl
      exact absurd hkey (by decide)
    rw [joinerFields]
    split <;> simp [Fields.get?_cons, hne]
  have hmeta : ∀ k ∈ ["filterId", "id", "filterLabel", "label"],
      k ≠ FilterKey.name ∧ FilterKey.isCriterion k = false := by decide
  rw [l.get?_toFields (hmeta key hkey).1 (hmeta key hkey).2, hnone, Option.none_or]

/-- The joiner of a leaf is read again. -/
theorem Leaf.joinerOf_toFields (l : Leaf) (h : l.joiner ≠ .not) (path : String) :
    joinerOf l.toFields path leafJoiners = .ok l.joiner := by
  have hget : Fields.get? l.toFields "logicalOp" = Fields.get? (joinerFields l.joiner) "logicalOp" := by
    rw [l.get?_toFields (by decide) (by decide),
      get?_tagFields_of_ne _ _ (by decide : "logicalOp" ≠ "filterId") (by decide), Option.or_none]
  have hlower : "or".toLower = "or" := by decide +kernel
  cases hj : l.joiner with
  | and =>
      rw [joinerOf, hget, hj]
      rfl
  | or =>
      have htext : Fields.get? l.toFields "logicalOp" = some (.text "or") := by
        rw [hget, hj]
        rfl
      exact joinerOf_of_find? htext (by rw [hlower]; rfl)
  | not => exact absurd hj h

/-- What is no criterion is skipped. -/
theorem criteriaAfter_eq_nil {w : Option Whitelist} {name path : String}
    {seen : List (Operator × String)} {fields : Fields}
    (h : ∀ field ∈ fields, FilterKey.isCriterion field.1 = false) :
    criteriaAfter w name path seen fields = .ok [] := by
  induction fields with
  | nil => rfl
  | cons field rest ih =>
      obtain ⟨key, value⟩ := field
      refine criteriaAfter_cons_eq_ok_iff.mpr (.inl ⟨h _ List.mem_cons_self, ?_⟩)
      exact ih fun field hfield => h field (List.mem_cons_of_mem _ hfield)

/-- Saved criteria are read again. -/
theorem criteriaAfter_criteriaFields {name path : String} {seen : List (Operator × String)}
    {criteria : Criteria} (hnew : ∀ criterion ∈ criteria, seen.lookup criterion.1 = none)
    (hdistinct : (criteria.map Prod.fst).Nodup)
    (hstored : ∀ criterion ∈ criteria, criterion.2.Stored criterion.1) {rest : Fields}
    (hrest : ∀ field ∈ rest, FilterKey.isCriterion field.1 = false) :
    criteriaAfter none name path seen (criteriaFields criteria ++ rest) = .ok criteria := by
  induction criteria generalizing seen with
  | nil => exact criteriaAfter_eq_nil hrest
  | cons criterion later ih =>
      obtain ⟨op, value⟩ := criterion
      rw [List.map_cons, List.nodup_cons] at hdistinct
      rw [List.forall_mem_cons] at hnew hstored
      have hlater : ∀ criterion ∈ later, ((op, op.name) :: seen).lookup criterion.1 = none := by
        intro criterion hcriterion
        have hne : criterion.1 ≠ op := by
          rintro rfl
          exact hdistinct.1 (List.mem_map.mpr ⟨criterion, hcriterion, rfl⟩)
        rw [List.lookup_cons, beq_eq_false_iff_ne.mpr hne]
        exact hnew.2 criterion hcriterion
      refine criteriaAfter_cons_eq_ok_iff.mpr (.inr ⟨FilterKey.isCriterion_name op, op, value, later,
        Operator.ofSpelling?_core op, hnew.1, rfl, ?_, ?_, rfl⟩)
      · exact shapeValue_plain_of_stored hstored.1
      · exact ih hlater hdistinct.2 hstored.2

/-- The metadata of a leaf is saved under keys that are no criteria. -/
theorem Leaf.not_isCriterion_of_mem (l : Leaf) :
    ∀ field ∈ joinerFields l.joiner ++ tagFields l.id l.label,
      FilterKey.isCriterion field.1 = false := by
  intro field hfield
  rcases List.mem_append.mp hfield with hjoiner | htag
  · rw [joinerFields] at hjoiner
    split at hjoiner
    · exact absurd hjoiner List.not_mem_nil
    · rw [List.mem_singleton.mp hjoiner]
      show FilterKey.isCriterion "logicalOp" = false
      decide
  · rcases key_of_mem_tagFields htag with hkey | hkey <;> rw [hkey] <;> decide

/-- The criteria of a leaf are read again. -/
theorem Leaf.criteriaAfter_toFields {l : Leaf} (h : l.Canonical) (name path : String) :
    criteriaAfter none name path [] l.toFields = .ok l.criteria := by
  refine criteriaAfter_cons_eq_ok_iff.mpr (.inl ⟨by decide, ?_⟩)
  exact criteriaAfter_criteriaFields (fun _ _ => rfl) h.distinct h.stored l.not_isCriterion_of_mem

/-- A leaf is saved in the shape of a filter on one attribute. -/
theorem Leaf.isAttributeFilter_toFields {l : Leaf} (h : l.Canonical) :
    (Value.record l.toFields).isAttributeFilter = true := by
  obtain ⟨criterion, hcriterion⟩ := List.exists_mem_of_ne_nil _ h.criteria_ne_nil
  rw [Value.isAttributeFilter, Bool.and_eq_true]
  constructor
  · rw [Value.isCriteria, List.any_eq_true]
    have hfield : (criterion.1.name, criterion.2.plain) ∈ criteriaFields l.criteria :=
      List.mem_map.mpr ⟨criterion, hcriterion, rfl⟩
    refine ⟨(criterion.1.name, criterion.2.plain), ?_, ?_⟩
    · exact List.mem_cons_of_mem _ (List.mem_append_left _ hfield)
    · show Operator.isSpelling criterion.1.name = true
      rw [Operator.isSpelling, Operator.ofSpelling?_core]
      rfl
  · exact Fields.has_iff.mpr ⟨.text l.name, l.get?_toFields_name⟩

/-! ## Outcomes of reloading -/

/-- How reloading ends: with what was saved when all attributes have names, and otherwise with the
complaint about an empty name. -/
def Reloads {α : Type} (named : Prop) (x : Except FilterError α) (a : α) : Prop :=
  (named → x = .ok a) ∧
    (¬named → ∃ place, x = .error (.shape (.badName (.text "")) (.text place)))

namespace Reloads

variable {α β : Type} {p q : Prop} {x : Except FilterError α} {a : α}

/-- Two steps end well when both do, and a complaint of either of them is that of both. -/
theorem bind {f : α → Except FilterError β} {b : β} (hx : Reloads p x a) (hf : Reloads q (f a) b) :
    Reloads (p ∧ q) (x >>= f) b := by
  constructor
  · rintro ⟨hp, hq⟩
    rw [hx.1 hp, ok_bind, hf.1 hq]
  · intro hnot
    by_cases hp : p
    · rw [hx.1 hp, ok_bind]
      exact hf.2 fun hq => hnot ⟨hp, hq⟩
    · obtain ⟨place, hplace⟩ := hx.2 hp
      exact ⟨place, by rw [hplace, error_bind]⟩

theorem map (f : α → β) (hx : Reloads p x a) : Reloads p (x.map f) (f a) := by
  constructor
  · intro hp
    rw [hx.1 hp]
    rfl
  · intro hp
    obtain ⟨place, hplace⟩ := hx.2 hp
    exact ⟨place, by rw [hplace]; rfl⟩

theorem pure (a : α) : Reloads True (Except.ok a) a :=
  ⟨fun _ => rfl, fun h => absurd trivial h⟩

theorem congr (h : p ↔ q) (hx : Reloads p x a) : Reloads q x a := by
  rwa [← propext h]

end Reloads

/-- A leaf is reloaded as a filter on one attribute. -/
theorem Leaf.reloads {l : Leaf} (h : l.Canonical) (path : String) :
    Reloads (l.name ≠ "") (buildAt none path l.toNode.toValue) l.toNode := by
  have hname : (Fields.get? l.toFields FilterKey.name).getD .null = .text l.name := by
    rw [get?_toFields_name, Option.getD_some]
  rw [toValue_toNode, buildAt_of_isAttributeFilter (isAttributeFilter_toFields h)]
  constructor
  · intro hne
    refine attributeLeaf_eq_ok_iff.mpr ⟨l.name, by rw [hname]; rfl, hne, ?_⟩
    refine leafOf_eq_ok_iff.mpr ⟨l.criteria, l.joiner, criteriaAfter_toFields h _ _,
      h.criteria_ne_nil, joinerOf_toFields l h.joiner_ne_not path, ?_⟩
    rw [tag_toFields]
    rfl
  · intro hempty
    refine ⟨s!"{path}.attribute", ?_⟩
    rw [attributeLeaf, hname]
    simp [Value.text?, Decidable.not_not.mp hempty]

/-! ## Groups -/

/-- The fields that a group is saved as. -/
def Group.toFields (g : Group) : Fields :=
  tagFields g.id g.label ++ (branchFields .and (g.ands.map Node.toValue) ++
    (branchFields .or (g.ors.map Node.toValue) ++ branchFields .not (g.nots.map Node.toValue)))

theorem Group.toValue_toNode (g : Group) : g.toNode.toValue = .record g.toFields := by
  rw [toNode, Node.toValue, toFields, Node.toValues_eq_map, Node.toValues_eq_map,
    Node.toValues_eq_map, List.append_assoc, List.append_assoc]

/-- The members of a group are found again in their branches. -/
theorem Group.branchItems?_toFields (g : Group) (branch : Connective) :
    branchItems? g.toFields branch = some ((g.branch branch).map Node.toValue) := by
  have hid : branch.word ≠ "filterId" := by cases branch <;> decide
  have hlabel : branch.word ≠ "filterLabel" := by cases branch <;> decide
  rw [branchItems?, toFields, Fields.get?_append, get?_tagFields_of_ne _ _ hid hlabel,
    Option.none_or, Fields.get?_append, Fields.get?_append, get?_branchFields, get?_branchFields,
    get?_branchFields]
  simp only [Connective.word_inj]
  have hmembers : ∀ ms : List Node, ((if ms.map Node.toValue ≠ [] then
      some (Value.list (ms.map Node.toValue)) else none).getD .null).members? =
        some (ms.map Node.toValue) := by
    intro ms
    cases ms with
    | nil => rfl
    | cons m rest => rfl
  cases branch with
  | and => simpa [Group.branch] using hmembers g.ands
  | or => simpa [Group.branch] using hmembers g.ors
  | not => simpa [Group.branch] using hmembers g.nots

/-- Of a group with members every key is that of a branch or of metadata. -/
theorem Group.isGroupFilter_toFields {g : Group} (h : g.isEmpty = false) :
    (Value.record g.toFields).isGroupFilter = true := by
  have hmember : ∃ branch, g.branch branch ≠ [] := by
    rw [isEmpty, Bool.and_eq_false_iff, Bool.and_eq_false_iff] at h
    rcases h with (hands | hors) | hnots
    · exact ⟨.and, List.isEmpty_eq_false_iff.mp hands⟩
    · exact ⟨.or, List.isEmpty_eq_false_iff.mp hors⟩
    · exact ⟨.not, List.isEmpty_eq_false_iff.mp hnots⟩
  obtain ⟨branch, hbranch⟩ := hmember
  rw [Value.isGroupFilter, Bool.and_eq_true, List.any_eq_true, List.all_eq_true]
  constructor
  · refine ⟨branch, by cases branch <;> decide, ?_⟩
    have hne : (g.branch branch).map Node.toValue ≠ [] := fun hnil =>
      hbranch (List.map_eq_nil_iff.mp hnil)
    rw [get?_of_branchItems? (g.branchItems?_toFields branch) hne]
    rfl
  · intro field hfield
    have hkey : ∀ branch ms, field ∈ branchFields branch ms → FilterKey.isBranch field.1 = true := by
      intro branch ms hmem
      rw [branchFields] at hmem
      split at hmem
      · exact absurd hmem List.not_mem_nil
      · rw [List.mem_singleton.mp hmem]
        exact FilterKey.isBranch_word branch
    rw [toFields, List.mem_append, List.mem_append, List.mem_append] at hfield
    rw [Bool.or_eq_true]
    rcases hfield with htag | hands | hors | hnots
    · right
      rcases key_of_mem_tagFields htag with hkey | hkey <;> rw [hkey] <;> decide
    · exact .inl (hkey _ _ hands)
    · exact .inl (hkey _ _ hors)
    · exact .inl (hkey _ _ hnots)

theorem Group.tag_toFields (g : Group) : Tag.ofFields g.toFields = ⟨g.id, g.label⟩ := by
  refine Tag.ofFields_eq fun key hkey => ?_
  have hne : ∀ branch : Connective, key ≠ branch.word := by
    rintro branch rfl
    cases branch <;> exact absurd hkey (by decide)
  rw [toFields, Fields.get?_append, Fields.get?_append, Fields.get?_append, get?_branchFields,
    get?_branchFields, get?_branchFields, if_neg fun h => hne _ h.1, if_neg fun h => hne _ h.1,
    if_neg fun h => hne _ h.1]
  simp only [Option.or_none]

/-- Members of which every one is reloaded are reloaded. -/
theorem reloads_buildMembers {ns : List Node} {path : String} {index : Nat}
    (h : ∀ n ∈ ns, ∀ place, Reloads n.Named (buildAt none place n.toValue) n) :
    Reloads (∀ n ∈ ns, n.Named) (buildMembers none path index (ns.map Node.toValue)) ns := by
  induction ns generalizing index with
  | nil => exact (Reloads.pure []).congr (by simp)
  | cons n rest ih =>
      rw [List.forall_mem_cons] at h
      rw [List.map_cons, buildMembers]
      have hrest : Reloads (∀ n ∈ rest, n.Named)
          (buildMembers none path (index + 1) (rest.map Node.toValue)) rest := ih h.2
      refine ((h.1 _).bind (hrest.bind (Reloads.pure (n :: rest)))).congr ?_
      rw [List.forall_mem_cons, and_true]

/-- A group with members is reloaded as a group. -/
theorem Group.reloads_of_members {g : Group} (hempty : g.isEmpty = false) {path : String}
    (h : ∀ branch, ∀ n ∈ g.branch branch, ∀ place,
      Reloads n.Named (buildAt none place n.toValue) n) :
    Reloads g.toNode.Named (buildAt none path g.toNode.toValue) g.toNode := by
  have hbranch : ∀ branch, Reloads (∀ n ∈ g.branch branch, n.Named)
      (buildBranch none path branch g.toFields) (g.branch branch) := by
    intro branch
    rw [buildBranch_eq, g.branchItems?_toFields]
    exact reloads_buildMembers (h branch)
  rw [toValue_toNode, buildAt_of_isGroupFilter (isGroupFilter_toFields hempty), tag_toFields]
  refine ((hbranch .and).bind ((hbranch .or).bind ((hbranch .not).bind
    (Reloads.pure g.toNode)))).congr ?_
  rw [Node.Named, forall_leaves_toNode]
  constructor
  · rintro ⟨hands, hors, hnots, -⟩ branch
    cases branch with
    | and => exact hands
    | or => exact hors
    | not => exact hnots
  · intro hall
    exact ⟨hall .and, hall .or, hall .not, trivial⟩

/-- A group without members is reloaded as a map without attributes. -/
theorem Group.reloads_of_isEmpty {g : Group} (hempty : g.isEmpty = true) {path : String} :
    Reloads g.toNode.Named (buildAt none path g.toNode.toValue) g.toNode := by
  obtain ⟨ands, ors, nots, id, label⟩ := g
  simp only [isEmpty, Bool.and_eq_true, List.isEmpty_iff] at hempty
  obtain ⟨⟨rfl, rfl⟩, rfl⟩ := hempty
  have hfields : toFields ⟨[], [], [], id, label⟩ = tagFields id label := by
    simp [toFields, branchFields]
  have hmeta : ∀ field ∈ tagFields id label, FilterKey.isMapMetadata field.1 field.2 = true := by
    intro field hfield
    rw [FilterKey.isMapMetadata, Bool.or_eq_true]
    left
    rcases key_of_mem_tagFields hfield with hkey | hkey <;> rw [hkey] <;> decide
  have hmap : (Value.record (tagFields id label)).isEntityFilter = true := by
    rw [Value.isEntityFilter, Bool.and_eq_true, List.all_eq_true, Fields.has,
      get?_tagFields_of_ne _ _ (by decide) (by decide)]
    exact ⟨rfl, fun field hfield => by rw [hmeta field hfield, Bool.true_or]⟩
  have htag : Tag.ofMap (tagFields id label) = ⟨id, label⟩ := by
    rw [Tag.ofMap, List.filter_eq_self.mpr hmeta, ← hfields, tag_toFields]
  have hbuild : mapGroup none path (tagFields id label) = .ok ⟨[], [], [], id, label⟩ := by
    refine mapGroup_eq_ok_iff.mpr ⟨.and, [], ?_, ?_, by rw [htag]; rfl⟩
    · rw [joinerOf, get?_tagFields_of_ne _ _ (by decide) (by decide)]
      rfl
    · have hentries : mapEntries (tagFields id label) = [] :=
        List.filter_eq_nil_iff.mpr fun field hfield => by simp [hmeta field hfield]
      rw [mapLeaves_eq_mapM, hentries]
      rfl
  rw [toValue_toNode, hfields, buildAt_of_isEntityFilter hmap, hbuild]
  exact (Reloads.pure _).congr (by simp [Node.Named, toNode])

/-! ## Filters -/

/-- A filter with canonical leaves is reloaded. -/
theorem Node.reloads {n : Node} (h : ∀ l ∈ n.leaves, l.Canonical) (path : String) :
    Reloads n.Named (buildAt none path n.toValue) n := by
  induction n using Node.memberInduction generalizing path with
  | leaf name criteria joiner id label =>
      rw [leaves_leaf, List.forall_mem_singleton] at h
      refine (Leaf.reloads h path).congr ?_
      simp [Named]
  | group ands ors nots id label hands hors hnots =>
      let g : Group := ⟨ands, ors, nots, id, label⟩
      show Reloads g.toNode.Named (buildAt none path g.toNode.toValue) g.toNode
      cases hempty : g.isEmpty with
      | true => exact Group.reloads_of_isEmpty hempty
      | false =>
          have hleaves := Group.forall_leaves_toNode (g := g).mp h
          refine Group.reloads_of_members hempty ?_
          intro branch n hn
          cases branch with
          | and => exact hands n hn (hleaves .and n hn)
          | or => exact hors n hn (hleaves .or n hn)
          | not => exact hnots n hn (hleaves .not n hn)

/-- A filter that was built from plain data and saved is reloaded as it was exactly when no map of
attributes in the data has the empty name; with an empty name it is refused for this name. -/
theorem reload_iff {w : Option Whitelist} {raw : Value} (hdata : raw.isData = true) {g : Group}
    (h : buildFilter w raw = .ok g) :
    (buildFilter none g.toValue = .ok g ↔ raw.AllMaps Fields.Named) ∧
      (¬raw.AllMaps Fields.Named → ∃ place,
        buildFilter none g.toValue = .error (.shape (.badName (.text "")) (.text place))) := by
  obtain ⟨n, hn, rfl⟩ := map_eq_ok_iff.mp h
  have hcanonical : ∀ l ∈ (Group.ofNode n).toNode.leaves, l.Canonical := by
    have hleaves : (Group.ofNode n).toNode.leaves = n.leaves := Group.leaves_ofNode n
    rw [hleaves]
    exact canonical_of_buildAt hdata hn
  have hnamed : (Group.ofNode n).toNode.Named ↔ raw.AllMaps Fields.Named := by
    have hfree : raw.isNodeFree = true := (Bool.and_eq_true_iff.mp hdata).2
    rw [← named_of_buildAt_iff hfree hn, Node.Named, Node.Named]
    exact iff_of_eq (congrArg (fun ls => ∀ l ∈ ls, l.name ≠ "") (Group.leaves_ofNode n))
  have hreload : Reloads (raw.AllMaps Fields.Named) (buildFilter none (Group.ofNode n).toValue)
      (Group.ofNode n) :=
    ((Node.reloads hcanonical rootPath).congr hnamed).map Group.ofNode
  refine ⟨⟨fun hok => ?_, hreload.1⟩, hreload.2⟩
  by_cases hall : raw.AllMaps Fields.Named
  · exact hall
  · obtain ⟨place, hplace⟩ := hreload.2 hall
    rw [hplace] at hok
    exact absurd hok (by simp)

/-- Ages from one to nine and names from a list, with an identifier. -/
def rangeFilter : Value :=
  .record [("age", .record [("between", .list [.int 1, .int 9])]), ("id", .text "ages"),
    ("name", .record [("inList", .text "ada")])]

theorem reload_rangeFilter :
    rangeFilter.isData = true ∧ ∃ g, buildFilter none rangeFilter = .ok g ∧
      buildFilter none g.toValue = .ok g := by
  have hnamed : rangeFilter.AllMaps Fields.Named :=
    (Value.allMaps_iff_of_isEntityFilter rfl).mpr (by unfold Fields.Named; decide)
  exact ⟨rfl, _, rfl, (reload_iff (w := none) rfl rfl).1.mpr hnamed⟩

/-- A map of attributes with the empty name. -/
def emptyNameFilter : Value :=
  .record [("", .record [("eq", .int 1)])]

/-- A filter on the attribute with the empty name is built from a map, saved and then refused. -/
theorem emptyNameFilter_not_reloaded :
    emptyNameFilter.isData = true ∧ ∃ g, buildFilter none emptyNameFilter = .ok g ∧
      buildFilter none g.toValue =
        .error (.shape (.badName (.text "")) (.text "<root>.and[0].attribute")) :=
  ⟨rfl, _, rfl, rfl⟩

end RecordQuery
