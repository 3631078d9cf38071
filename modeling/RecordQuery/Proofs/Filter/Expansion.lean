import RecordQuery.Proofs.Filter.Agreement
/-!
# Maps of attributes as groups

A map of attributes is short for a group with one branch: each of its entries stands for the filter on
one attribute that has the operator map of the entry, and its metadata is that of the group.
`expansion_builds_alike` says that building makes no difference between the two, under any whitelist.
-/

namespace RecordQuery

/-! ## What a map stands for -/

namespace Fields

/-- The fields that hold no record. -/
def scalars (fields : Fields) : Fields :=
  fields.filter fun field => !field.2.isRecord

/-- The attributes of a map with their operator maps. Long metadata keys are none, and short ones are
attributes when they hold records. -/
def attributes (fields : Fields) : Fields :=
  fields.filter fun field => !FilterKey.ownMetadata.contains field.1 &&
    (!FilterKey.shortMetadata.contains field.1 || field.2.isRecord)

/-- The filter on one attribute that an entry of a map stands for: its operator map, with the key as
the name of the attribute in front. -/
def entryLeaf (entry : String × Value) : Value :=
  .record (withName (.text entry.1) (operatorMap entry.2))

/-- The group that a map of attributes is short for, when its branch is given. Every attribute becomes
a filter of its own; short keys that hold no records give the identifier and the label. -/
def expansion (fields : Fields) (branch : Connective) : Fields :=
  [(branch.word, .list (fields.attributes.map entryLeaf)),
    ("filterId", ((get? fields "filterId").or (get? fields.scalars "id")).getD .null),
    ("filterLabel", ((get? fields "filterLabel").or (get? fields.scalars "label")).getD .null)]

/-- What a key has among some of the fields hangs on which fields of this key are among them. -/
theorem get?_filter_congr {α : Type} {fields : List (String × α)} {p q : String × α → Bool}
    {key : String} (h : ∀ a, p (key, a) = q (key, a)) :
    get? (fields.filter p) key = get? (fields.filter q) key := by
  induction fields with
  | nil => rfl
  | cons field rest ih =>
      obtain ⟨k, a⟩ := field
      have hskip : ∀ r : String × α → Bool, k ≠ key →
          get? (((k, a) :: rest).filter r) key = get? (rest.filter r) key := by
        intro r hk
        rw [List.filter_cons]
        split
        · rw [get?_cons, if_neg hk.symm]
        · rfl
      by_cases hk : k = key
      · subst hk
        rw [List.filter_cons, List.filter_cons, h a]
        split
        · rw [get?_cons, get?_cons, if_pos rfl, if_pos rfl]
        · exact ih
      · rw [hskip p hk, hskip q hk, ih]

end Fields

/-- The attributes of a map are the entries that leaves are built of. -/
theorem mapEntries_eq_attributes (fields : Fields) : mapEntries fields = fields.attributes := by
  apply List.filter_congr
  intro field _
  rw [FilterKey.isMapMetadata, Bool.not_or, Bool.not_and, Bool.not_not]

/-- The metadata of a map of attributes: long keys count whatever they hold, and short ones when they
hold no records. -/
theorem Tag.ofMap_eq (fields : Fields) :
    ofMap fields =
      ⟨((Fields.get? fields "filterId").or (Fields.get? fields.scalars "id")).getD .null,
        ((Fields.get? fields "filterLabel").or (Fields.get? fields.scalars "label")).getD .null⟩ := by
  have hlong : ∀ key, FilterKey.ownMetadata.contains key = true →
      Fields.get? (fields.filter fun field => FilterKey.isMapMetadata field.1 field.2) key =
        Fields.get? fields key := by
    intro key hkey
    have hall : ∀ a, FilterKey.isMapMetadata key a = true := fun a => by
      rw [FilterKey.isMapMetadata, hkey, Bool.true_or]
    rw [Fields.get?_filter_congr (q := fun _ => true) hall, List.filter_true]
  have hshort : ∀ key, FilterKey.ownMetadata.contains key = false →
      FilterKey.shortMetadata.contains key = true →
      Fields.get? (fields.filter fun field => FilterKey.isMapMetadata field.1 field.2) key =
        Fields.get? fields.scalars key := by
    intro key hown hkey
    apply Fields.get?_filter_congr
    intro a
    rw [FilterKey.isMapMetadata, hown, hkey, Bool.false_or, Bool.true_and]
  rw [ofMap, ofFields, hlong "filterId" rfl, hlong "filterLabel" rfl, hshort "id" rfl rfl,
    hshort "label" rfl rfl]

/-! ## Entries -/

section

variable {w : Option Whitelist}

/-- A leaf is built or refused whatever its place is. -/
theorem leafOf_eq_ok_iff_at {name path : String} {fields : Fields} {n : Node} (other : String) :
    leafOf w name path fields = .ok n ↔ leafOf w name other fields = .ok n := by
  have hforward : ∀ path other : String,
      leafOf w name path fields = .ok n → leafOf w name other fields = .ok n := by
    intro path other h
    obtain ⟨criteria, joiner, hcriteria, hne, hjoiner, rfl⟩ := leafOf_eq_ok_iff.mp h
    have hread : criteriaAfter w name other [] fields = .ok criteria :=
      criteriaAfter_eq_ok_iff.mpr (criteriaAfter_eq_ok_iff.mp hcriteria)
    exact leafOf_eq_ok_iff.mpr ⟨criteria, joiner, hread, hne, joinerOf_ok_at hjoiner other, rfl⟩
  exact ⟨hforward path other, hforward other path⟩

/-- The filter on one attribute that an entry stands for is built as the leaf of the entry. -/
theorem buildAt_entryLeaf {path : String} {entry : String × Value} (hname : entry.1 ≠ "")
    (hcriteria : entry.2.isCriteria = true) :
    buildAt w path (Fields.entryLeaf entry) = leafOf w entry.1 path (operatorMap entry.2) := by
  have hshape : (Value.record
      (Fields.withName (.text entry.1) (operatorMap entry.2))).isAttributeFilter = true := by
    apply Value.isAttributeFilter_withName
    cases hvalue : entry.2 with
    | record fields => exact hvalue ▸ hcriteria
    | null | bool | int | float | text | list | tuple | moment | connective | node | deferred =>
        rw [hvalue] at hcriteria
        exact absurd hcriteria (by simp [Value.isCriteria])
  have hsame : leafOf w entry.1 path (Fields.withName (.text entry.1) (operatorMap entry.2)) =
      leafOf w entry.1 path (operatorMap entry.2) := by
    apply leafOf_congr (Fields.filter_withName _ _)
    intro key hkey
    apply Fields.get?_withName_of_ne
    rintro rfl
    exact absurd hkey (by decide)
  rw [Fields.entryLeaf, buildAt_of_isAttributeFilter hshape, attributeLeaf, Fields.get?_withName,
    Option.getD_some]
  show (if entry.1 = "" then _ else _) = _
  rw [if_neg hname, hsame]

/-- Members are built one by one, when what is built of them does not hang on their places. -/
theorem buildMembers_map_eq_ok_iff {α : Type} {f : α → Value} {P : α → Node → Prop} {xs : List α}
    (h : ∀ x ∈ xs, ∀ place n, buildAt w place (f x) = .ok n ↔ P x n) {path : String} {index : Nat}
    {ns : List Node} :
    buildMembers w path index (xs.map f) = .ok ns ↔ List.Forall₂ P xs ns := by
  induction xs generalizing index ns with
  | nil =>
      rw [List.map_nil, buildMembers, List.forall₂_nil_left_iff, Except.ok.injEq]
      exact eq_comm
  | cons x rest ih =>
      obtain ⟨hx, hrest⟩ := List.forall_mem_cons.mp h
      rw [List.map_cons, buildMembers, List.forall₂_cons_left_iff, bind_eq_ok_iff]
      constructor
      · rintro ⟨n, hn, hbuild⟩
        obtain ⟨later, hlater, heq⟩ := bind_eq_ok_iff.mp hbuild
        exact ⟨n, later, (hx _ n).mp hn, (ih hrest).mp hlater, (Except.ok.inj heq).symm⟩
      · rintro ⟨n, later, hn, hlater, rfl⟩
        refine ⟨n, (hx _ n).mpr hn, ?_⟩
        rw [(ih hrest).mpr hlater]
        rfl

/-! ## Groups -/

variable {fields : Fields} {branch : Connective}

/-- The attributes of a map hold operator maps. -/
theorem Value.isCriteria_of_mem_attributes (h : (record fields).isEntityFilter = true)
    {entry : String × Value} (hentry : entry ∈ fields.attributes) : entry.2.isCriteria = true := by
  rw [← mapEntries_eq_attributes, mapEntries, List.mem_filter] at hentry
  obtain ⟨hmem, hattribute⟩ := hentry
  rw [isEntityFilter, Bool.and_eq_true, List.all_eq_true] at h
  have hshape := h.2 entry hmem
  rw [Bool.not_eq_true'] at hattribute
  rwa [hattribute, Bool.false_or] at hshape

namespace Fields

/-- The expansion of a map has the shape of a group. -/
theorem isGroupFilter_expansion (fields : Fields) (branch : Connective) :
    (Value.record (fields.expansion branch)).isGroupFilter = true := by
  cases branch <;> rfl

/-- The members of the expansion all stand in its branch. -/
theorem branchItems?_expansion (fields : Fields) (branch other : Connective) :
    branchItems? (fields.expansion branch) other =
      some (if other = branch then fields.attributes.map entryLeaf else []) := by
  cases branch <;> cases other <;> rfl

/-- The metadata of the expansion is that of the map. -/
theorem tag_expansion (fields : Fields) (branch : Connective) :
    Tag.ofFields (fields.expansion branch) = Tag.ofMap fields := by
  rw [Tag.ofMap_eq]
  cases branch <;> rfl

end Fields

/-- What is built of a map of attributes is told by the leaves of its entries. -/
theorem buildFilter_map_eq_ok_iff (hmap : (Value.record fields).isEntityFilter = true)
    (hbranch : joinerOf fields rootPath Connective.all = .ok branch) {g : Group} :
    buildFilter w (.record fields) = .ok g ↔ ∃ leaves,
      List.Forall₂ (fun entry n => leafOf w entry.1 rootPath (operatorMap entry.2) = .ok n)
        fields.attributes leaves ∧ g = Group.ofBranch branch leaves (Tag.ofMap fields) := by
  have hentry : ∀ entry : String × Value, ∀ n,
      leafOf w entry.1 s!"{rootPath}.{entry.1}" (operatorMap entry.2) = .ok n ↔
        leafOf w entry.1 rootPath (operatorMap entry.2) = .ok n :=
    fun entry n => leafOf_eq_ok_iff_at rootPath
  rw [buildFilter, buildNode, buildAt_of_isEntityFilter hmap, map_eq_ok_iff]
  simp only [map_eq_ok_iff, mapGroup_eq_ok_iff, hbranch, mapLeaves_eq_mapM, mapM_eq_ok_iff,
    mapEntries_eq_attributes, hentry, Except.ok.injEq]
  constructor
  · rintro ⟨n, ⟨_, ⟨_, leaves, rfl, hleaves, rfl⟩, rfl⟩, rfl⟩
    exact ⟨leaves, hleaves, rfl⟩
  · rintro ⟨leaves, hleaves, rfl⟩
    exact ⟨_, ⟨_, ⟨branch, leaves, rfl, hleaves, rfl⟩, rfl⟩, rfl⟩

/-- What is built of the expansion is told by them in the same way. -/
theorem buildFilter_expansion_eq_ok_iff (hmap : (Value.record fields).isEntityFilter = true)
    (hnames : ∀ entry ∈ fields.attributes, entry.1 ≠ "") {g : Group} :
    buildFilter w (.record (fields.expansion branch)) = .ok g ↔ ∃ leaves,
      List.Forall₂ (fun entry n => leafOf w entry.1 rootPath (operatorMap entry.2) = .ok n)
        fields.attributes leaves ∧ g = Group.ofBranch branch leaves (Tag.ofMap fields) := by
  have hmembers : ∀ path ns, buildMembers w path 0 (fields.attributes.map Fields.entryLeaf) = .ok ns ↔
      List.Forall₂ (fun entry n => leafOf w entry.1 rootPath (operatorMap entry.2) = .ok n)
        fields.attributes ns := by
    intro path ns
    apply buildMembers_map_eq_ok_iff
    intro entry hentry place n
    rw [buildAt_entryLeaf (hnames entry hentry) (Value.isCriteria_of_mem_attributes hmap hentry)]
    exact leafOf_eq_ok_iff_at rootPath
  have hbranch : ∀ other ns, buildBranch w rootPath other (fields.expansion branch) = .ok ns ↔
      if other = branch then List.Forall₂ (fun entry n =>
        leafOf w entry.1 rootPath (operatorMap entry.2) = .ok n) fields.attributes ns
      else ns = [] := by
    intro other ns
    rw [buildBranch_eq, Fields.branchItems?_expansion]
    by_cases hother : other = branch
    · simp only [if_pos hother]
      exact hmembers _ ns
    · simp only [if_neg hother, buildMembers, Except.ok.injEq]
      exact eq_comm
  rw [buildFilter, buildNode, map_eq_ok_iff]
  simp only [buildAt_eq_ok_iff_of_isGroupFilter (Fields.isGroupFilter_expansion fields branch),
    hbranch, Fields.tag_expansion]
  constructor
  · rintro ⟨_, ⟨found, hfound, hid, hlabel, rfl⟩, rfl⟩
    refine ⟨found.branch branch, by simpa only [if_true] using hfound branch, ?_⟩
    have hothers : ∀ other, other ≠ branch → found.branch other = [] := by
      intro other hother
      simpa only [if_neg hother] using hfound other
    show found = Group.ofBranch branch (found.branch branch) ⟨(Tag.ofMap fields).id, (Tag.ofMap fields).label⟩
    rw [← hid, ← hlabel, ofBranch_branch hothers]
  · rintro ⟨leaves, hleaves, rfl⟩
    refine ⟨_, ⟨Group.ofBranch branch leaves (Tag.ofMap fields), ?_, ?_, ?_, rfl⟩, rfl⟩
    · intro other
      rw [branch_ofBranch]
      by_cases hother : other = branch
      · simp only [if_pos hother]
        exact hleaves
      · simp only [if_neg hother]
    · cases branch <;> rfl
    · cases branch <;> rfl

/-- **A map of attributes is built as the group it is short for.** When its attributes have names and it
has a joiner, the map and the group with the branch of this joiner are built to the same filter or are
both refused, under any whitelist. -/
theorem expansion_builds_alike (hmap : (Value.record fields).isEntityFilter = true)
    (hnames : ∀ entry ∈ fields.attributes, entry.1 ≠ "")
    (hbranch : joinerOf fields rootPath Connective.all = .ok branch) (g : Group) :
    buildFilter w (.record fields) = .ok g ↔
      buildFilter w (.record (fields.expansion branch)) = .ok g := by
  rw [buildFilter_map_eq_ok_iff hmap hbranch, buildFilter_expansion_eq_ok_iff hmap hnames]

end

/-- Guests with a small or a large identifier, or with a name: `id` is an attribute here, and `label` is
not. -/
def guestMap : Fields :=
  [("label", .text "guests"), ("logicalOp", .connective .or),
    ("id", .record [("<", .int 3), ("greaterThan", .int 70), ("logicalOp", .connective .or)]),
    ("name", .record [("exists", .bool true), ("filterId", .text "named")])]

/-- The group that the map is short for is built as the map is. -/
theorem guestMap_expansion :
    (Value.record guestMap).isEntityFilter = true ∧
      guestMap.attributes.map Prod.fst = ["id", "name"] ∧
      (∀ entry ∈ guestMap.attributes, entry.1 ≠ "") ∧
      joinerOf guestMap rootPath Connective.all = .ok .or ∧
      ∃ g, buildFilter (some ⟨[("id", ["lt", "gt"]), ("name", [])]⟩) (.record guestMap) = .ok g ∧
        g.ors.length = 2 ∧ g.label = .text "guests" ∧
        buildFilter (some ⟨[("id", ["lt", "gt"]), ("name", [])]⟩)
          (.record (guestMap.expansion .or)) = .ok g := by
  have hnames : ∀ entry ∈ guestMap.attributes, entry.1 ≠ "" := by
    intro entry hentry
    have hkey : entry.1 ∈ ["id", "name"] := List.mem_map.mpr ⟨entry, hentry, rfl⟩
    intro hempty
    exact absurd (hempty ▸ hkey) (by decide)
  refine ⟨rfl, rfl, hnames, rfl, _, rfl, rfl, rfl, ?_⟩
  exact (expansion_builds_alike rfl hnames rfl _).mp rfl

end RecordQuery
