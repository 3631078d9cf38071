import RecordQuery.Proofs.Filter.Descent
import RecordQuery.Proofs.Outcome
/-!
# When building succeeds

For every step of the builder, exactly when it succeeds and with which result. Proofs about built
filters go through these equivalences and do not open the steps themselves.
-/

namespace RecordQuery

/-! ## Metadata -/

section

variable {first second : Fields}
  (hmeta : ∀ key, FilterKey.isMetadata key = true → Fields.get? first key = Fields.get? second key)

include hmeta

/-- The joiner of a record is read off its metadata. -/
theorem joinerOf_congr (path : String) (allowed : List Connective) :
    joinerOf first path allowed = joinerOf second path allowed := by
  rw [joinerOf, joinerOf, hmeta "logicalOp" (by decide)]

/-- So are its id and its label. -/
theorem Tag.ofFields_congr : ofFields first = ofFields second := by
  rw [ofFields, ofFields, hmeta "filterId" (by decide), hmeta "id" (by decide),
    hmeta "filterLabel" (by decide), hmeta "label" (by decide)]

end

/-! ## Joiners -/

/-- The joiner of a record is one of the allowed connectives, or the conjunction by default. -/
theorem mem_of_joinerOf {fields : Fields} {path : String} {allowed : List Connective}
    {c : Connective} (h : joinerOf fields path allowed = .ok c) : c ∈ allowed ∨ c = .and := by
  rw [joinerOf] at h
  cases hvalue : (Fields.get? fields "logicalOp").getD .null with
  | null =>
      rw [hvalue] at h
      exact .inr (Except.ok.inj h).symm
  | connective d =>
      rw [hvalue] at h
      by_cases hmem : d ∈ allowed
      · simp only [if_pos hmem] at h
        exact .inl (Except.ok.inj h ▸ hmem)
      · simp only [if_neg hmem] at h
        exact absurd h (by simp)
  | bool | int | float | text | list | tuple | record | moment | node | deferred =>
      rw [hvalue] at h
      simp only at h
      split at h
      · rename_i found hfind
        exact .inl (Except.ok.inj h ▸ List.mem_of_find?_eq_some hfind)
      · exact absurd h (by simp)

/-- A text that is the word of an allowed connective, in any case, is a joiner. -/
theorem joinerOf_of_find? {fields : Fields} {path text : String} {allowed : List Connective}
    {c : Connective} (htext : Fields.get? fields "logicalOp" = some (.text text))
    (hfind : (allowed.find? fun c => c.word == text.toLower) = some c) :
    joinerOf fields path allowed = .ok c := by
  have hword : (Value.text text).asText = text := rfl
  unfold joinerOf
  rw [htext]
  dsimp only [Option.getD_some]
  rw [hword, hfind]

/-- A text that is the word of no allowed connective is refused as a joiner. -/
theorem joinerOf_of_not_find? {fields : Fields} {path text : String} {allowed : List Connective}
    (htext : Fields.get? fields "logicalOp" = some (.text text))
    (hfind : (allowed.find? fun c => c.word == text.toLower) = none) :
    joinerOf fields path allowed =
      .error (.shape (.badConnective (.text text) allowed) (.text s!"{path}.logicalOp")) := by
  have hword : (Value.text text).asText = text := rfl
  unfold joinerOf
  rw [htext]
  dsimp only [Option.getD_some]
  rw [hword, hfind]

/-- The joiner of a leaf is no negation. -/
theorem ne_not_of_joinerOf {fields : Fields} {path : String} {c : Connective}
    (h : joinerOf fields path leafJoiners = .ok c) : c ≠ .not := by
  rcases mem_of_joinerOf h with hmem | rfl
  · rintro rfl
    exact absurd hmem (by decide)
  · decide

/-! ## Criteria -/

/-- A key has the operator that it spells. -/
theorem Operator.ofKey_eq_ok_iff {key : String} {place : Value} {op : Operator} :
    Operator.ofKey key place = .ok op ↔ Operator.ofSpelling? key = some op := by
  rw [Operator.ofKey]
  cases Operator.ofSpelling? key <;> simp

/-- A key that spells no operator is refused. -/
theorem Operator.ofKey_of_not_spelling {key : String} (h : Operator.ofSpelling? key = none)
    (place : Value) : Operator.ofKey key place =
      .error (.unknownOperator (.text key) Operator.vocabulary place) := by
  rw [Operator.ofKey, h]

/-- Criteria are read one after the other: what is no criterion is skipped, and a criterion has to
spell an operator that was not seen before, is allowed and takes the value. -/
theorem criteriaAfter_cons_eq_ok_iff {w : Option Whitelist} {name path key : String}
    {seen : List (Operator × String)} {value : Value} {rest : Fields} {criteria : Criteria} :
    criteriaAfter w name path seen ((key, value) :: rest) = .ok criteria ↔
      (FilterKey.isCriterion key = false ∧ criteriaAfter w name path seen rest = .ok criteria) ∨
      (FilterKey.isCriterion key = true ∧ ∃ op shaped later, Operator.ofSpelling? key = some op ∧
        seen.lookup op = none ∧ Whitelist.checkOption w name op.name = .ok () ∧
        shapeValue op value = .ok shaped ∧
        criteriaAfter w name path ((op, key) :: seen) rest = .ok later ∧
        criteria = (op, shaped) :: later) := by
  rw [criteriaAfter]
  cases hkey : FilterKey.isCriterion key with
  | false => simp
  | true =>
      simp only [if_true, Bool.true_eq_false, false_and, false_or, true_and]
      rw [bind_eq_ok_iff]
      constructor
      · rintro ⟨op, hop, h⟩
        have hop := Operator.ofKey_eq_ok_iff.mp hop
        cases hseen : seen.lookup op with
        | some first =>
            rw [hseen] at h
            exact absurd h (by simp)
        | none =>
            rw [hseen] at h
            obtain ⟨⟨⟩, hcheck, h⟩ := bind_eq_ok_iff.mp h
            obtain ⟨shaped, hshaped, h⟩ := bind_eq_ok_iff.mp h
            obtain ⟨later, hlater, h⟩ := bind_eq_ok_iff.mp h
            exact ⟨op, shaped, later, hop, hseen, hcheck, hshaped, hlater, (Except.ok.inj h).symm⟩
      · rintro ⟨op, shaped, later, hop, hseen, hcheck, hshaped, hlater, rfl⟩
        refine ⟨op, Operator.ofKey_eq_ok_iff.mpr hop, ?_⟩
        rw [hseen]
        dsimp only
        rw [hcheck, ok_bind, hshaped, ok_bind, hlater, ok_bind]
        rfl

/-- An operator map has to have a criterion. -/
theorem criteriaOf_eq_ok_iff {w : Option Whitelist} {name path : String} {fields : Fields}
    {criteria : Criteria} :
    criteriaOf w name path fields = .ok criteria ↔
      criteriaAfter w name path [] fields = .ok criteria ∧ criteria ≠ [] := by
  rw [criteriaOf, bind_eq_ok_iff]
  constructor
  · rintro ⟨found, hfound, h⟩
    by_cases hempty : found.isEmpty = true
    · rw [if_pos hempty] at h
      exact absurd h (by simp)
    · rw [if_neg hempty] at h
      obtain rfl : found = criteria := Except.ok.inj h
      exact ⟨hfound, fun hnil => hempty (List.isEmpty_iff.mpr hnil)⟩
  · rintro ⟨hfound, hne⟩
    refine ⟨criteria, hfound, ?_⟩
    rw [if_neg (fun hempty => hne (List.isEmpty_iff.mp hempty))]
    rfl

/-! ## Leaves -/

/-- A leaf needs criteria and a joiner. -/
theorem leafOf_eq_ok_iff {w : Option Whitelist} {name path : String} {fields : Fields} {n : Node} :
    leafOf w name path fields = .ok n ↔
      ∃ criteria joiner, criteriaAfter w name path [] fields = .ok criteria ∧ criteria ≠ [] ∧
        joinerOf fields path leafJoiners = .ok joiner ∧
        n = .leaf name criteria joiner (Tag.ofFields fields).id (Tag.ofFields fields).label := by
  simp only [leafOf, bind_eq_ok_iff, criteriaOf_eq_ok_iff, pure_eq_ok, Except.ok.injEq]
  constructor
  · rintro ⟨criteria, ⟨hcriteria, hne⟩, joiner, hjoiner, rfl⟩
    exact ⟨criteria, joiner, hcriteria, hne, hjoiner, rfl⟩
  · rintro ⟨criteria, joiner, hcriteria, hne, hjoiner, rfl⟩
    exact ⟨criteria, ⟨hcriteria, hne⟩, joiner, hjoiner, rfl⟩

/-- A filter on one attribute needs a name that is a text and not empty. -/
theorem attributeLeaf_eq_ok_iff {w : Option Whitelist} {path : String} {fields : Fields} {n : Node} :
    attributeLeaf w path fields = .ok n ↔
      ∃ name, ((Fields.get? fields FilterKey.name).getD .null).text? = some name ∧ name ≠ "" ∧
        leafOf w name path fields = .ok n := by
  rw [attributeLeaf]
  cases htext : ((Fields.get? fields FilterKey.name).getD .null).text? with
  | none => simp
  | some name =>
      by_cases hname : name = ""
      · simp [hname]
      · simp [hname]

/-! ## Maps of attributes -/

/-- The entries of a map of attributes that hold operator maps. -/
def mapEntries (fields : Fields) : Fields :=
  fields.filter fun field => !FilterKey.isMapMetadata field.1 field.2

/-- The operator map of an entry. -/
def operatorMap (value : Value) : Fields :=
  value.record?.getD []

/-- The leaves of a map of attributes are built entry by entry. -/
theorem mapLeaves_eq_mapM (w : Option Whitelist) (path : String) (fields : Fields) :
    mapLeaves w path fields =
      (mapEntries fields).mapM fun entry =>
        leafOf w entry.1 s!"{path}.{entry.1}" (operatorMap entry.2) := by
  induction fields with
  | nil => rfl
  | cons field rest ih =>
      obtain ⟨key, value⟩ := field
      rw [mapLeaves, ih]
      cases hmeta : FilterKey.isMapMetadata key value with
      | true => simp [mapEntries, hmeta]
      | false =>
          simp only [mapEntries, List.filter_cons, hmeta, Bool.not_false, if_true, List.mapM_cons]
          rfl

/-- A map of attributes needs a joiner and a leaf for every entry. -/
theorem mapGroup_eq_ok_iff {w : Option Whitelist} {path : String} {fields : Fields} {g : Group} :
    mapGroup w path fields = .ok g ↔
      ∃ branch leaves, joinerOf fields path Connective.all = .ok branch ∧
        mapLeaves w path fields = .ok leaves ∧
        g = Group.ofBranch branch leaves (Tag.ofMap fields) := by
  simp only [mapGroup, bind_eq_ok_iff, pure_eq_ok, Except.ok.injEq]
  constructor
  · rintro ⟨branch, hbranch, leaves, hleaves, rfl⟩
    exact ⟨branch, leaves, hbranch, hleaves, rfl⟩
  · rintro ⟨branch, leaves, hbranch, hleaves, rfl⟩
    exact ⟨branch, hbranch, leaves, hleaves, rfl⟩

/-- A group with one branch has its members there and nowhere else. -/
theorem branch_ofBranch (branch other : Connective) (members : List Node) (tag : Tag) :
    (Group.ofBranch branch members tag).branch other = if other = branch then members else [] := by
  cases branch <;> cases other <;> rfl

/-- A group without members in the other branches has one branch. -/
theorem ofBranch_branch {g : Group} {branch : Connective}
    (h : ∀ other, other ≠ branch → g.branch other = []) :
    Group.ofBranch branch (g.branch branch) ⟨g.id, g.label⟩ = g := by
  obtain ⟨ands, ors, nots, id, label⟩ := g
  cases branch with
  | and =>
      obtain rfl : ors = [] := h .or (by decide)
      obtain rfl : nots = [] := h .not (by decide)
      rfl
  | or =>
      obtain rfl : ands = [] := h .and (by decide)
      obtain rfl : nots = [] := h .not (by decide)
      rfl
  | not =>
      obtain rfl : ands = [] := h .and (by decide)
      obtain rfl : ors = [] := h .or (by decide)
      rfl

/-! ## Trees -/

section

variable {w : Option Whitelist} {path : String} {fields : Fields}

/-- What is neither a record nor a ready filter is refused. -/
theorem buildAt_of_not_record {v : Value} (hrecord : v.record? = none) (hnode : ∀ n, v ≠ .node n) :
    buildAt w path v = .error (shapeFault path v) := by
  cases v with
  | node n => exact absurd rfl (hnode n)
  | record => exact absurd hrecord (by simp [Value.record?])
  | null | bool | int | float | text | list | tuple | moment | connective | deferred => rfl

theorem buildAt_of_isAttributeFilter (h : (Value.record fields).isAttributeFilter = true) :
    buildAt w path (.record fields) = attributeLeaf w path fields := by
  rw [buildAt, if_pos h]

theorem buildAt_of_isGroupFilter (h : (Value.record fields).isGroupFilter = true) :
    buildAt w path (.record fields) = do
      let ands ← buildBranch w path .and fields
      let ors ← buildBranch w path .or fields
      let nots ← buildBranch w path .not fields
      return .group ands ors nots (Tag.ofFields fields).id (Tag.ofFields fields).label := by
  have hattribute : ¬(Value.record fields).isAttributeFilter = true := fun hattribute =>
    Value.not_isGroupFilter_of_isAttributeFilter hattribute h
  rw [buildAt, if_neg hattribute, if_pos h]

/-- A group needs its three branches. -/
theorem buildAt_eq_ok_iff_of_isGroupFilter (h : (Value.record fields).isGroupFilter = true)
    {n : Node} :
    buildAt w path (.record fields) = .ok n ↔
      ∃ g : Group, (∀ branch, buildBranch w path branch fields = .ok (g.branch branch)) ∧
        g.id = (Tag.ofFields fields).id ∧ g.label = (Tag.ofFields fields).label ∧ n = g.toNode := by
  rw [buildAt_of_isGroupFilter h]
  simp only [bind_eq_ok_iff, pure_eq_ok, Except.ok.injEq]
  constructor
  · rintro ⟨ands, hands, ors, hors, nots, hnots, rfl⟩
    refine ⟨⟨ands, ors, nots, _, _⟩, fun branch => ?_, rfl, rfl, rfl⟩
    cases branch with
    | and => exact hands
    | or => exact hors
    | not => exact hnots
  · rintro ⟨g, hbranch, hid, hlabel, rfl⟩
    exact ⟨g.ands, hbranch .and, g.ors, hbranch .or, g.nots, hbranch .not,
      by rw [← hid, ← hlabel]; rfl⟩

theorem buildAt_of_isEntityFilter (h : (Value.record fields).isEntityFilter = true) :
    buildAt w path (.record fields) = (mapGroup w path fields).map Group.toNode := by
  have hattribute : ¬(Value.record fields).isAttributeFilter = true := fun hattribute =>
    Value.not_isEntityFilter_of_isAttributeFilter hattribute h
  have hgroup : ¬(Value.record fields).isGroupFilter = true := fun hgroup =>
    Value.not_isEntityFilter_of_isGroupFilter hgroup h
  rw [buildAt, if_neg hattribute, if_neg hgroup, if_pos h]

theorem buildAt_of_no_shape (hattribute : ¬(Value.record fields).isAttributeFilter = true)
    (hgroup : ¬(Value.record fields).isGroupFilter = true)
    (hmap : ¬(Value.record fields).isEntityFilter = true) :
    buildAt w path (.record fields) = .error (shapeFault path (.record fields)) := by
  rw [buildAt, if_neg hattribute, if_neg hgroup, if_neg hmap]

/-- A record with a field for the name of an attribute is built as a filter on that attribute. -/
theorem attributeLeaf_of_buildAt (hname : Fields.has fields FilterKey.name = true) {n : Node}
    (h : buildAt w path (.record fields) = .ok n) :
    (Value.record fields).isAttributeFilter = true ∧ attributeLeaf w path fields = .ok n := by
  by_cases hattribute : (Value.record fields).isAttributeFilter = true
  · rw [buildAt_of_isAttributeFilter hattribute] at h
    exact ⟨hattribute, h⟩
  · have hmap : ¬(Value.record fields).isEntityFilter = true := by
      simp [Value.isEntityFilter, hname]
    rw [buildAt_of_no_shape hattribute (Value.not_isGroupFilter_of_has hname) hmap] at h
    exact absurd h (by simp)

/-- The members of a branch are built one by one, each at a place of its own. -/
theorem forall₂_of_buildMembers {index : Nat} {items : List Value} {ns : List Node}
    (h : buildMembers w path index items = .ok ns) :
    List.Forall₂ (fun item n => ∃ place, buildAt w place item = .ok n) items ns := by
  induction items generalizing index ns with
  | nil =>
      obtain rfl : [] = ns := Except.ok.inj h
      exact .nil
  | cons item rest ih =>
      rw [buildMembers] at h
      obtain ⟨n, hn, h⟩ := bind_eq_ok_iff.mp h
      obtain ⟨later, hlater, h⟩ := bind_eq_ok_iff.mp h
      obtain rfl := Except.ok.inj h
      exact .cons ⟨_, hn⟩ (ih hlater)

/-- A branch that is built is a list, and its members are. -/
theorem forall₂_of_buildBranch {branch : Connective} {ns : List Node}
    (h : buildBranch w path branch fields = .ok ns) :
    ∃ items, branchItems? fields branch = some items ∧
      List.Forall₂ (fun item n => ∃ place, buildAt w place item = .ok n) items ns := by
  rw [buildBranch_eq] at h
  cases hitems : branchItems? fields branch with
  | none =>
      rw [hitems] at h
      exact absurd h (by simp)
  | some items =>
      rw [hitems] at h
      exact ⟨items, rfl, forall₂_of_buildMembers h⟩

end

/-- What holds of the leaves for filters on one attribute and of the groups for maps of attributes,
and of groups of whose members it holds, holds of every filter that is built from data without ready
filters. -/
theorem builtInduction {w : Option Whitelist} {P : Value → Node → Prop}
    (leaf : ∀ fields path n, attributeLeaf w path fields = .ok n →
      (Value.record fields).isAttributeFilter = true → P (.record fields) n)
    (group : ∀ fields (g : Group), (Value.record fields).isGroupFilter = true →
      (∀ branch, ∃ items, branchItems? fields branch = some items ∧
        List.Forall₂ P items (g.branch branch)) → P (.record fields) g.toNode)
    (map : ∀ fields path g, mapGroup w path fields = .ok g →
      (Value.record fields).isEntityFilter = true → P (.record fields) g.toNode)
    {v : Value} (hfree : v.isNodeFree = true) {path : String} {n : Node}
    (h : buildAt w path v = .ok n) : P v n := by
  induction v using Value.memberInduction generalizing path n with
  | other v hrecord =>
      rw [buildAt_of_not_record hrecord (Value.ne_node_of_isNodeFree hfree)] at h
      exact absurd h (by simp)
  | record fields ih =>
      rcases Value.shape_cases fields with hattribute | hgroup | hmap | ⟨hattribute, hgroup, hmap⟩
      · rw [buildAt_of_isAttributeFilter hattribute] at h
        exact leaf fields path n h hattribute
      · obtain ⟨g, hbranch, -, -, rfl⟩ := (buildAt_eq_ok_iff_of_isGroupFilter hgroup).mp h
        refine group fields g hgroup fun branch => ?_
        obtain ⟨items, hitems, hmembers⟩ := forall₂_of_buildBranch (hbranch branch)
        refine ⟨items, hitems, ?_⟩
        refine ((List.forall₂_and_left _ _).mpr ⟨fun item hitem => hitem, hmembers⟩).imp ?_
        rintro item n ⟨hitem, place, hbuild⟩
        exact ih branch items hitems item hitem
          (Value.everywhere_of_branchItems? hfree hitems item hitem) hbuild
      · rw [buildAt_of_isEntityFilter hmap] at h
        obtain ⟨g, hg, rfl⟩ := map_eq_ok_iff.mp h
        exact map fields path g hg hmap
      · rw [buildAt_of_no_shape hattribute hgroup hmap] at h
        exact absurd h (by simp)

end RecordQuery
