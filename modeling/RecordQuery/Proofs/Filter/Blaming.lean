import RecordQuery.Proofs.Filter.Building
import RecordQuery.Proofs.Filter.Shaping
/-!
# Blaming unknown operators

An error about an operator names a key. The key stands in some record of the raw filter, the place of
the error ends with it, and building only blames keys that spell no operator
(`unknown_operators_blamed`). The error for a value without a shape is chosen afterwards, from the
first key that could be an operator; a map of attributes is built through the same choice also from a
filter on one attribute, which has a shape, and then a key that spells an operator may be blamed.
-/

namespace RecordQuery

/-! ## Blame -/

/-- The key is that of a field in a record, anywhere inside the value. -/
inductive Value.HasKey (key : String) : Value → Prop
  | here {fields : Fields} : key ∈ Fields.keys fields → HasKey key (.record fields)
  | field {fields : Fields} {name : String} {v : Value} : (name, v) ∈ fields → HasKey key v →
      HasKey key (.record fields)
  | item {items : List Value} {v : Value} : v ∈ items → HasKey key v → HasKey key (.list items)
  | part {items : List Value} {v : Value} : v ∈ items → HasKey key v → HasKey key (.tuple items)

/-- The first key that is neither metadata nor the attribute name spells an operator, in a record on
one attribute. -/
def Value.opensWithOperator : Value → Bool
  | record fields =>
    Fields.has fields FilterKey.name &&
      ((Fields.keys fields).find? FilterKey.isCriterion).any Operator.isSpelling
  | _ => false

namespace FilterError

/-- The error is about an operator, in general or in a special case. -/
def isAboutOperator (e : FilterError) : Bool :=
  (e.kind :: e.kind.ancestors).contains .operator

/-- The error blames a key for being no operator, at a place that ends with the key. -/
def Blames (e : FilterError) (key : String) : Prop :=
  ∃ known front, e = .unknownOperator (.text key) known (.text (front ++ "." ++ key))

/-- If the error is about an operator, it blames a key with a property. -/
def BlamesOnly (Q : String → Prop) (e : FilterError) : Prop :=
  e.isAboutOperator = true → ∃ key, Q key ∧ e.Blames key

theorem blamesOnly_of_not_isAboutOperator {Q : String → Prop} {e : FilterError}
    (h : e.isAboutOperator = false) : e.BlamesOnly Q :=
  fun hoperator => absurd (h.symm.trans hoperator) Bool.false_ne_true

theorem blamesOnly_unknownOperator {Q : String → Prop} {key : String} (h : Q key)
    (known : List String) (front : String) :
    (unknownOperator (.text key) known (.text s!"{front}.{key}")).BlamesOnly Q :=
  fun _ => ⟨key, h, known, front, rfl⟩

theorem BlamesOnly.imp {Q R : String → Prop} {e : FilterError} (h : e.BlamesOnly Q)
    (hQR : ∀ key, Q key → R key) : e.BlamesOnly R := by
  intro hoperator
  obtain ⟨key, hkey, hblames⟩ := h hoperator
  exact ⟨key, hQR key hkey, hblames⟩

end FilterError

open FilterError

/-! ## Errors that are not about operators -/

section

variable {Q : String → Prop}

/-- What is no range is named. -/
theorem toRange_errs (v : Value) : Errs (fun e => e = .badRange v) v.toRange := by
  unfold Value.toRange
  split
  · exact .ok _
  · exact .ok _
  · split
    · exact .ok _
    · exact .error rfl
  · exact .error rfl

/-- Shaping a value says nothing about operators. -/
theorem shapeBare_blames (op : Operator) (v : Value) : Errs (BlamesOnly Q) (shapeBare op v) := by
  rcases op.form_cases with hlisted | rfl | ⟨hlisted, hbetween⟩
  · rw [shapeBare_of_isListed hlisted]
    exact .ok _
  · rw [shapeBare_between]
    refine .map ((toRange_errs v).imp ?_) _
    rintro e rfl
    exact blamesOnly_of_not_isAboutOperator rfl
  · rw [shapeBare_of_single hlisted hbetween]
    exact .ok _

theorem shapeValue_blames (op : Operator) (v : Value) : Errs (BlamesOnly Q) (shapeValue op v) := by
  induction v using Value.contentInduction with
  | bare v henvelope =>
      rw [shapeValue_of_not_envelope henvelope]
      exact shapeBare_blames op v
  | envelope fields content hcontent ih =>
      by_cases hkind : (Value.record fields).kind = .literal
      · rw [shapeValue_literal hcontent hkind]
        exact ih.map _
      · rw [shapeValue_of_kind_ne hcontent hkind]
        exact .ok _

/-- Nor does the check of a whitelist, which is about permission. -/
theorem checkOption_blames (w : Option Whitelist) (name spelling : String) :
    Errs (BlamesOnly Q) (Whitelist.checkOption w name spelling) := by
  cases w with
  | none => exact .ok _
  | some w =>
      rw [Whitelist.checkOption, Whitelist.check]
      split
      · exact .error (blamesOnly_of_not_isAboutOperator rfl)
      · split
        · exact .ok _
        · exact .error (blamesOnly_of_not_isAboutOperator rfl)

/-- Nor does the joiner of a record. -/
theorem joinerOf_blames (fields : Fields) (path : String) (allowed : List Connective) :
    Errs (BlamesOnly Q) (joinerOf fields path allowed) := by
  unfold joinerOf
  dsimp only
  split
  · exact .ok _
  · split
    · exact .ok _
    · exact .error (blamesOnly_of_not_isAboutOperator rfl)
  · split
    · exact .ok _
    · exact .error (blamesOnly_of_not_isAboutOperator rfl)

end

/-! ## Keys of operator maps -/

/-- A key that spells no operator is blamed itself. -/
theorem ofKey_blames (key path : String) :
    Errs (BlamesOnly fun other => other = key ∧ Operator.isSpelling other = false)
      (Operator.ofKey key (.text s!"{path}.{key}")) := by
  cases hop : Operator.ofSpelling? key with
  | none =>
      have hkey : Operator.isSpelling key = false := by rw [Operator.isSpelling, hop]; rfl
      rw [Operator.ofKey_of_not_spelling hop]
      exact .error (blamesOnly_unknownOperator ⟨rfl, hkey⟩ _ _)
  | some op =>
      rw [Operator.ofKey_eq_ok_iff.mpr hop]
      exact .ok op

/-- Of the keys of an operator map one is blamed that spells no operator. -/
theorem criteriaAfter_blames (w : Option Whitelist) (name path : String) (fields : Fields) :
    ∀ seen, Errs (BlamesOnly fun key => key ∈ Fields.keys fields ∧ Operator.isSpelling key = false)
      (criteriaAfter w name path seen fields) := by
  induction fields with
  | nil => exact fun _ => .ok _
  | cons field rest ih =>
      obtain ⟨key, value⟩ := field
      intro seen
      have hrest : ∀ seen, Errs (BlamesOnly fun other =>
          other ∈ Fields.keys ((key, value) :: rest) ∧ Operator.isSpelling other = false)
          (criteriaAfter w name path seen rest) := fun seen =>
        (ih seen).imp fun _ he => he.imp fun _ hother => ⟨List.mem_cons_of_mem _ hother.1, hother.2⟩
      rw [criteriaAfter]
      split
      · refine Errs.bind ((ofKey_blames key path).imp fun _ he => he.imp fun other hother => ?_)
          fun op => ?_
        · exact ⟨hother.1 ▸ List.mem_cons_self, hother.2⟩
        cases hseen : seen.lookup op with
        | some first => exact .error (blamesOnly_of_not_isAboutOperator rfl)
        | none =>
            refine (checkOption_blames w name op.name).bind fun _ => ?_
            refine (shapeValue_blames op value).bind fun _ => ?_
            exact (hrest _).bind fun _ => .ok _
      · exact hrest seen

/-- The same holds of a leaf. -/
theorem leafOf_blames (w : Option Whitelist) (name path : String) (fields : Fields) :
    Errs (BlamesOnly fun key => key ∈ Fields.keys fields ∧ Operator.isSpelling key = false)
      (leafOf w name path fields) := by
  have hcriteria : Errs (BlamesOnly fun key =>
      key ∈ Fields.keys fields ∧ Operator.isSpelling key = false) (criteriaOf w name path fields) := by
    refine (criteriaAfter_blames w name path fields []).bind fun criteria => ?_
    split
    · exact .error (blamesOnly_of_not_isAboutOperator rfl)
    · exact .ok _
  exact hcriteria.bind fun _ => (joinerOf_blames fields path leafJoiners).bind fun _ => .ok _

theorem attributeLeaf_blames (w : Option Whitelist) (path : String) (fields : Fields) :
    Errs (BlamesOnly fun key => key ∈ Fields.keys fields ∧ Operator.isSpelling key = false)
      (attributeLeaf w path fields) := by
  unfold attributeLeaf
  dsimp only
  split
  · split
    · exact .error (blamesOnly_of_not_isAboutOperator rfl)
    · exact leafOf_blames w _ path fields
  · exact .error (blamesOnly_of_not_isAboutOperator rfl)

/-- In a map of attributes the key stands in the operator map of an entry. -/
theorem mapGroup_blames (w : Option Whitelist) (path : String) (fields : Fields) :
    Errs (BlamesOnly fun key =>
        (Value.record fields).HasKey key ∧ Operator.isSpelling key = false)
      (mapGroup w path fields) := by
  refine (joinerOf_blames fields path Connective.all).bind fun _ => ?_
  refine .bind ?_ fun _ => .ok _
  rw [mapLeaves_eq_mapM]
  refine .mapM fun entry hentry => (leafOf_blames w _ _ _).imp fun _ he => he.imp ?_
  rintro key ⟨hkey, hunknown⟩
  refine ⟨.field (List.mem_of_mem_filter hentry) ?_, hunknown⟩
  obtain ⟨name, value⟩ := entry
  cases value with
  | record inner => exact .here hkey
  | null | bool | int | float | text | list | tuple | moment | connective | node | deferred =>
      exact absurd hkey List.not_mem_nil

/-! ## Values without a shape -/

/-- A record without an operator among its keys has no spelling among them. -/
theorem isSpelling_of_not_isCriteria {fields : Fields}
    (h : ¬(Value.record fields).isCriteria = true) {key : String} (hkey : key ∈ Fields.keys fields) :
    Operator.isSpelling key = false := by
  obtain ⟨field, hfield, rfl⟩ := List.mem_map.mp hkey
  rw [Value.isCriteria, List.any_eq_true] at h
  exact Bool.eq_false_iff.mpr fun hspelling => h ⟨field, hfield, hspelling⟩

/-- What is no filter on one attribute does not open with an operator. -/
theorem opensWithOperator_of_not_isAttributeFilter {v : Value} (h : ¬v.isAttributeFilter = true) :
    v.opensWithOperator = false := by
  cases v with
  | record fields =>
      refine Bool.eq_false_iff.mpr fun hopens => h ?_
      rw [Value.opensWithOperator, Bool.and_eq_true, Option.any_eq_true] at hopens
      obtain ⟨hname, key, hfind, hspelling⟩ := hopens
      obtain ⟨field, hfield, rfl⟩ := List.mem_map.mp (List.mem_of_find?_eq_some hfind)
      rw [Value.isAttributeFilter, Bool.and_eq_true, Value.isCriteria, List.any_eq_true]
      exact ⟨⟨field, hfield, hspelling⟩, hname⟩
  | null | bool | int | float | text | list | tuple | moment | connective | node | deferred => rfl

/-- A record has the keys of its later fields. -/
theorem Value.HasKey.cons {key : String} {fields : Fields} (h : (record fields).HasKey key)
    (field : String × Value) : (record (field :: fields)).HasKey key := by
  cases h with
  | here hkey => exact .here (List.mem_cons_of_mem _ hkey)
  | field hmem hkey => exact .field (List.mem_cons_of_mem _ hmem) hkey

/-- In what could have been a map of attributes, the key stands in an entry without operators. -/
theorem mapFault_blames (path : String) (fields : Fields) :
    (mapFault path fields).BlamesOnly fun key =>
      (Value.record fields).HasKey key ∧ Operator.isSpelling key = false := by
  induction fields with
  | nil => exact blamesOnly_of_not_isAboutOperator rfl
  | cons field rest ih =>
      obtain ⟨name, value⟩ := field
      have hrest : (mapFault path rest).BlamesOnly fun key =>
          (Value.record ((name, value) :: rest)).HasKey key ∧ Operator.isSpelling key = false :=
        ih.imp fun _ hkey => ⟨hkey.1.cons _, hkey.2⟩
      rw [mapFault.eq_def]
      dsimp only
      split
      · exact hrest
      · rename_i hentry
        have hcriteria : ¬value.isCriteria = true := fun hcriteria => hentry (by simp [hcriteria])
        split
        · rename_i inner
          split
          · rename_i key hfind
            have hkey : key ∈ Fields.keys inner := List.mem_of_find?_eq_some hfind
            refine blamesOnly_unknownOperator ?_ _ s!"{path}.{name}"
            exact ⟨.field List.mem_cons_self (.here hkey), isSpelling_of_not_isCriteria hcriteria hkey⟩
          · exact hrest
        · exact blamesOnly_of_not_isAboutOperator rfl

/-- The key blamed for a value is that of the value itself if it has an attribute name, and then it is
the first key that could be an operator, whether it is one or not. -/
theorem shapeFault_blames (path : String) (v : Value) :
    (shapeFault path v).BlamesOnly fun key =>
      v.HasKey key ∧ Operator.isSpelling key = v.opensWithOperator := by
  cases v with
  | record fields =>
      rw [shapeFault]
      cases hname : Fields.get? fields FilterKey.name with
      | none =>
          have hopens : (Value.record fields).opensWithOperator = false := by
            rw [Value.opensWithOperator, Fields.has, hname]
            rfl
          rw [hopens]
          exact mapFault_blames path fields
      | some name =>
          cases hfind : (Fields.keys fields).find? FilterKey.isCriterion with
          | none => exact blamesOnly_of_not_isAboutOperator rfl
          | some key =>
              refine blamesOnly_unknownOperator ⟨.here (List.mem_of_find?_eq_some hfind), ?_⟩ _ path
              rw [Value.opensWithOperator, Fields.has, hname, hfind]
              rfl
  | null | bool | int | float | text | list | tuple | moment | connective | node | deferred =>
      exact blamesOnly_of_not_isAboutOperator rfl

/-! ## Trees -/

/-- Members blame keys of members, wherever they stand. -/
theorem buildMembers_blames {w : Option Whitelist} {Q : String → Prop} {items : List Value}
    (h : ∀ item ∈ items, ∀ place, Errs (BlamesOnly Q) (buildAt w place item)) (path : String) :
    ∀ index, Errs (BlamesOnly Q) (buildMembers w path index items) := by
  induction items with
  | nil => exact fun _ => .ok _
  | cons item rest ih =>
      intro index
      obtain ⟨hitem, hrest⟩ := List.forall_mem_cons.mp h
      exact (hitem _).bind fun _ => (ih hrest _).bind fun _ => .ok _

/-- Building blames keys that spell no operator. -/
theorem buildAt_blames (w : Option Whitelist) (v : Value) :
    ∀ path, Errs (BlamesOnly fun key => v.HasKey key ∧ Operator.isSpelling key = false)
      (buildAt w path v) := by
  have hrefused : ∀ {v : Value}, ¬v.isAttributeFilter = true → ∀ path, (shapeFault path v).BlamesOnly
      fun key => v.HasKey key ∧ Operator.isSpelling key = false := by
    intro v hattribute path
    rw [← opensWithOperator_of_not_isAttributeFilter hattribute]
    exact shapeFault_blames path v
  induction v using Value.memberInduction with
  | other v hrecord =>
      intro path
      by_cases hnode : ∃ n, v = .node n
      · obtain ⟨n, rfl⟩ := hnode
        exact .ok n
      · rw [buildAt_of_not_record hrecord fun n hn => hnode ⟨n, hn⟩]
        exact .error (hrefused (Value.no_shape_of_not_record hrecord).1 path)
  | record fields ih =>
      intro path
      rcases Value.shape_cases fields with hattribute | hgroup | hmap | ⟨hattribute, hgroup, hmap⟩
      · rw [buildAt_of_isAttributeFilter hattribute]
        exact (attributeLeaf_blames w path fields).imp fun _ he => he.imp fun _ hkey =>
          ⟨.here hkey.1, hkey.2⟩
      · have hbranch : ∀ branch, Errs (BlamesOnly fun key =>
            (Value.record fields).HasKey key ∧ Operator.isSpelling key = false)
            (buildBranch w path branch fields) := by
          intro branch
          rw [buildBranch_eq]
          cases hitems : branchItems? fields branch with
          | none => exact .error (blamesOnly_of_not_isAboutOperator rfl)
          | some items =>
              refine buildMembers_blames (fun item hitem place => ?_) _ 0
              refine (ih branch items hitems item hitem place).imp fun _ he => he.imp ?_
              rintro key ⟨hkey, hunknown⟩
              exact ⟨.field (mem_of_branchItems? hitems hitem) (.item hitem hkey), hunknown⟩
        rw [buildAt_of_isGroupFilter hgroup]
        exact (hbranch .and).bind fun _ => (hbranch .or).bind fun _ => (hbranch .not).bind fun _ =>
          .ok _
      · rw [buildAt_of_isEntityFilter hmap]
        exact (mapGroup_blames w path fields).map _
      · rw [buildAt_of_no_shape hattribute hgroup hmap]
        exact .error (hrefused hattribute path)

/-- A map of attributes is built with the same blame, except for a record on one attribute: its first
key that could be an operator is blamed. -/
theorem buildMap_blames (v : Value) :
    Errs (BlamesOnly fun key => v.HasKey key ∧ Operator.isSpelling key = v.opensWithOperator)
      (buildMap v) := by
  rw [buildMap]
  split
  · rename_i hmap
    cases v with
    | record fields =>
        have hattribute : ¬(Value.record fields).isAttributeFilter = true := fun hattribute =>
          Value.not_isEntityFilter_of_isAttributeFilter hattribute hmap
        rw [opensWithOperator_of_not_isAttributeFilter hattribute]
        exact mapGroup_blames none rootPath fields
    | null | bool | int | float | text | list | tuple | moment | connective | node | deferred =>
        exact absurd hmap Bool.false_ne_true
  · exact .error (shapeFault_blames rootPath v)

/-- A record that opens with an operator is refused as a map of attributes, for an operator. -/
theorem buildMap_of_opensWithOperator {v : Value} (h : v.opensWithOperator = true) :
    ∃ e, buildMap v = .error e ∧ e.isAboutOperator = true := by
  cases v with
  | record fields =>
      rw [Value.opensWithOperator, Bool.and_eq_true, Option.any_eq_true] at h
      obtain ⟨hname, key, hfind, -⟩ := h
      have hmap : ¬(Value.record fields).isEntityFilter = true := by
        simp [Value.isEntityFilter, hname]
      obtain ⟨name, hget⟩ := Fields.has_iff.mp hname
      refine ⟨_, by rw [buildMap, if_neg hmap], ?_⟩
      rw [shapeFault, hget]
      simp only [hfind]
      rfl
  | null | bool | int | float | text | list | tuple | moment | connective | node | deferred =>
      exact absurd h Bool.false_ne_true

/-- **Unknown operators are blamed truthfully.** When building a filter at any place, or its group,
fails for an operator, the error names a key of some record inside the raw filter that spells no
operator, at a place that ends with the key. When building a map of attributes does, the same is true
up to this: the key spells an operator exactly if the raw filter is a record on one attribute that
opens with an operator; and such a record is always refused in this way. -/
theorem unknown_operators_blamed (raw : Value) :
    (∀ w path e, buildAt w path raw = .error e → e.isAboutOperator = true →
      ∃ key, (raw.HasKey key ∧ Operator.isSpelling key = false) ∧ e.Blames key) ∧
    (∀ w e, buildFilter w raw = .error e → e.isAboutOperator = true →
      ∃ key, (raw.HasKey key ∧ Operator.isSpelling key = false) ∧ e.Blames key) ∧
    (∀ e, buildMap raw = .error e → e.isAboutOperator = true →
      ∃ key, (raw.HasKey key ∧ Operator.isSpelling key = raw.opensWithOperator) ∧ e.Blames key) ∧
    (raw.opensWithOperator = true → ∃ e, buildMap raw = .error e ∧ e.isAboutOperator = true) :=
  ⟨fun w path => buildAt_blames w raw path, fun w => (buildAt_blames w raw rootPath).map _,
    buildMap_blames raw, buildMap_of_opensWithOperator⟩

/-- A condition on an age with a second operator that is misspelled, in a group. -/
def misspelledFilter : Value :=
  .record [("and", .list [.record [("attribute", .text "age"), ("gte", .int 1), ("eqq", .int 2)]])]

/-- A condition on an age. -/
def plainCondition : Value :=
  .record [("attribute", .text "age"), ("eq", .int 1)]

/-- The misspelled operator is blamed in the group. -/
theorem misspelledFilter_blamed :
    buildFilter none misspelledFilter = .error (.unknownOperator (.text "eqq") Operator.vocabulary
        (.text "<root>.and[0].eqq")) ∧
      misspelledFilter.HasKey "eqq" ∧ Operator.isSpelling "eqq" = false := by
  have hbuild : buildFilter none misspelledFilter = .error (.unknownOperator (.text "eqq")
      Operator.vocabulary (.text "<root>.and[0].eqq")) := rfl
  obtain ⟨key, ⟨hkey, hunknown⟩, known, front, heq⟩ :=
    (unknown_operators_blamed misspelledFilter).2.1 none _ hbuild rfl
  obtain rfl : "eqq" = key := Value.text.inj (FilterError.unknownOperator.inj heq).1
  exact ⟨hbuild, hkey, hunknown⟩

/-- The operator of a plain condition is blamed where a map of attributes is wanted, and it is one. -/
theorem plainCondition_blamed :
    buildMap plainCondition =
        .error (.unknownOperator (.text "eq") Operator.vocabulary (.text "<root>.eq")) ∧
      Operator.ofSpelling? "eq" = some .equals ∧ Operator.isSpelling "eq" = true :=
  ⟨rfl, rfl, rfl⟩

end RecordQuery
