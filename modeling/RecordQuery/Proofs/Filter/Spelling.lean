import RecordQuery.Proofs.Alike
import RecordQuery.Proofs.Filter.Building
/-!
# Respelled filters

A raw filter is respelled when operators in it are written by other spellings of theirs: those of the
filters on one attribute and those of the operator maps in maps of attributes, at any depth. The two
runs of the builder are compared along `Value.Respelled`: both see the same shapes, read the same
criteria and check the same uses of operators, so that they end alike (`alike_buildAt`). Whitelists
forget spellings when they are made (`Whitelist.ofList_eq_of_respelled`).
-/

namespace RecordQuery

/-! ## Spellings of one operator -/

namespace Operator

/-- Texts that stand for the same are understood alike. -/
theorem ofSpelling?_eq_of_sameOperator {a b : String} (h : sameOperator a b = true) :
    ofSpelling? a = ofSpelling? b := by
  rw [sameOperator, beq_iff_eq, normalize, normalize] at h
  cases ha : ofSpelling? a with
  | none =>
      cases hb : ofSpelling? b with
      | none => rfl
      | some op =>
          rw [ha, hb] at h
          rw [show a = op.name from h, ofSpelling?_core] at ha
          exact absurd ha (by simp)
  | some op =>
      cases hb : ofSpelling? b with
      | none =>
          rw [ha, hb] at h
          rw [show b = op.name from h.symm, ofSpelling?_core] at hb
          exact absurd hb (by simp)
      | some other =>
          rw [ha, hb] at h
          have hname := congrArg ofSpelling? (show op.name = other.name from h)
          rwa [ofSpelling?_core, ofSpelling?_core] at hname

/-- What is no spelling of an operator stands for itself alone. -/
theorem eq_of_sameOperator {a b : String} (h : sameOperator a b = true)
    (ha : ofSpelling? a = none) : a = b := by
  have hb : ofSpelling? b = none := (ofSpelling?_eq_of_sameOperator h).symm.trans ha
  rw [sameOperator, beq_iff_eq, normalize, normalize, ha, hb] at h
  exact h

/-- Of two texts that stand for the same both are a given key that is no spelling, or neither is. -/
theorem eq_iff_of_sameOperator {a b key : String} (h : sameOperator a b = true)
    (hkey : ofSpelling? key = none) : a = key ↔ b = key := by
  have hsymm : sameOperator b a = true := beq_iff_eq.mpr (beq_iff_eq.mp h).symm
  constructor
  · rintro rfl
    exact (eq_of_sameOperator h hkey).symm
  · rintro rfl
    exact (eq_of_sameOperator hsymm hkey).symm

end Operator

namespace FilterKey

/-- Neither metadata nor the key of the attribute name spells an operator. -/
theorem ofSpelling?_of_not_isCriterion {key : String} (h : isCriterion key = false) :
    Operator.ofSpelling? key = none := by
  have hnone : ∀ key ∈ name :: (ownMetadata ++ shortMetadata),
      Operator.ofSpelling? key = none := by decide
  refine hnone key ?_
  rw [isCriterion, Bool.and_eq_false_iff] at h
  rcases h with hmeta | hname
  · rw [Bool.not_eq_false', isMetadata, Bool.or_eq_true, List.contains_iff_mem,
      List.contains_iff_mem] at hmeta
    exact List.mem_cons_of_mem _ (List.mem_append.mpr hmeta)
  · rw [bne_eq_false_iff_eq] at hname
    rw [hname]
    exact List.mem_cons_self

theorem isCriterion_of_spelling {key : String} {op : Operator}
    (h : Operator.ofSpelling? key = some op) : isCriterion key = true := by
  by_contra hkey
  rw [ofSpelling?_of_not_isCriterion (Bool.not_eq_true _ ▸ hkey)] at h
  exact absurd h (by simp)

/-- Branches are no metadata. -/
theorem not_isMetadata_of_isBranch {key : String} (h : isBranch key = true) :
    isMetadata key = false := by
  obtain ⟨branch, hbranch⟩ := Option.isSome_iff_exists.mp h
  rw [← Connective.word_of_ofWord? hbranch]
  exact isMetadata_word branch

end FilterKey

/-! ## Respelled operator maps -/

/-- The second field is the first one with its key in another spelling. -/
def Fields.RespelledField (first second : String × Value) : Prop :=
  Operator.sameOperator first.1 second.1 = true ∧ first.2 = second.2

/-- The second record is the first one with operators in other spellings. The keys of both are
distinct. -/
structure Fields.Respelled (first second : Fields) : Prop where
  fields : List.Forall₂ RespelledField first second
  distinct : (keys first).Nodup
  distinct' : (keys second).Nodup

section

variable {first second : Fields}

/-- A key that spells no operator has the same value in records that are respelled. -/
theorem Fields.get?_respelled (h : List.Forall₂ RespelledField first second) {key : String}
    (hkey : Operator.ofSpelling? key = none) : get? first key = get? second key := by
  induction h with
  | nil => rfl
  | @cons field field' rest rest' hfield _ ih =>
      obtain ⟨k, v⟩ := field
      obtain ⟨k', v'⟩ := field'
      obtain ⟨hsame, rfl⟩ := hfield
      have hiff : key = k ↔ key = k' := by
        rw [eq_comm, Operator.eq_iff_of_sameOperator hsame hkey, eq_comm]
      rw [get?_cons, get?_cons, ih]
      exact if_congr hiff rfl rfl

/-- Records that are respelled have operators alike. -/
theorem Value.isCriteria_respelled (h : List.Forall₂ Fields.RespelledField first second) :
    (record first).isCriteria = (record second).isCriteria := by
  rw [isCriteria, isCriteria]
  induction h with
  | nil => rfl
  | cons hfield _ ih =>
      rw [List.any_cons, List.any_cons, ih, Operator.isSpelling, Operator.isSpelling,
        Operator.ofSpelling?_eq_of_sameOperator hfield.1]

/-- A respelled filter on one attribute is one. -/
theorem Value.isAttributeFilter_respelled (h : List.Forall₂ Fields.RespelledField first second) :
    (record first).isAttributeFilter = (record second).isAttributeFilter := by
  rw [isAttributeFilter, isAttributeFilter, isCriteria_respelled h, Fields.has, Fields.has,
    Fields.get?_respelled h (by decide)]

/-- A record without operators cannot be respelled. -/
theorem Fields.eq_of_respelled (h : List.Forall₂ RespelledField first second)
    (hcriteria : (Value.record first).isCriteria = false) : first = second := by
  induction h with
  | nil => rfl
  | @cons field field' rest rest' hfield _ ih =>
      obtain ⟨k, v⟩ := field
      obtain ⟨k', v'⟩ := field'
      obtain ⟨hsame, rfl⟩ := hfield
      rw [Value.isCriteria, List.any_cons, Bool.or_eq_false_iff, Operator.isSpelling,
        Option.isSome_eq_false_iff, Option.isNone_iff_eq_none] at hcriteria
      obtain rfl : k = k' := Operator.eq_of_sameOperator hsame hcriteria.1
      rw [ih hcriteria.2]

/-! ## Leaves -/

variable {w : Option Whitelist} {name path : String}

/-- The criteria of respelled operator maps are read alike, after operators that were seen in any
spelling. -/
theorem alike_criteriaAfter (h : List.Forall₂ Fields.RespelledField first second)
    {seen seen' : List (Operator × String)}
    (hseen : ∀ op, seen.lookup op = none ↔ seen'.lookup op = none) :
    Alike AnyErrors Eq (criteriaAfter w name path seen first)
      (criteriaAfter w name path seen' second) := by
  induction h generalizing seen seen' with
  | nil => exact .ok rfl
  | @cons field field' rest rest' hfield _ ih =>
      obtain ⟨key, value⟩ := field
      obtain ⟨key', value'⟩ := field'
      obtain ⟨hsame, rfl⟩ := hfield
      have hop := Operator.ofSpelling?_eq_of_sameOperator hsame
      cases hspelled : Operator.ofSpelling? key with
      | none =>
          obtain rfl : key = key' := Operator.eq_of_sameOperator hsame hspelled
          rw [criteriaAfter, criteriaAfter]
          cases FilterKey.isCriterion key with
          | true =>
              dsimp only
              rw [Operator.ofKey_of_not_spelling hspelled]
              exact .failed
          | false => exact ih hseen
      | some op =>
          rw [criteriaAfter, criteriaAfter, if_pos (FilterKey.isCriterion_of_spelling hspelled),
            if_pos (FilterKey.isCriterion_of_spelling (hop ▸ hspelled))]
          dsimp only
          rw [Operator.ofKey_eq_ok_iff.mpr hspelled, Operator.ofKey_eq_ok_iff.mpr (hop ▸ hspelled),
            ok_bind, ok_bind]
          cases hlookup : seen.lookup op with
          | some spelling =>
              obtain ⟨spelling', hlookup'⟩ := Option.ne_none_iff_exists'.mp
                (mt (hseen op).mpr (by simp [hlookup]))
              rw [hlookup']
              exact .failed
          | none =>
              rw [(hseen op).mp hlookup]
              -- from here on both runs check, shape and go on with the same operator and value
              have hlater : Alike AnyErrors Eq (criteriaAfter w name path ((op, key) :: seen) rest)
                  (criteriaAfter w name path ((op, key') :: seen') rest') := by
                refine ih fun other => ?_
                rw [List.lookup_cons, List.lookup_cons]
                cases other == op with
                | true => simp
                | false => exact hseen other
              refine (Alike.same _).bind_eq fun _ => ?_
              refine (Alike.same _).bind_eq fun shaped => ?_
              exact hlater.bind fun criteria _ hcriteria => .ok (congrArg _ hcriteria)

/-- Respelled operator maps on one attribute give the same leaf. -/
theorem alike_leafOf (h : List.Forall₂ Fields.RespelledField first second) :
    Alike AnyErrors Eq (leafOf w name path first) (leafOf w name path second) := by
  have hmeta : ∀ key, FilterKey.isMetadata key = true →
      Fields.get? first key = Fields.get? second key := by
    intro key hkey
    refine Fields.get?_respelled h (FilterKey.ofSpelling?_of_not_isCriterion ?_)
    rw [FilterKey.isCriterion, hkey]
    rfl
  have hcriteria : Alike AnyErrors Eq (criteriaOf w name path first)
      (criteriaOf w name path second) := by
    rw [criteriaOf, criteriaOf]
    refine (alike_criteriaAfter h fun _ => Iff.rfl).bind_eq fun criteria => ?_
    exact .same _
  rw [leafOf, leafOf, joinerOf_congr hmeta, Tag.ofFields_congr hmeta]
  refine hcriteria.bind_eq fun criteria => ?_
  exact .same _

/-- Respelled filters on one attribute give the same leaf. -/
theorem alike_attributeLeaf (h : List.Forall₂ Fields.RespelledField first second) :
    Alike AnyErrors Eq (attributeLeaf w path first) (attributeLeaf w path second) := by
  rw [attributeLeaf, attributeLeaf, Fields.get?_respelled h (by decide)]
  cases ((Fields.get? second FilterKey.name).getD .null).text? with
  | none => exact .failed
  | some name =>
      by_cases hname : name = ""
      · simp only [if_pos hname]
        exact .failed
      · simp only [if_neg hname]
        exact alike_leafOf h

end

/-! ## Respelled filters -/

/-- The second entry is the first one respelled, where `R` respells the members of branches. In a map
of attributes the operator map of an entry may be respelled too; what counts as metadata there is
kept. -/
inductive Fields.RespelledEntry (R : Value → Value → Prop) :
    (inMap : Bool) → String × Value → String × Value → Prop
  | same {inMap : Bool} (entry : String × Value) : RespelledEntry R inMap entry entry
  | members {inMap : Bool} {key : String} {items items' : List Value} :
      FilterKey.isBranch key = true → List.Forall₂ R items items' →
      RespelledEntry R inMap (key, .list items) (key, .list items')
  | operators {key : String} {fields fields' : Fields} :
      FilterKey.isMapMetadata key (.record fields) = false → Respelled fields fields' →
      RespelledEntry R true (key, .record fields) (key, .record fields')

/-- The second raw filter is the first one with operators in other spellings: in a filter on one
attribute, in the members of a group, or in the operator maps of a map of attributes. Records without
a shape may be respelled as maps of attributes. -/
inductive Value.Respelled : Value → Value → Prop
  | same (v : Value) : Respelled v v
  | leaf {fields fields' : Fields} : (record fields).isAttributeFilter = true →
      Fields.Respelled fields fields' → Respelled (record fields) (record fields')
  | group {fields fields' : Fields} : (record fields).isGroupFilter = true →
      List.Forall₂ (Fields.RespelledEntry Respelled false) fields fields' →
      Respelled (record fields) (record fields')
  | map {fields fields' : Fields} : (record fields).isAttributeFilter = false →
      (record fields).isGroupFilter = false →
      List.Forall₂ (Fields.RespelledEntry Respelled true) fields fields' →
      Respelled (record fields) (record fields')

section

variable {R : Value → Value → Prop} {inMap : Bool} {fields fields' : Fields}

namespace Fields.RespelledEntry

variable {entry entry' : String × Value}

theorem key_eq (h : RespelledEntry R inMap entry entry') : entry.1 = entry'.1 := by
  cases h <;> rfl

theorem isList_eq (h : RespelledEntry R inMap entry entry') : entry.2.isList = entry'.2.isList := by
  cases h <;> rfl

theorem isCriteria_eq (h : RespelledEntry R inMap entry entry') :
    entry.2.isCriteria = entry'.2.isCriteria := by
  cases h with
  | same => rfl
  | members => rfl
  | operators _ hfields => exact Value.isCriteria_respelled hfields.fields

theorem isMapMetadata_eq (h : RespelledEntry R inMap entry entry') :
    FilterKey.isMapMetadata entry.1 entry.2 = FilterKey.isMapMetadata entry'.1 entry'.2 := by
  cases h <;> rfl

/-- Metadata of a map of attributes is not respelled. -/
theorem eq_of_isMapMetadata (h : RespelledEntry R inMap entry entry')
    (hmeta : FilterKey.isMapMetadata entry.1 entry.2 = true) : entry = entry' := by
  cases h with
  | same => rfl
  | members hbranch =>
      have hfalse := FilterKey.not_isMetadata_of_isBranch hbranch
      rw [FilterKey.isMetadata_of_isMapMetadata hmeta] at hfalse
      exact absurd hfalse (by simp)
  | operators hoperators => exact absurd hmeta (by simp [hoperators])

/-- Outside of maps of attributes only branches are respelled. -/
theorem eq_of_not_isBranch (h : RespelledEntry R false entry entry')
    (hkey : FilterKey.isBranch entry.1 = false) : entry = entry' := by
  cases h with
  | same => rfl
  | members hbranch => exact absurd hkey (by simp [hbranch])

end Fields.RespelledEntry

/-- At each key there are entries of which one is the other respelled, or there are none. -/
theorem Fields.get?_of_entries (h : List.Forall₂ (RespelledEntry R inMap) fields fields')
    (key : String) :
    (get? fields key = none ∧ get? fields' key = none) ∨
      ∃ v v', get? fields key = some v ∧ get? fields' key = some v' ∧
        RespelledEntry R inMap (key, v) (key, v') := by
  induction h with
  | nil => exact .inl ⟨rfl, rfl⟩
  | @cons entry entry' rest rest' hentry _ ih =>
      obtain ⟨k, v⟩ := entry
      obtain ⟨k', v'⟩ := entry'
      obtain rfl : k = k' := hentry.key_eq
      rw [get?_cons, get?_cons]
      by_cases hk : key = k
      · subst hk
        rw [if_pos rfl, if_pos rfl]
        exact .inr ⟨v, v', rfl, rfl, hentry⟩
      · rw [if_neg hk, if_neg hk]
        exact ih

/-- The keys of respelled entries are the same. -/
theorem Fields.keys_eq_of_entries (h : List.Forall₂ (RespelledEntry R inMap) fields fields') :
    keys fields = keys fields' :=
  map_eq_map_of_forall₂ (fun _ _ hentry => hentry.key_eq) h

/-- The same keys are there in respelled entries. -/
theorem Fields.has_of_entries (h : List.Forall₂ (RespelledEntry R inMap) fields fields')
    (key : String) : has fields key = has fields' key := by
  rw [has, has]
  rcases get?_of_entries h key with ⟨hnone, hnone'⟩ | ⟨v, v', hget, hget', -⟩
  · rw [hnone, hnone']
  · rw [hget, hget']
    rfl

/-- What is no branch has the same value in a group that is respelled. -/
theorem Fields.get?_eq_of_entries (h : List.Forall₂ (RespelledEntry R false) fields fields')
    {key : String} (hkey : FilterKey.isBranch key = false) : get? fields key = get? fields' key := by
  rcases get?_of_entries h key with ⟨hnone, hnone'⟩ | ⟨v, v', hget, hget', hentry⟩
  · rw [hnone, hnone']
  · obtain ⟨-, rfl⟩ := Prod.mk.inj (hentry.eq_of_not_isBranch hkey)
    rw [hget, hget']

/-- The members of a branch are respelled one by one. -/
theorem branchItems?_of_entries (hR : ∀ v, R v v)
    (h : List.Forall₂ (Fields.RespelledEntry R inMap) fields fields') (branch : Connective) :
    (branchItems? fields branch = none ∧ branchItems? fields' branch = none) ∨
      ∃ items items', branchItems? fields branch = some items ∧
        branchItems? fields' branch = some items' ∧ List.Forall₂ R items items' := by
  rw [branchItems?, branchItems?]
  rcases Fields.get?_of_entries h branch.word with ⟨hnone, hnone'⟩ | ⟨v, v', hget, hget', hentry⟩
  · rw [hnone, hnone']
    exact .inr ⟨[], [], rfl, rfl, .nil⟩
  · rw [hget, hget', Option.getD_some, Option.getD_some]
    cases hentry with
    | same =>
        cases hmembers : v.members? with
        | none => exact .inl ⟨rfl, rfl⟩
        | some items => exact .inr ⟨items, items, rfl, rfl, List.forall₂_same.mpr fun v _ => hR v⟩
    | members _ hitems => exact .inr ⟨_, _, rfl, rfl, hitems⟩
    | operators => exact .inl ⟨rfl, rfl⟩

/-! ## Shapes of respelled filters -/

namespace Value

theorem isAttributeFilter_of_entries
    (h : List.Forall₂ (Fields.RespelledEntry R inMap) fields fields') :
    (record fields).isAttributeFilter = (record fields').isAttributeFilter := by
  have hany : ∀ fields : Fields, (record fields).isCriteria =
      (Fields.keys fields).any Operator.isSpelling := fun fields => by
    rw [Fields.keys, List.any_map, isCriteria]
    rfl
  rw [isAttributeFilter, isAttributeFilter, hany, hany, Fields.keys_eq_of_entries h,
    Fields.has_of_entries h]

theorem isGroupFilter_of_entries
    (h : List.Forall₂ (Fields.RespelledEntry R inMap) fields fields') :
    (record fields).isGroupFilter = (record fields').isGroupFilter := by
  have hall : ∀ fields : Fields,
      (fields.all fun field => FilterKey.isBranch field.1 || FilterKey.isMetadata field.1) =
        (Fields.keys fields).all fun key => FilterKey.isBranch key || FilterKey.isMetadata key :=
    fun fields => by
      rw [Fields.keys, List.all_map]
      rfl
  have hlist : ∀ branch : Connective,
      ((Fields.get? fields branch.word).getD null).isList =
        ((Fields.get? fields' branch.word).getD null).isList := by
    intro branch
    rcases Fields.get?_of_entries h branch.word with ⟨hnone, hnone'⟩ | ⟨v, v', hget, hget', hentry⟩
    · rw [hnone, hnone']
    · rw [hget, hget']
      exact hentry.isList_eq
  rw [isGroupFilter, isGroupFilter, hall, hall, Fields.keys_eq_of_entries h]
  simp only [hlist]

theorem isEntityFilter_of_entries
    (h : List.Forall₂ (Fields.RespelledEntry R inMap) fields fields') :
    (record fields).isEntityFilter = (record fields').isEntityFilter := by
  have hall : (fields.map fun field =>
      FilterKey.isMapMetadata field.1 field.2 || field.2.isCriteria) =
      fields'.map fun field => FilterKey.isMapMetadata field.1 field.2 || field.2.isCriteria :=
    map_eq_map_of_forall₂ (fun _ _ hentry => by rw [hentry.isMapMetadata_eq, hentry.isCriteria_eq]) h
  have hid : ∀ fields : Fields,
      (fields.all fun field => FilterKey.isMapMetadata field.1 field.2 || field.2.isCriteria) =
        (fields.map fun field =>
          FilterKey.isMapMetadata field.1 field.2 || field.2.isCriteria).all id := fun fields => by
    rw [List.all_map]
    rfl
  rw [isEntityFilter, isEntityFilter, Fields.has_of_entries h, hid, hid, hall]

end Value

/-! ## Building respelled filters -/

section

variable {w : Option Whitelist} {path : String}

/-- The entries of respelled maps of attributes give the same leaves. -/
theorem alike_mapLeaves (h : List.Forall₂ (Fields.RespelledEntry R true) fields fields') :
    Alike AnyErrors Eq (mapLeaves w path fields) (mapLeaves w path fields') := by
  induction h with
  | nil => exact .ok rfl
  | @cons entry entry' rest rest' hentry _ ih =>
      have hmeta := hentry.isMapMetadata_eq
      have hleaf : ∀ path, Alike AnyErrors Eq (leafOf w entry.1 path (operatorMap entry.2))
          (leafOf w entry.1 path (operatorMap entry'.2)) := by
        intro path
        cases hentry with
        | same => exact .same _
        | members => exact .same _
        | operators _ hfields => exact alike_leafOf hfields.fields
      obtain ⟨key, value⟩ := entry
      obtain ⟨key', value'⟩ := entry'
      obtain rfl : key = key' := hentry.key_eq
      rw [mapLeaves, mapLeaves, ← hmeta]
      cases FilterKey.isMapMetadata key value with
      | true => exact ih
      | false =>
          refine (hleaf _).bind_eq fun leaf => ?_
          exact ih.bind fun leaves _ hleaves => .ok (congrArg _ hleaves)

/-- The metadata of a map of attributes is not respelled. -/
theorem Tag.ofMap_of_entries (h : List.Forall₂ (Fields.RespelledEntry R true) fields fields') :
    Tag.ofMap fields = Tag.ofMap fields' := by
  have hfilter : fields.filter (fun field => FilterKey.isMapMetadata field.1 field.2) =
      fields'.filter fun field => FilterKey.isMapMetadata field.1 field.2 := by
    induction h with
    | nil => rfl
    | @cons entry entry' rest rest' hentry _ ih =>
        rw [List.filter_cons, List.filter_cons, ih, ← hentry.isMapMetadata_eq]
        cases hmeta : FilterKey.isMapMetadata entry.1 entry.2 with
        | true => rw [hentry.eq_of_isMapMetadata hmeta]
        | false => rfl
  rw [ofMap, ofMap, hfilter]

/-- Respelled maps of attributes give the same group. -/
theorem alike_mapGroup (h : List.Forall₂ (Fields.RespelledEntry R true) fields fields') :
    Alike AnyErrors Eq (mapGroup w path fields) (mapGroup w path fields') := by
  have hword : Fields.get? fields "logicalOp" = Fields.get? fields' "logicalOp" := by
    rcases Fields.get?_of_entries h "logicalOp" with ⟨hnone, hnone'⟩ | ⟨v, v', hget, hget', hentry⟩
    · rw [hnone, hnone']
    · obtain ⟨-, rfl⟩ := Prod.mk.inj (hentry.eq_of_isMapMetadata rfl)
      rw [hget, hget']
  have hjoiner : joinerOf fields path Connective.all = joinerOf fields' path Connective.all := by
    rw [joinerOf, joinerOf, hword]
  rw [mapGroup, mapGroup, hjoiner, Tag.ofMap_of_entries h]
  refine (Alike.same _).bind_eq fun branch => ?_
  exact (alike_mapLeaves h).bind fun leaves _ hleaves => .ok (by rw [hleaves])

/-- Members are built alike when one after the other is. -/
theorem alike_buildMembers {items items' : List Value}
    (h : List.Forall₂ (fun item item' => ∀ place,
      Alike AnyErrors Eq (buildAt w place item) (buildAt w place item')) items items')
    (index : Nat) :
    Alike AnyErrors Eq (buildMembers w path index items) (buildMembers w path index items') := by
  induction h generalizing index with
  | nil => exact .ok rfl
  | cons hitem _ ih =>
      rw [buildMembers, buildMembers]
      refine (hitem _).bind_eq fun n => ?_
      exact (ih (index + 1)).bind fun ns _ hns => .ok (congrArg _ hns)

/-- Respelled groups are built alike when their branches are. -/
theorem alike_buildGroup (hgroup : (Value.record fields).isGroupFilter = true)
    (h : List.Forall₂ (Fields.RespelledEntry R false) fields fields')
    (hbranch : ∀ branch, Alike AnyErrors Eq (buildBranch w path branch fields)
      (buildBranch w path branch fields')) :
    Alike AnyErrors Eq (buildAt w path (.record fields)) (buildAt w path (.record fields')) := by
  have htag : Tag.ofFields fields = Tag.ofFields fields' := by
    refine Tag.ofFields_congr fun key hkey => Fields.get?_eq_of_entries h ?_
    by_contra hbranch
    rw [FilterKey.not_isMetadata_of_isBranch (Bool.not_eq_false _ ▸ hbranch)] at hkey
    exact absurd hkey (by simp)
  have hgroup' := (Value.isGroupFilter_of_entries h).symm.trans hgroup
  rw [buildAt_of_isGroupFilter hgroup, buildAt_of_isGroupFilter hgroup', htag]
  refine (hbranch .and).bind_eq fun ands => ?_
  refine (hbranch .or).bind_eq fun ors => ?_
  exact (hbranch .not).bind fun nots _ hnots => .ok (by rw [hnots])

end

end

/-- **Respelled filters are built alike**: to the same filter, or not at all. -/
theorem alike_buildAt {w : Option Whitelist} {v v' : Value} (h : v.Respelled v') (path : String) :
    Alike AnyErrors Eq (buildAt w path v) (buildAt w path v') := by
  induction v using Value.memberInduction generalizing v' path with
  | other v hrecord =>
      cases h with
      | same => exact .same _
      | leaf | group | map => exact absurd hrecord (by simp [Value.record?])
  | record fields ih =>
      cases h with
      | same => exact .same _
      | leaf hattribute hfields =>
          have hattribute' := (Value.isAttributeFilter_respelled hfields.fields).symm.trans hattribute
          rw [buildAt_of_isAttributeFilter hattribute, buildAt_of_isAttributeFilter hattribute']
          exact alike_attributeLeaf hfields.fields
      | @group _ fields' hgroup hentries =>
          refine alike_buildGroup hgroup hentries fun branch => ?_
          rw [buildBranch_eq, buildBranch_eq]
          rcases branchItems?_of_entries Value.Respelled.same hentries branch with
            ⟨hnone, hnone'⟩ | ⟨items, items', hitems, hitems', hmembers⟩
          · rw [hnone, hnone']
            exact .failed
          · rw [hitems, hitems']
            refine alike_buildMembers ?_ 0
            refine ((List.forall₂_and_left _ _).mpr ⟨fun item hitem => hitem, hmembers⟩).imp ?_
            rintro item item' ⟨hitem, hrespelled⟩ place
            exact ih branch items hitems item hitem hrespelled place
      | @map _ fields' hattribute hgroup hentries =>
          have hattribute' := (Value.isAttributeFilter_of_entries hentries).symm.trans hattribute
          have hgroup' := (Value.isGroupFilter_of_entries hentries).symm.trans hgroup
          rw [← Bool.not_eq_true] at hattribute hgroup hattribute' hgroup'
          by_cases hmap : (Value.record fields).isEntityFilter = true
          · have hmap' := (Value.isEntityFilter_of_entries hentries).symm.trans hmap
            rw [buildAt_of_isEntityFilter hmap, buildAt_of_isEntityFilter hmap']
            exact (alike_mapGroup hentries).map fun _ _ => congrArg Group.toNode
          · have hmap' := fun h => hmap ((Value.isEntityFilter_of_entries hentries).trans h)
            rw [buildAt_of_no_shape hattribute hgroup hmap,
              buildAt_of_no_shape hattribute' hgroup' hmap']
            exact .failed

theorem alike_buildFilter {w : Option Whitelist} {v v' : Value} (h : v.Respelled v') :
    Alike AnyErrors Eq (buildFilter w v) (buildFilter w v') :=
  (alike_buildAt h rootPath).map fun _ _ => congrArg Group.ofNode

/-! ## Respelled whitelists -/

/-- The second whitelist lists the same operators as the first, in other spellings. -/
def Whitelist.RespelledEntries (first second : List (String × List String)) : Prop :=
  List.Forall₂ (fun entry entry' => entry.1 = entry'.1 ∧
    List.Forall₂ (fun a b => Operator.sameOperator a b = true) entry.2 entry'.2) first second

/-- Whitelists in other spellings are the same. -/
theorem Whitelist.ofList_eq_of_respelled {first second : List (String × List String)}
    (h : RespelledEntries first second) : ofList first = ofList second := by
  refine congrArg Whitelist.mk (map_eq_map_of_forall₂ ?_ h)
  rintro ⟨name, operators⟩ ⟨name', operators'⟩ ⟨rfl, hoperators⟩
  exact congrArg (Prod.mk name) (map_eq_map_of_forall₂ (fun _ _ hsame => beq_iff_eq.mp hsame) hoperators)

end RecordQuery
