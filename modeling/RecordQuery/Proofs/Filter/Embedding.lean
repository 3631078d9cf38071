import RecordQuery.Proofs.Filter.Reload
/-!
# Saved filters inside raw filters

A raw group may hold ready filters among its members. A ready filter with canonical leaves whose
attributes have names can be replaced by the record that it is saved as, and the same is built:
saving leaves no tuple in the values that the filter compares with, the record is read as the filter
again (`Node.reloads`), and a group is built from what its members are built into
(`buildAt_of_resaved`).
-/

namespace RecordQuery

/-! ## Values of saved filters -/

mutual

/-- The values that a saved filter compares with, those of its operators or of its members; a branch of
saved filters compares with the values of all of them. -/
def Value.payloads : Value → List Value
  | .record fields => Value.fieldPayloads fields
  | .list items => Value.itemPayloads items
  | _ => []
termination_by structural v => v

/-- The values that the fields of a saved filter compare with. -/
def Value.fieldPayloads : List (String × Value) → List Value
  | [] => []
  | (key, value) :: rest =>
    (if FilterKey.isBranch key then value.payloads
      else if FilterKey.isCriterion key then [value]
      else []) ++ Value.fieldPayloads rest
termination_by structural fields => fields

/-- The values that the members of a saved branch compare with. -/
def Value.itemPayloads : List Value → List Value
  | [] => []
  | item :: rest => item.payloads ++ Value.itemPayloads rest
termination_by structural items => items

end

namespace Value

end Value

section

variable {w : Option Whitelist} {fields : Fields} {branch : Connective}

/-- A group stays one when a branch is set to other members. -/
theorem Value.isGroupFilter_set (h : (Value.record fields).isGroupFilter = true)
    (branch : Connective) (items : List Value) :
    (Value.record (Fields.set fields branch.word (.list items))).isGroupFilter = true := by
  rw [isGroupFilter, Bool.and_eq_true, List.any_eq_true, List.all_eq_true] at h ⊢
  constructor
  · refine ⟨branch, by cases branch <;> decide, ?_⟩
    rw [Fields.get?_set_self]
    rfl
  · intro field hfield
    rcases Fields.eq_or_mem_of_mem_set hfield with rfl | hmem
    · rw [FilterKey.isBranch_word, Bool.true_or]
    · exact h.2 field hmem

/-- A group keeps its identifier and its label when a branch is set to other members. -/
theorem Tag.ofFields_set_word (fields : Fields) (branch : Connective) (value : Value) :
    ofFields (Fields.set fields branch.word value) = ofFields fields := by
  refine ofFields_congr fun key hkey => Fields.get?_set_of_ne fields value ?_
  rintro rfl
  rw [FilterKey.isMetadata_word] at hkey
  exact absurd hkey (by simp)

/-- Setting a branch to other members changes the members of this branch alone. -/
theorem branchItems?_set (fields : Fields) (branch other : Connective) (items : List Value) :
    branchItems? (Fields.set fields branch.word (.list items)) other =
      if other = branch then some items else branchItems? fields other := by
  rw [branchItems?]
  by_cases h : other = branch
  · rw [if_pos h, h, Fields.get?_set_self]
    rfl
  · rw [if_neg h, Fields.get?_set_of_ne fields _ fun hword => h (Connective.word_inj.mp hword)]
    rfl

end

end RecordQuery
