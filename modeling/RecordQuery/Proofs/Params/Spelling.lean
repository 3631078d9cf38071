import RecordQuery.Proofs.Filter.Agreement
import RecordQuery.Proofs.Filter.Spelling
import RecordQuery.Proofs.Params.Fragments
/-!
# Respelled parameters

Parameters in nested form are respelled in the operator maps of their attributes, also inside the
members of group keys. The raw filters that they stand for are respelled then, because texts are
taken apart by the operator and not by its spelling. `spelling_irrelevant` puts raw filters,
parameters and whitelists together.
-/

namespace RecordQuery

/-! ## Naming respelled operator maps -/

/-- Respelled operator maps stay so with the name of an attribute in front. -/
theorem Fields.Respelled.withName {first second : Fields} (h : Respelled first second)
    (name : Value) : Respelled (withName name first) (withName name second) := by
  have hnodup : ∀ fields : Fields, (keys fields).Nodup → (keys (Fields.withName name fields)).Nodup := by
    intro fields hdistinct
    have hfilter : (keys (fields.filter fun field => field.1 != FilterKey.name)).Nodup :=
      hdistinct.sublist (List.filter_sublist.map _)
    refine List.nodup_cons.mpr ⟨fun hmem => ?_, hfilter⟩
    obtain ⟨field, hfield, hkey⟩ := List.mem_map.mp hmem
    exact bne_iff_ne.mp (List.mem_filter.mp hfield).2 hkey
  refine ⟨.cons ⟨beq_self_eq_true _, rfl⟩ ?_, hnodup first h.distinct, hnodup second h.distinct'⟩
  refine List.rel_filter (fun field field' hfield => ?_) h.fields
  show (field.1 != FilterKey.name) = true ↔ (field'.1 != FilterKey.name) = true
  rw [bne_iff_ne, bne_iff_ne]
  exact not_congr (Operator.eq_iff_of_sameOperator hfield.1 (by decide))

/-- A record of an attribute name and operators is respelled as the operators are. -/
theorem Value.respelled_of_name {first second : Fields} (h : Fields.Respelled first second)
    (hname : Fields.has first FilterKey.name = true) : (record first).Respelled (record second) := by
  cases hcriteria : (record first).isCriteria with
  | true => exact .leaf (by rw [isAttributeFilter, hcriteria, hname]; rfl) h
  | false =>
      rw [Fields.eq_of_respelled h.fields hcriteria]
      exact .same _

namespace Params

/-! ## Respelled parameters -/

/-- The second parameter is the first one respelled, where `R` respells the values of group keys. -/
inductive RespelledEntry (R : Value → Value → Prop) : String × Value → String × Value → Prop
  | same (entry : String × Value) : RespelledEntry R entry entry
  | operators {key : String} {fields fields' : Fields} : FilterKey.isBranch key = false →
      Fields.Respelled fields fields' →
      RespelledEntry R (key, .record fields) (key, .record fields')
  | group {key : String} {v v' : Value} : FilterKey.isBranch key = true → R v v' →
      RespelledEntry R (key, v) (key, v')

/-- The second value of a group key is the first one respelled, member by member. -/
inductive RespelledGroup : Value → Value → Prop
  | same (v : Value) : RespelledGroup v v
  | members {items items' : List Value} : List.Forall₂ RespelledGroup items items' →
      RespelledGroup (.list items) (.list items')
  | member {fields fields' : Fields} : List.Forall₂ (RespelledEntry RespelledGroup) fields fields' →
      RespelledGroup (.record fields) (.record fields')

/-- The second parameters are the first ones with operators in other spellings. -/
def Respelled (first second : Fields) : Prop :=
  List.Forall₂ (RespelledEntry RespelledGroup) first second

/-! ## Attributes -/

/-- A value is taken apart and typed for the operator, in whatever spelling. -/
theorem operatorValue_eq_of_sameOperator {a b : String} (h : Operator.sameOperator a b = true)
    (v : Value) : operatorValue a v = operatorValue b v := by
  have hsplit : splitFor a = splitFor b := by
    funext s
    rw [splitFor, splitFor, Operator.isListedSpelling, Operator.isListedSpelling,
      Operator.ofSpelling?_eq_of_sameOperator h]
  rw [operatorValue, operatorValue, hsplit]

/-- The values of respelled operator maps are typed alike, and the keys are kept. -/
theorem alike_operatorValues {first second : Fields}
    (h : List.Forall₂ Fields.RespelledField first second) :
    Alike AnyErrors (fun typed typed' => List.Forall₂ Fields.RespelledField typed typed' ∧
        Fields.keys typed = Fields.keys first ∧ Fields.keys typed' = Fields.keys second)
      (operatorValues first) (operatorValues second) := by
  induction h with
  | nil => exact .ok ⟨.nil, rfl, rfl⟩
  | @cons field field' rest rest' hfield _ ih =>
      obtain ⟨key, value⟩ := field
      obtain ⟨key', value'⟩ := field'
      obtain ⟨hsame, rfl⟩ := hfield
      rw [operatorValues, operatorValues, operatorValue_eq_of_sameOperator hsame]
      refine (Alike.same _).bind_eq fun typed => ?_
      refine ih.bind ?_
      rintro later later' ⟨hlater, hkeys, hkeys'⟩
      exact .ok ⟨.cons ⟨hsame, rfl⟩ hlater, congrArg (key :: ·) hkeys, congrArg (key' :: ·) hkeys'⟩

/-- Respelled operator maps give respelled filters on the attribute. -/
theorem alike_attributeFragment {first second : Fields} (h : Fields.Respelled first second)
    (name : String) :
    Alike AnyErrors Value.Respelled (attributeFragment name (.record first))
      (attributeFragment name (.record second)) := by
  refine (alike_operatorValues h.fields).bind ?_
  rintro typed typed' ⟨htyped, hkeys, hkeys'⟩
  have hrespelled : Fields.Respelled typed typed' :=
    ⟨htyped, hkeys ▸ h.distinct, hkeys' ▸ h.distinct'⟩
  rw [Fields.ofList_cons hrespelled.distinct, Fields.ofList_cons hrespelled.distinct',
    Fields.get?_respelled htyped (by decide)]
  refine .ok (Value.respelled_of_name (hrespelled.withName _) ?_)
  exact Fields.has_iff.mpr ⟨_, Fields.get?_withName _ _⟩

/-! ## Groups -/

section

variable {items items' : List Value} {fields fields' : Fields}

/-- The members of a group key stand for respelled filters when each does. -/
theorem alike_memberFragments (word : String) (h : List.Forall₂ RespelledGroup items items')
    (hmembers : ∀ item ∈ items, ∀ item', RespelledGroup item item' → ∀ word,
      Alike AnyErrors (List.Forall₂ Value.Respelled) (groupFragments word item)
        (groupFragments word item')) :
    Alike AnyErrors (List.Forall₂ Value.Respelled) (memberFragments word items)
      (memberFragments word items') := by
  induction h with
  | nil => exact .ok .nil
  | @cons item item' rest rest' hitem _ ih =>
      rw [List.forall_mem_cons] at hmembers
      have hhere := hmembers.1 item' hitem word
      have hlater := ih hmembers.2
      -- the members are records; a plain value and a list are refused in both runs
      have hboth : ∀ {fields fields' : Fields}, Alike AnyErrors (List.Forall₂ Value.Respelled)
          (fieldFragments fields) (fieldFragments fields') →
          Alike AnyErrors (List.Forall₂ Value.Respelled)
            (memberFragments word (.record fields :: rest))
            (memberFragments word (.record fields' :: rest')) := by
        intro fields fields' hfields
        rw [memberFragments, memberFragments]
        exact hfields.bind fun _ _ hhere => hlater.bind fun _ _ hlater =>
          .ok (List.rel_append hhere hlater)
      cases hitem with
      | members => exact .failed
      | member => exact hboth hhere
      | same =>
          cases item with
          | record => exact hboth hhere
          | null | bool | int | float | text | list | tuple | moment | connective | node
          | deferred => exact .failed

/-- A group of respelled members is respelled. -/
theorem respelled_group {key : String} (hkey : FilterKey.isBranch key = true)
    (h : List.Forall₂ Value.Respelled items items') :
    (Value.record [(key, .list items)]).Respelled (.record [(key, .list items')]) := by
  obtain ⟨branch, hbranch⟩ := Option.isSome_iff_exists.mp hkey
  obtain rfl := Connective.word_of_ofWord? hbranch
  refine .group ?_ (.cons (.members hkey h) .nil)
  cases branch <;> rfl

/-- The entries of a group member stand for respelled filters when the values of its group keys
do. -/
theorem alike_fieldFragments (h : List.Forall₂ (RespelledEntry RespelledGroup) fields fields')
    (hgroups : ∀ field ∈ fields, ∀ v', RespelledGroup field.2 v' → ∀ word,
      Alike AnyErrors (List.Forall₂ Value.Respelled) (groupFragments word field.2)
        (groupFragments word v')) :
    Alike AnyErrors (List.Forall₂ Value.Respelled) (fieldFragments fields)
      (fieldFragments fields') := by
  induction h with
  | nil => exact .ok .nil
  | @cons field field' rest rest' hfield _ ih =>
      rw [List.forall_mem_cons] at hgroups
      obtain ⟨key, value⟩ := field
      obtain ⟨key', value'⟩ := field'
      obtain rfl : key = key' := by cases hfield <;> rfl
      have hhere : Alike AnyErrors Value.Respelled (fieldFragment key value)
          (fieldFragment key value') := by
        rw [fieldFragment, fieldFragment]
        cases hfield with
        | same => exact .refl (fun _ => trivial) Value.Respelled.same _
        | operators hkey hfields =>
            rw [hkey, if_neg Bool.false_ne_true, if_neg Bool.false_ne_true]
            exact (alike_attributeFragment hfields key).liftFault
        | group hkey hvalue =>
            rw [if_pos hkey, if_pos hkey]
            exact (hgroups.1 value' hvalue key).map fun _ _ => respelled_group hkey
      rw [fieldFragments_cons, fieldFragments_cons]
      exact hhere.bind fun _ _ hhere => (ih hgroups.2).bind fun _ _ hlater =>
        .ok (.cons hhere hlater)

end

/-- The values of a group key stand for respelled filters when they are respelled. -/
theorem alike_groupFragments {v v' : Value} (h : RespelledGroup v v') (word : String) :
    Alike AnyErrors (List.Forall₂ Value.Respelled) (groupFragments word v)
      (groupFragments word v') := by
  induction v using Value.partInduction generalizing v' word with
  | list items ih =>
      cases h with
      | same => exact .refl (fun _ => trivial) (fun _ => List.forall₂_same.mpr fun v _ => .same v) _
      | members hitems =>
          rw [groupFragments, groupFragments]
          exact alike_memberFragments word hitems fun item hitem _ h word => ih item hitem h word
  | record fields ih =>
      cases h with
      | same => exact .refl (fun _ => trivial) (fun _ => List.forall₂_same.mpr fun v _ => .same v) _
      | member hfields =>
          rw [groupFragments, groupFragments]
          exact alike_fieldFragments hfields fun field hfield _ h word => ih field hfield h word
  | tuple | deferred =>
      cases h
      exact .failed
  | other v hitems hrecord =>
      cases h with
      | same => exact .refl (fun _ => trivial) (fun _ => List.forall₂_same.mpr fun v _ => .same v) _
      | members => exact absurd hitems (by simp [Value.items?])
      | member => exact absurd hrecord (by simp [Value.record?])

/-- The second filter is the first one respelled, and belongs to the same branch. -/
def RespelledPlaced (placed placed' : Connective × Value) : Prop :=
  placed.1 = placed'.1 ∧ placed.2.Respelled placed'.2

/-- A respelled parameter stands for respelled filters in the same branch. -/
theorem alike_placedFragment {key : String} {value value' : Value}
    (h : RespelledEntry RespelledGroup (key, value) (key, value')) :
    Alike AnyErrors (List.Forall₂ RespelledPlaced) (placedFragment key value)
      (placedFragment key value') := by
  rw [placedFragment, placedFragment]
  cases h with
  | same =>
      exact .refl (fun _ => trivial)
        (fun _ => List.forall₂_same.mpr fun placed _ => ⟨rfl, .same placed.2⟩) _
  | @operators _ fields fields' hkey hfields =>
      rw [FilterKey.isBranch_eq_false.mp hkey]
      exact (alike_attributeFragment hfields key).liftFault.map fun _ _ hfragment =>
        .cons ⟨rfl, hfragment⟩ .nil
  | group hkey hvalue =>
      obtain ⟨branch, hbranch⟩ := Option.isSome_iff_exists.mp hkey
      rw [hbranch]
      refine (alike_groupFragments hvalue key).map fun _ _ hfragments => List.rel_map ?_ hfragments
      intro fragment fragment' hfragment
      exact ⟨rfl, hfragment⟩

/-- Respelled parameters stand for respelled filters in the same branches. -/
theorem alike_placedFragments {parsed parsed' : Fields} (h : Respelled parsed parsed') :
    Alike AnyErrors (List.Forall₂ RespelledPlaced) (placedFragments parsed)
      (placedFragments parsed') := by
  induction h with
  | nil => exact .ok .nil
  | @cons param param' rest rest' hparam _ ih =>
      obtain ⟨key, value⟩ := param
      obtain ⟨key', value'⟩ := param'
      obtain rfl : key = key' := by cases hparam <;> rfl
      rw [placedFragments_cons, placedFragments_cons]
      exact (alike_placedFragment hparam).bind fun _ _ hhere => ih.bind fun _ _ hlater =>
        .ok (List.rel_append hhere hlater)

/-- Respelled parameters stand for respelled raw groups. -/
theorem alike_rawGroup {parsed parsed' : Fields} (h : Respelled parsed parsed') :
    Alike AnyErrors Value.Respelled (rawGroup parsed) (rawGroup parsed') := by
  refine (alike_placedFragments h).bind fun placed placed' hplaced => .ok ?_
  have hmembers : ∀ branch : Connective, FilterKey.isBranch branch.word = true →
      Fields.RespelledEntry Value.Respelled false (branch.word, membersOf branch placed)
        (branch.word, membersOf branch placed') := by
    intro branch hbranch
    have hfilter := List.rel_filter (p := fun entry => entry.1 = branch)
      (q := fun entry => entry.1 = branch) ?_ hplaced
    refine .members hbranch (List.rel_map ?_ hfilter)
    · rintro entry entry' ⟨-, hrespelled⟩
      exact hrespelled
    · rintro ⟨branch, v⟩ ⟨branch', v'⟩ ⟨rfl, -⟩
      exact Iff.rfl
  exact .group rfl (.cons (.same _) (.cons (hmembers .and rfl) (.cons (hmembers .or rfl)
    (.cons (hmembers .not rfl) .nil))))

end Params

/-! ## Filters and parameters -/

/-- **Spellings of operators do not matter.** From raw filters of which one is the other respelled,
and from parameters of which one is the other respelled, the same group is built or none at all; and
so it is under whitelists of which one is the other respelled. -/
theorem spelling_irrelevant {listed listed' : Option (List (String × List String))}
    (hlisted : Option.Rel Whitelist.RespelledEntries listed listed') :
    (∀ raw raw', Value.Respelled raw raw' → ∀ g,
      buildFilter (listed.map .ofList) raw = .ok g ↔ buildFilter (listed'.map .ofList) raw' = .ok g) ∧
    ∀ parsed parsed', Params.Respelled parsed parsed' → ∀ g,
      Params.toGroup (listed.map .ofList) parsed = .ok g ↔
        Params.toGroup (listed'.map .ofList) parsed' = .ok g := by
  have hwhitelist : listed.map Whitelist.ofList = listed'.map Whitelist.ofList := by
    cases hlisted with
    | some hentries => exact congrArg some (Whitelist.ofList_eq_of_respelled hentries)
    | none => rfl
  rw [hwhitelist]
  constructor
  · intro raw raw' hraw
    exact (alike_buildFilter hraw).ok_iff
  · intro parsed parsed' hparsed
    have hgroup := (Params.alike_rawGroup hparsed).bind fun _ _ hraw =>
      (alike_buildFilter (w := listed'.map Whitelist.ofList) hraw).liftFilter
    exact hgroup.ok_iff

/-- People of a name or in a range of ages, with operators in the given spellings. -/
def nameOrAge (equals above below : String) : Value :=
  .record [("or", .list [.record [("attribute", .text "name"), (equals, .text "Ada")],
    .record [("age", .record [(above, .int 18), (below, .int 65)])]])]

/-- What the filter on a name or a range of ages is built to. -/
def nameOrAgeGroup : Group where
  ors := [.leaf "name" [(.equals, .text "Ada")] .and .null .null,
    .group [.leaf "age" [(.greater, .int 18), (.less, .int 65)] .and .null .null] [] [] .null .null]

/-- Parameters for two ages without a third, with operators in the given spellings. -/
def agesWithout (listed differs : String) : Fields :=
  [("age", .record [(listed, .list [.int 18, .int 65])]),
    ("not", .list [.record [("age", .record [(differs, .int 40)])]])]

/-- The group of the parameters for ages. -/
def agesWithoutGroup : Group where
  ands := [.leaf "age" [(.oneOf, .list [.int 18, .int 65])] .and .null .null]
  nots := [.leaf "age" [(.differs, .int 40)] .and .null .null]
  id := .text Params.groupId

/-- A filter, parameters and a whitelist are respelled, and the same groups are built. -/
theorem nameOrAge_respelled :
    Option.Rel Whitelist.RespelledEntries (some [("name", ["eq"]), ("age", [])])
        (some [("name", ["=="]), ("age", [])]) ∧
      (nameOrAge "equalTo" "gt" "<").Respelled (nameOrAge "===" ">" "lessThan") ∧
      buildFilter (some (.ofList [("name", ["eq"]), ("age", [])])) (nameOrAge "equalTo" "gt" "<") =
        .ok nameOrAgeGroup ∧
      buildFilter (some (.ofList [("name", ["=="]), ("age", [])]))
        (nameOrAge "===" ">" "lessThan") = .ok nameOrAgeGroup ∧
      Params.Respelled (agesWithout "in" "!=") (agesWithout "inList" "ne") ∧
      Params.toGroup (some (.ofList [("name", ["eq"]), ("age", [])])) (agesWithout "in" "!=") =
        .ok agesWithoutGroup ∧
      Params.toGroup (some (.ofList [("name", ["=="]), ("age", [])])) (agesWithout "inList" "ne") =
        .ok agesWithoutGroup := by
  have hlisted : Option.Rel Whitelist.RespelledEntries (some [("name", ["eq"]), ("age", [])])
      (some [("name", ["=="]), ("age", [])]) :=
    .some (.cons ⟨rfl, .cons rfl .nil⟩ (.cons ⟨rfl, .nil⟩ .nil))
  have hraw : (nameOrAge "equalTo" "gt" "<").Respelled (nameOrAge "===" ">" "lessThan") := by
    refine .group rfl (.cons (.members rfl (.cons (.leaf rfl ?_) (.cons (.map rfl rfl
      (.cons (.operators rfl ?_) .nil)) .nil))) .nil)
    · exact ⟨.cons ⟨rfl, rfl⟩ (.cons ⟨rfl, rfl⟩ .nil), by decide, by decide⟩
    · exact ⟨.cons ⟨rfl, rfl⟩ (.cons ⟨rfl, rfl⟩ .nil), by decide, by decide⟩
  have hparams : Params.Respelled (agesWithout "in" "!=") (agesWithout "inList" "ne") := by
    refine .cons (.operators rfl ?_) (.cons (.group rfl (.members (.cons (.member
      (.cons (.operators rfl ?_) .nil)) .nil))) .nil)
    · exact ⟨.cons ⟨rfl, rfl⟩ .nil, by decide, by decide⟩
    · exact ⟨.cons ⟨rfl, rfl⟩ .nil, by decide, by decide⟩
  obtain ⟨hbuild, hgroup⟩ := spelling_irrelevant hlisted
  exact ⟨hlisted, hraw, rfl, (hbuild _ _ hraw nameOrAgeGroup).mp rfl, hparams, rfl,
    (hgroup _ _ hparams agesWithoutGroup).mp rfl⟩

end RecordQuery
