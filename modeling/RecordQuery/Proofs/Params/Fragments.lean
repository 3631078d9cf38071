import RecordQuery.Params.Group
import RecordQuery.Proofs.Fields
import RecordQuery.Proofs.Filter.Descent
import RecordQuery.Proofs.Outcome
/-!
# Filters that parameters stand for

Parameters in nested form stand for filters on one attribute, and for groups of such filters where
group keys stand inside one another. Entry for entry there is one filter: `forall₂_groupFragments` and
`forall₂_placedFragments` are the induction that relates the entries to their filters.
-/

namespace RecordQuery.Params

/-! ## Entry by entry -/

/-- The filter that an entry of a group member stands for. -/
def fieldFragment (key : String) (value : Value) : Except Error Value :=
  if FilterKey.isBranch key then
    (groupFragments key value).map fun members => .record [(key, .list members)]
  else liftFault (attributeFragment key value)

theorem fieldFragments_cons (key : String) (value : Value) (rest : Fields) :
    fieldFragments ((key, value) :: rest) = do
      let here ← fieldFragment key value
      let later ← fieldFragments rest
      return here :: later := by
  rw [fieldFragments, fieldFragment]
  cases FilterKey.isBranch key <;> rfl

/-- The filters that a parameter stands for, each with the branch that it belongs to. -/
def placedFragment (key : String) (value : Value) : Except Error (List (Connective × Value)) :=
  match Connective.ofWord? key with
  | some branch => (groupFragments key value).map (·.map (branch, ·))
  | none => (liftFault (attributeFragment key value)).map fun fragment => [(.and, fragment)]

theorem placedFragments_cons (key : String) (value : Value) (rest : Fields) :
    placedFragments ((key, value) :: rest) = do
      let here ← placedFragment key value
      let later ← placedFragments rest
      return here ++ later := by
  rw [placedFragments, placedFragment]
  cases Connective.ofWord? key <;> rfl

/-! ## Entries of groups -/

/-- The entries of the members of a group key, one member after the other. -/
def memberEntries : Value → Fields
  | .record fields => fields
  | .list items => items.flatMap fun item => item.record?.getD []
  | _ => []

/-- The entries of parameters that belong to a branch: those of the members of its group key and, in
the conjunction, the attributes. -/
def entriesFor (branch : Connective) (parsed : Fields) : Fields :=
  parsed.flatMap fun param =>
    match Connective.ofWord? param.1 with
    | some other => if other = branch then memberEntries param.2 else []
    | none => if branch = .and then [param] else []

/-! ## Induction over the filters -/

section

variable {R : String × Value → Value → Prop}
  (hattribute : ∀ name v f, Connective.ofWord? name = none → attributeFragment name v = .ok f →
    R (name, v) f)
  (hgroup : ∀ (branch : Connective) (v : Value) (members : List Value),
    List.Forall₂ R (memberEntries v) members →
    R (branch.word, v) (.record [(branch.word, .list members)]))

include hattribute hgroup

/-- An entry is related to its filter when what the value of a group key stands for is related to the
entries of its members. -/
theorem related_fieldFragment {key : String} {value f : Value}
    (hvalue : ∀ fs, groupFragments key value = .ok fs → List.Forall₂ R (memberEntries value) fs)
    (h : fieldFragment key value = .ok f) : R (key, value) f := by
  rw [fieldFragment] at h
  split at h
  · next hkey =>
      obtain ⟨branch, hbranch⟩ := Option.isSome_iff_exists.mp hkey
      obtain rfl := Connective.word_of_ofWord? hbranch
      obtain ⟨members, hmembers, rfl⟩ := map_eq_ok_iff.mp h
      exact hgroup branch value members (hvalue members hmembers)
  · next hkey =>
      have hword : Connective.ofWord? key = none := by
        rwa [Bool.not_eq_true, FilterKey.isBranch_eq_false] at hkey
      exact hattribute key value f hword (liftFault_eq_ok_iff.mp h)

/-- Entries of a group member are related to their filters one by one when the values of group keys
are. -/
theorem forall₂_fieldFragments {fields : Fields}
    (hvalues : ∀ field ∈ fields, ∀ word fs, groupFragments word field.2 = .ok fs →
      List.Forall₂ R (memberEntries field.2) fs)
    {fs : List Value} (h : fieldFragments fields = .ok fs) : List.Forall₂ R fields fs := by
  induction fields generalizing fs with
  | nil =>
      obtain rfl := Except.ok.inj h
      exact .nil
  | cons field rest ih =>
      obtain ⟨key, value⟩ := field
      rw [List.forall_mem_cons] at hvalues
      rw [fieldFragments_cons] at h
      obtain ⟨here, hhere, h⟩ := bind_eq_ok_iff.mp h
      obtain ⟨later, hlater, h⟩ := bind_eq_ok_iff.mp h
      obtain rfl := Except.ok.inj h
      exact .cons (related_fieldFragment hattribute hgroup (hvalues.1 key) hhere)
        (ih hvalues.2 hlater)

/-- What relates attributes to their filters, and group keys to groups of filters that are related to
the entries of their members, relates the entries of the members of a group key to the filters that
its value stands for. -/
theorem forall₂_groupFragments {word : String} {v : Value} {fs : List Value}
    (h : groupFragments word v = .ok fs) : List.Forall₂ R (memberEntries v) fs := by
  induction v using Value.partInduction generalizing word fs with
  | list items ih =>
      rw [groupFragments] at h
      rw [memberEntries]
      induction items generalizing fs with
      | nil =>
          obtain rfl := Except.ok.inj h
          exact .nil
      | cons item rest ihrest =>
          rw [List.forall_mem_cons] at ih
          cases item with
          | record fields =>
              rw [memberFragments] at h
              obtain ⟨here, hhere, h⟩ := bind_eq_ok_iff.mp h
              obtain ⟨later, hlater, h⟩ := bind_eq_ok_iff.mp h
              obtain rfl := Except.ok.inj h
              rw [List.flatMap_cons]
              exact List.rel_append (@ih.1 word here hhere) (ihrest ih.2 hlater)
          | null | bool | int | float | text | list | tuple | moment | connective | node
          | deferred => exact absurd h (by simp [memberFragments])
  | record fields ih =>
      rw [groupFragments] at h
      exact forall₂_fieldFragments hattribute hgroup (fun field hfield word fs => ih field hfield) h
  | tuple | deferred => exact absurd h (by simp [groupFragments])
  | other v hitems hrecord =>
      cases v with
      | list => exact absurd hitems (by simp [Value.items?])
      | record => exact absurd hrecord (by simp [Value.record?])
      | null | bool | int | float | text | tuple | moment | connective | node | deferred =>
          exact absurd h (by simp [groupFragments])

/-- It relates the entries of parameters that belong to a branch to the filters that stand in it. -/
theorem forall₂_placedFragments {parsed : Fields} {placed : List (Connective × Value)}
    (h : placedFragments parsed = .ok placed) (branch : Connective) :
    List.Forall₂ R (entriesFor branch parsed)
      ((placed.filter fun entry => entry.1 = branch).map (·.2)) := by
  induction parsed generalizing placed with
  | nil =>
      obtain rfl := Except.ok.inj h
      exact .nil
  | cons param rest ih =>
      obtain ⟨key, value⟩ := param
      rw [placedFragments_cons] at h
      obtain ⟨here, hhere, h⟩ := bind_eq_ok_iff.mp h
      obtain ⟨later, hlater, h⟩ := bind_eq_ok_iff.mp h
      obtain rfl := Except.ok.inj h
      rw [entriesFor, List.flatMap_cons, List.filter_append, List.map_append]
      refine List.rel_append ?_ (ih hlater)
      rw [placedFragment] at hhere
      cases hword : Connective.ofWord? key with
      | some other =>
          rw [hword] at hhere
          obtain ⟨fs, hfs, rfl⟩ := map_eq_ok_iff.mp hhere
          by_cases hother : other = branch
          · simpa [hother, List.filter_map, Function.comp_def] using
              forall₂_groupFragments hattribute hgroup hfs
          · simp [hother, List.filter_map, Function.comp_def]
      | none =>
          rw [hword] at hhere
          obtain ⟨f, hf, rfl⟩ := map_eq_ok_iff.mp hhere
          cases branch with
          | and => simpa using hattribute key value f hword (liftFault_eq_ok_iff.mp hf)
          | or => simp
          | not => simp

end

/-- What holds of the filters that attributes stand for, and of groups of filters of which it holds,
holds of the filters that parameters stand for in any branch. -/
theorem forall_placedFragments {P : Value → Prop}
    (hattribute : ∀ name v f, attributeFragment name v = .ok f → P f)
    (hgroup : ∀ key members, FilterKey.isBranch key = true → (∀ f ∈ members, P f) →
      P (.record [(key, .list members)]))
    {parsed : Fields} {placed : List (Connective × Value)}
    (h : placedFragments parsed = .ok placed) : ∀ entry ∈ placed, P entry.2 := by
  rintro ⟨branch, f⟩ hentry
  have hmem : f ∈ (placed.filter fun entry => entry.1 = branch).map (·.2) :=
    List.mem_map.mpr ⟨(branch, f), List.mem_filter.mpr ⟨hentry, decide_eq_true rfl⟩, rfl⟩
  refine (exists_mem_of_forall₂ (forall₂_placedFragments (R := fun _ f => P f) ?_ ?_ h branch)
    hmem).elim fun _ hf => hf.2
  · intro name v f _ hf
    exact hattribute name v f hf
  · intro branch v members hmembers
    exact hgroup branch.word members (FilterKey.isBranch_word branch) fun f hf =>
      (exists_mem_of_forall₂ hmembers hf).elim fun _ h => h.2

/-- A record that is written over one with a name has a name. -/
theorem has_name_ofList (name : String) (operators : Fields) :
    Fields.has (Fields.ofList ((FilterKey.name, .text name) :: operators)) FilterKey.name = true := by
  -- the name is the first field set, and none that is set later removes it
  have hname : FilterKey.name ∈ Fields.keys (operators.foldl
      (fun fields field => Fields.set fields field.1 field.2) [(FilterKey.name, .text name)]) :=
    Fields.mem_keys_foldl_set List.mem_cons_self
  exact Fields.has_iff.mpr (Fields.mem_keys.mp hname)

/-- An attribute of parameters stands for a record with its name. -/
theorem has_of_attributeFragment {name : String} {v f : Value} (h : attributeFragment name v = .ok f) :
    ∃ fields, f = .record fields ∧ Fields.has fields FilterKey.name = true := by
  obtain ⟨operators, -, h⟩ := bind_eq_ok_iff.mp h
  exact ⟨_, (Except.ok.inj h).symm, has_name_ofList name operators⟩

end RecordQuery.Params
