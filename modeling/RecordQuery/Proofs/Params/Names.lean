import RecordQuery.Proofs.Params.Structure
import RecordQuery.Proofs.Value.Typing
/-!
# The names of leaves

The filter of an attribute is a record that begins with the field for the name, and the operators are
written over it. An operator that is spelled like that field therefore names the leaf in place of the
attribute. `BuiltFrom.name?_eq` says which name a leaf has, and `names_kept_iff` that the leaves at the
end of a path of branches have the names of their attributes exactly when no operator of these
attributes says otherwise.
-/

namespace RecordQuery

/-! ## Related records -/

/-- Records whose fields are related one by one, and have equal names then, have related values at
every name. -/
theorem Fields.rel_get? {α β : Type} {R : String × α → String × β → Prop}
    (hR : ∀ field result, R field result → field.1 = result.1) {fields : List (String × α)}
    {results : List (String × β)} (h : List.Forall₂ R fields results) (key : String) :
    Option.Rel (fun a b => R (key, a) (key, b)) (get? fields key) (get? results key) := by
  induction h with
  | nil => exact .none
  | @cons field result _ _ hfield _ ih =>
      obtain ⟨name, a⟩ := field
      obtain ⟨other, b⟩ := result
      obtain rfl : name = other := hR _ _ hfield
      rw [get?_cons, get?_cons]
      by_cases hkey : key = name
      · subst hkey
        rw [if_pos rfl, if_pos rfl]
        exact .some hfield
      · rw [if_neg hkey, if_neg hkey]
        exact ih

/-- What has been set last counts. -/
theorem Fields.get?_foldl_set {α : Type} (fields done : List (String × α)) (key : String) :
    get? (fields.foldl (fun fs field => set fs field.1 field.2) done) key =
      (get? fields.reverse key).or (get? done key) := by
  induction fields generalizing done with
  | nil => rfl
  | cons field rest ih =>
      rw [List.foldl_cons, ih, List.reverse_cons, get?_append, Option.or_assoc, get?_cons]
      by_cases hkey : key = field.1
      · rw [if_pos hkey, hkey, get?_set_self, Option.some_or]
      · rw [if_neg hkey, get?_set_of_ne done field.2 hkey, get?_nil, Option.none_or]

namespace Params

/-! ## Leaves -/

/-- What operators have in the field for the name, the last one counting. -/
def nameAmong (operators : Fields) : Option Value :=
  Fields.get? operators.reverse FilterKey.name

/-- The name that the leaf of an attribute gets. -/
def leafName (param : String × Value) : Option String :=
  match nameAmong (operatorMap param.2) with
  | some v => v.text?
  | none => some param.1

/-- Reading an operator keeps its spelling. -/
theorem ReadOperator.key_eq {first second : String × Value} (h : ReadOperator first second) :
    first.1 = second.1 := by
  cases h <;> rfl

/-- The field for the name takes one value, which is typed as it is. -/
theorem typed_of_readOperator_name {v typed : Value}
    (h : ReadOperator (FilterKey.name, v) (FilterKey.name, typed)) : v.typed = .ok typed := by
  cases h with
  | listed hlisted => exact absurd hlisted (by decide)
  | range hrange => exact absurd hrange (by decide)
  | single _ _ htext htyped =>
      rw [← htyped]
      cases v <;> simp_all [Value.typed, Value.text?]
  | other _ htyped => exact htyped

/-- The leaf of an attribute is named after it, unless an operator names the leaf. -/
theorem BuiltFrom.name?_eq {param : String × Value} {n : Node} (h : BuiltFrom param n) :
    n.name? = leafName param := by
  obtain ⟨operators, hread, hbuild⟩ := h
  obtain ⟨-, hleaf⟩ := attributeLeaf_of_buildAt (has_name_ofList _ operators) hbuild
  obtain ⟨name, hname, -, hleaf⟩ := attributeLeaf_eq_ok_iff.mp hleaf
  obtain ⟨criteria, joiner, -, -, -, rfl⟩ := leafOf_eq_ok_iff.mp hleaf
  rw [Fields.ofList, List.foldl_cons, Fields.get?_foldl_set] at hname
  have hrel := Fields.rel_get? (fun _ _ => ReadOperator.key_eq)
    (List.forall₂_reverse_iff.mpr hread) FilterKey.name
  rw [Node.name?, leafName, nameAmong]
  generalize Fields.get? (operatorMap param.2).reverse FilterKey.name = said at hrel ⊢
  generalize Fields.get? operators.reverse FilterKey.name = read at hrel hname
  cases hrel with
  | none => exact hname.symm
  | some hv => exact (Value.text?_of_typed (typed_of_readOperator_name hv) hname).symm

/-- What operators say about the name, if anything, is the name of the attribute. -/
def KeepsName (param : String × Value) : Prop :=
  ∀ v, nameAmong (operatorMap param.2) = some v → v.text? = some param.1

theorem leafName_eq_iff {param : String × Value} : leafName param = some param.1 ↔ KeepsName param := by
  rw [leafName, KeepsName]
  cases nameAmong (operatorMap param.2) with
  | none => simp
  | some v => simp

/-! ## Filter groups -/

/-- **Leaves are named after their attributes unless an operator names them.** Along every path of
branches the leaves of the group of parameters have, in order, the names that the attributes along the
path of group keys and their operators give; these are the names of the attributes exactly when each
of them keeps its name. -/
theorem names_kept_iff {w : Option Whitelist} {parsed : Fields} {g : Group}
    (h : toGroup w parsed = .ok g) (branch : Connective) (path : List Connective) :
    (leavesAt path (g.branch branch)).map Node.name? =
        (attributesAt path (entriesFor branch parsed)).map leafName ∧
      ((leavesAt path (g.branch branch)).map Node.name? =
          (attributesAt path (entriesFor branch parsed)).map (fun param => some param.1) ↔
        ∀ param ∈ attributesAt path (entriesFor branch parsed), KeepsName param) := by
  obtain ⟨-, -, hstands⟩ := stands_of_toGroup h
  have hnames : (leavesAt path (g.branch branch)).map Node.name? =
      (attributesAt path (entriesFor branch parsed)).map leafName :=
    (map_eq_map_of_forall₂ (fun _ _ hbuilt => hbuilt.name?_eq.symm)
      (forall₂_leavesAt path (hstands branch))).symm
  refine ⟨hnames, ?_⟩
  rw [hnames, List.map_inj_left]
  exact forall₂_congr fun _ _ => leafName_eq_iff

/-- A parameter with an operator that is spelled like the field for the name. -/
def namingParams (target : String) : Fields :=
  [("name", .record [("attribute", .text target), ("eq", .text "1")])]

/-- The filter group of this parameter. -/
def namedGroup (target : String) : Group where
  ands := [.leaf target [(.equals, .int 1)] .and .null .null]
  id := .text groupId

/-- The leaf is named after its attribute when the operator repeats the name. -/
theorem repeated_name_kept :
    toGroup none (namingParams "name") = .ok (namedGroup "name") ∧
      (∀ param ∈ attributesAt [] (entriesFor .and (namingParams "name")), KeepsName param) ∧
      (leavesAt [] ((namedGroup "name").branch .and)).map Node.name? =
        (attributesAt [] (entriesFor .and (namingParams "name"))).map (fun param => some param.1) := by
  have hgroup : toGroup none (namingParams "name") = .ok (namedGroup "name") := rfl
  have hkeeps : ∀ param ∈ attributesAt [] (entriesFor .and (namingParams "name")),
      KeepsName param := by
    intro param hparam
    obtain rfl := List.mem_singleton.mp hparam
    intro v hv
    obtain rfl := Option.some.inj hv
    rfl
  exact ⟨hgroup, hkeeps, (names_kept_iff hgroup .and []).2.mpr hkeeps⟩

/-- The leaf is on another attribute when the operator names another one. -/
theorem other_name_taken :
    toGroup none (namingParams "secret") = .ok (namedGroup "secret") ∧
      (leavesAt [] ((namedGroup "secret").branch .and)).map Node.name? = [some "secret"] ∧
      (attributesAt [] (entriesFor .and (namingParams "secret"))).map (fun param => some param.1) =
        [some "name"] :=
  ⟨rfl, rfl, rfl⟩

end Params

end RecordQuery
