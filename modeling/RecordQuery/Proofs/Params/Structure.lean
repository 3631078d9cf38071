import RecordQuery.Proofs.Filter.Acceptance
import RecordQuery.Proofs.Params.Fragments
/-!
# The structure of filter groups from parameters

Group keys of parameters stand inside one another, and so do the groups of the filter that the
parameters become. `Stands` relates an entry of parameters to its filter, constructor by constructor:
an attribute to the leaf of its operators, and a group key to the group whose one branch has a filter
for every entry of its members. Followed down a path of group keys this says which leaves stand in
which branch (`forall₂_leavesAt`).
-/

namespace RecordQuery.Params

/-! ## Operators -/

/-- How the value of an operator is read: a text for an operator on several values is split at the
delimiters and one for a range at the commas, and all values are typed. -/
inductive ReadOperator : String × Value → String × Value → Prop
  | listed {key s : String} {v typed : Value} : Operator.isListedSpelling key = true →
      v.text? = some s → (Value.ofTexts (splitValues s)).typed = .ok typed →
      ReadOperator (key, v) (key, typed)
  | range {key s : String} {v typed : Value} : Operator.ofSpelling? key = some .between →
      v.text? = some s →
      (Value.ofTexts ((Text.splitAt ',' s).map Text.trim)).typed = .ok typed →
      ReadOperator (key, v) (key, typed)
  | single {key s : String} {v typed : Value} : Operator.isListedSpelling key = false →
      Operator.ofSpelling? key ≠ some .between → v.text? = some s → typedText s = .ok typed →
      ReadOperator (key, v) (key, typed)
  | other {key : String} {v typed : Value} : v.text? = none → v.typed = .ok typed →
      ReadOperator (key, v) (key, typed)

theorem readOperator_of_operatorValue {key : String} {v typed : Value}
    (h : operatorValue key v = .ok typed) : ReadOperator (key, v) (key, typed) := by
  rw [operatorValue] at h
  cases htext : v.text? with
  | none =>
      rw [htext] at h
      exact .other htext h
  | some s =>
      simp only [htext, splitFor] at h
      cases hlisted : Operator.isListedSpelling key with
      | true =>
          rw [hlisted, if_pos rfl] at h
          exact .listed hlisted htext h
      | false =>
          rw [hlisted, if_neg Bool.false_ne_true] at h
          by_cases hrange : Operator.ofSpelling? key = some .between
          · rw [if_pos hrange] at h
            exact .range hrange htext h
          · rw [if_neg hrange] at h
            exact .single hlisted hrange htext h

/-- The operators of a map are read one by one. -/
theorem forall₂_readOperator {operators typed : Fields} (h : operatorValues operators = .ok typed) :
    List.Forall₂ ReadOperator operators typed := by
  induction operators generalizing typed with
  | nil =>
      obtain rfl := Except.ok.inj h
      exact .nil
  | cons field rest ih =>
      obtain ⟨key, value⟩ := field
      obtain ⟨first, hfirst, h⟩ := bind_eq_ok_iff.mp h
      obtain ⟨later, hlater, h⟩ := bind_eq_ok_iff.mp h
      obtain rfl := Except.ok.inj h
      exact .cons (readOperator_of_operatorValue hfirst) (ih hlater)

/-! ## Leaves -/

/-- The filter is what is built from an attribute of parameters on its own: from its name and the
operators that are read from its value. -/
def BuiltFrom (param : String × Value) (n : Node) : Prop :=
  ∃ operators, List.Forall₂ ReadOperator (operatorMap param.2) operators ∧
    buildNode none (.record (Fields.ofList ((FilterKey.name, .text param.1) :: operators))) = .ok n

/-- What is built from an attribute is a leaf. -/
theorem BuiltFrom.isLeaf {param : String × Value} {n : Node} (h : BuiltFrom param n) :
    n.name?.isSome = true := by
  obtain ⟨operators, -, hbuild⟩ := h
  obtain ⟨-, hleaf⟩ := attributeLeaf_of_buildAt (has_name_ofList _ operators) hbuild
  obtain ⟨name, -, -, hleaf⟩ := attributeLeaf_eq_ok_iff.mp hleaf
  obtain ⟨criteria, joiner, -, -, -, rfl⟩ := leafOf_eq_ok_iff.mp hleaf
  rfl

/-! ## Groups -/

/-- How an entry of parameters stands in the filter: an attribute as its leaf, and a group key as the
group without an identifier whose members, all of them in the branch of the key, stand for the entries
of its members one by one. -/
inductive Stands : String × Value → Node → Prop
  | leaf {param : String × Value} {n : Node} : Connective.ofWord? param.1 = none →
      BuiltFrom param n → Stands param n
  | group {branch : Connective} {value : Value} {members : List Node} :
      List.Forall₂ Stands (memberEntries value) members →
      Stands (branch.word, value) (Group.ofBranch branch members ⟨.null, .null⟩).toNode

/-- However and wherever a raw filter is built, the entry stands as what it is built to. -/
def StandsFor (param : String × Value) (f : Value) : Prop :=
  ∀ w place n, buildAt w place f = .ok n → Stands param n

theorem standsFor_attribute {name : String} {v f : Value} (hword : Connective.ofWord? name = none)
    (h : attributeFragment name v = .ok f) : StandsFor (name, v) f := by
  obtain ⟨operators, hoperators, h⟩ := bind_eq_ok_iff.mp h
  obtain rfl := Except.ok.inj h
  intro w place n hn
  obtain ⟨hattribute, hleaf⟩ := attributeLeaf_of_buildAt (has_name_ofList name operators) hn
  refine .leaf hword ⟨operators, forall₂_readOperator hoperators, ?_⟩
  rw [buildNode, buildAt_of_isAttributeFilter hattribute]
  exact attributeLeaf_ok_at hleaf rootPath

/-- Members stand for what their raw filters stand for. -/
theorem forall₂_stands {params : Fields} {fs : List Value} {members : List Node}
    {w : Option Whitelist} (h : List.Forall₂ StandsFor params fs)
    (hbuild : List.Forall₂ (fun f n => ∃ place, buildAt w place f = .ok n) fs members) :
    List.Forall₂ Stands params members := by
  induction h generalizing members with
  | nil =>
      cases hbuild
      exact .nil
  | cons hparam _ ih =>
      cases hbuild with
      | cons hn hrest =>
          obtain ⟨place, hn⟩ := hn
          exact .cons (hparam w place _ hn) (ih hrest)

theorem standsFor_group {branch : Connective} {value : Value} {fs : List Value}
    (h : List.Forall₂ StandsFor (memberEntries value) fs) :
    StandsFor (branch.word, value) (.record [(branch.word, .list fs)]) := by
  intro w place n hn
  have hgroup : (Value.record [(branch.word, .list fs)]).isGroupFilter = true := by
    cases branch <;> rfl
  have htag : Tag.ofFields [(branch.word, .list fs)] = ⟨.null, .null⟩ := by
    cases branch <;> rfl
  obtain ⟨g, hbranch, hid, hlabel, rfl⟩ := (buildAt_eq_ok_iff_of_isGroupFilter hgroup).mp hn
  have hothers : ∀ other, other ≠ branch → g.branch other = [] := by
    intro other hother
    obtain ⟨items, hitems, hbuild⟩ := forall₂_of_buildBranch (hbranch other)
    rw [branchItems?_cons_of_ne fun hword => hother (Connective.word_inj.mp hword).symm] at hitems
    obtain rfl : [] = items := Option.some.inj hitems
    exact List.forall₂_nil_left_iff.mp hbuild
  have hmembers : List.Forall₂ Stands (memberEntries value) (g.branch branch) := by
    obtain ⟨items, hitems, hbuild⟩ := forall₂_of_buildBranch (hbranch branch)
    rw [branchItems?_cons_self] at hitems
    obtain rfl : fs = items := Option.some.inj hitems
    exact forall₂_stands h hbuild
  rw [← ofBranch_branch hothers, hid, hlabel, htag]
  exact .group hmembers

/-! ## Paths -/

/-- The attributes among entries of parameters that are reached through a path of group keys, in
order. -/
def attributesAt : List Connective → Fields → Fields
  | [], params => params.filter fun param => !FilterKey.isBranch param.1
  | branch :: path, params =>
    attributesAt path (params.flatMap fun param =>
      if param.1 = branch.word then memberEntries param.2 else [])

/-- The members of a branch of a filter; a leaf has none. -/
def membersIn (branch : Connective) : Node → List Node
  | .leaf .. => []
  | .group ands ors nots id label => (Group.mk ands ors nots id label).branch branch

theorem membersIn_ofBranch (branch other : Connective) (members : List Node) (tag : Tag) :
    membersIn other (Group.ofBranch branch members tag).toNode =
      if branch = other then members else [] := by
  cases branch <;> cases other <;> rfl

/-- The leaves among filters that are reached through a path of branches, in order. -/
def leavesAt : List Connective → List Node → List Node
  | [], ns => ns.filter fun n => n.name?.isSome
  | branch :: path, ns => leavesAt path (ns.flatMap (membersIn branch))

/-- What stands in a branch of the filter of an entry stands for the members of the group key of that
branch. -/
theorem Stands.membersIn {param : String × Value} {n : Node} (h : Stands param n)
    (branch : Connective) :
    List.Forall₂ Stands (if param.1 = branch.word then memberEntries param.2 else [])
      (membersIn branch n) := by
  cases h with
  | leaf hword hbuilt =>
      have hother : param.1 ≠ branch.word := by
        rintro heq
        rw [heq, Connective.ofWord?_word] at hword
        exact absurd hword (by simp)
      rw [if_neg hother]
      cases n with
      | leaf => exact .nil
      | group => exact absurd hbuilt.isLeaf (by simp [Node.name?])
  | @group other value members hmembers =>
      simp only [membersIn_ofBranch, Connective.word_inj]
      split
      · exact hmembers
      · exact .nil

/-- Along every path the leaves are built from the attributes one by one. -/
theorem forall₂_leavesAt (path : List Connective) {params : Fields} {ns : List Node}
    (h : List.Forall₂ Stands params ns) :
    List.Forall₂ BuiltFrom (attributesAt path params) (leavesAt path ns) := by
  induction path generalizing params ns with
  | nil =>
      induction h with
      | nil => exact .nil
      | @cons param n _ _ hparam _ ih =>
          rw [attributesAt, leavesAt] at ih ⊢
          cases hparam with
          | leaf hword hbuilt =>
              have hbranch := FilterKey.isBranch_eq_false.mpr hword
              rw [List.filter_cons, List.filter_cons, if_pos (by rw [hbranch]; rfl),
                if_pos hbuilt.isLeaf]
              exact .cons hbuilt ih
          | @group branch value members hmembers =>
              rw [List.filter_cons, List.filter_cons,
                if_neg (by rw [FilterKey.isBranch_word]; decide),
                if_neg (by simp [Group.toNode, Node.name?])]
              exact ih
  | cons branch path ih =>
      exact ih (List.rel_flatMap h fun _ _ hparam => hparam.membersIn branch)

/-! ## Filter groups -/

/-- Each branch of the group of parameters has one filter for every entry that belongs to it, in
order. -/
theorem stands_of_toGroup {w : Option Whitelist} {parsed : Fields} {g : Group}
    (h : toGroup w parsed = .ok g) :
    g.id = .text groupId ∧ g.label = .null ∧
      ∀ branch, List.Forall₂ Stands (entriesFor branch parsed) (g.branch branch) := by
  obtain ⟨raw, hraw, h⟩ := bind_eq_ok_iff.mp h
  obtain ⟨n, hn, rfl⟩ := map_eq_ok_iff.mp (liftFilter_eq_ok_iff.mp h)
  obtain ⟨placed, hplaced, hraw⟩ := bind_eq_ok_iff.mp hraw
  obtain rfl := Except.ok.inj hraw
  obtain ⟨g, hbranch, hid, hlabel, rfl⟩ := (buildAt_eq_ok_iff_of_isGroupFilter rfl).mp hn
  rw [Group.ofNode_toNode]
  refine ⟨hid, hlabel, fun branch => ?_⟩
  obtain ⟨items, hitems, hbuild⟩ := forall₂_of_buildBranch (hbranch branch)
  have hmembers : items = (placed.filter fun entry => entry.1 = branch).map (·.2) := by
    cases branch <;> exact (Option.some.inj hitems).symm
  rw [hmembers] at hbuild
  exact forall₂_stands (forall₂_placedFragments (fun _ _ _ => standsFor_attribute)
    (fun _ _ _ => standsFor_group) hplaced branch) hbuild

/-- **Groups of parameters keep their structure.** When parameters become a filter group, each branch
has one filter for every entry that belongs to the branch, in order: leaves for attributes, and for
the group keys inside it groups that are made in the same way. So the leaves that are reached from a
branch through a path of branches are built, one by one and in order, from the attributes that are
reached through the same path of group keys, and there are no other leaves. -/
theorem toGroup_keeps_structure {w : Option Whitelist} {parsed : Fields} {g : Group}
    (h : toGroup w parsed = .ok g) :
    g.id = .text groupId ∧ g.label = .null ∧
      ∀ branch, List.Forall₂ Stands (entriesFor branch parsed) (g.branch branch) ∧
        ∀ path, List.Forall₂ BuiltFrom (attributesAt path (entriesFor branch parsed))
          (leavesAt path (g.branch branch)) := by
  obtain ⟨hid, hlabel, hstands⟩ := stands_of_toGroup h
  exact ⟨hid, hlabel, fun branch =>
    ⟨hstands branch, fun path => forall₂_leavesAt path (hstands branch)⟩⟩

/-- Parameters with attributes outside and inside of groups, and a negation inside a disjunction. -/
def nestedParams : Fields :=
  [("name", .text "Ada"),
    ("or", .list [
      .record [("age", .record [(">", .text "3")]),
        ("not", .record [("role", .record [("inList", .text "x,y")])])],
      .record [("since", .record [("><", .text "a, b")])]]),
    ("and", .record [("city", .text "Rome")])]

/-- The filter group of these parameters. -/
def nestedGroup : Group where
  ands := [.leaf "name" [(.equals, .text "Ada")] .and .null .null,
    .leaf "city" [(.equals, .text "Rome")] .and .null .null]
  ors := [.leaf "age" [(.greater, .int 3)] .and .null .null,
    .group [] [] [.leaf "role" [(.oneOf, .list [.text "x", .text "y"])] .and .null .null] .null .null,
    .leaf "since" [(.between, .tuple [.text "a", .text "b"])] .and .null .null]
  id := .text groupId

/-- The attribute inside the negation becomes the leaf inside the negation. -/
theorem nestedParams_keep_structure :
    toGroup none nestedParams = .ok nestedGroup ∧
      List.Forall₂ Stands (entriesFor .or nestedParams) nestedGroup.ors ∧
      attributesAt [.not] (entriesFor .or nestedParams) =
        [("role", .record [("inList", .text "x,y")])] ∧
      leavesAt [.not] nestedGroup.ors =
        [.leaf "role" [(.oneOf, .list [.text "x", .text "y"])] .and .null .null] ∧
      List.Forall₂ BuiltFrom (attributesAt [.not] (entriesFor .or nestedParams))
        (leavesAt [.not] nestedGroup.ors) := by
  have hgroup : toGroup none nestedParams = .ok nestedGroup := rfl
  obtain ⟨-, -, hbranches⟩ := toGroup_keeps_structure hgroup
  obtain ⟨hstands, hpaths⟩ := hbranches .or
  exact ⟨hgroup, hstands, rfl, rfl, hpaths [.not]⟩

end RecordQuery.Params
