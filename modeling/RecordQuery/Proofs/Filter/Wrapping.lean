import Mathlib.Logic.Relation
import RecordQuery.Proofs.Filter.Embedding
import RecordQuery.Proofs.Filter.Spelling
/-!
# Values put in literal envelopes

A value of a raw filter that is no envelope may be put in a literal one: the whole value of an
operator, an item of an operator on several values, or an end of a range. `Value.WrappedOnce` is one
such step, with a limit on the literal envelopes that stand around a list of items already. The
builder sees the same shapes before and after it and reads the same operators, with values that
differ by the envelope. So the two filters that are built are related by every relation that respects
such values (`Value.WrappedOnce.alike_buildAt`).
-/

namespace RecordQuery

/-! ## Steps -/

/-- The second value is a literal envelope around the first one, which is no envelope. -/
inductive Value.Wrapped : Value → Value → Prop
  | intro {v : Value} {fields : Fields} : v.envelope? = none → Fields.get? fields "val" = some v →
      (Value.record fields).kind = .literal → Wrapped v (.record fields)

/-- The item at an index counts for the operator: all items do for an operator on several values, and
the first two for a range. -/
def Operator.Counts (op : Operator) (index : Nat) : Prop :=
  op.isListed = true ∨ op = .between ∧ index < 2

/-- One item of a list, or one end of a range, is put in an envelope. -/
inductive Operator.PartWrapped (op : Operator) : Value → Value → Prop
  | item {make : List Value → Value} {before after : List Value} {v v' : Value} :
      make = .list ∨ make = .tuple → op.Counts before.length → v.Wrapped v' →
      PartWrapped op (make (before ++ v :: after)) (make (before ++ v' :: after))
  | bound {fields : Fields} {key : String} {v v' : Value} :
      op = .between → (Value.record fields).envelope? = none → key = "from" ∨ key = "to" →
      Fields.get? fields key = some v → v.Wrapped v' →
      PartWrapped op (.record fields) (.record (Fields.set fields key v'))

/-- Two values in the same literal envelopes, so many one inside the other, with contents that are
related. -/
inductive Value.InLiterals (R : Value → Value → Prop) : Nat → Value → Value → Prop
  | here {v v' : Value} : R v v' → InLiterals R 0 v v'
  | inside {depth : Nat} {fields : Fields} {content content' : Value} :
      Fields.get? fields "val" = some content → (Value.record fields).kind = .literal →
      InLiterals R depth content content' →
      InLiterals R (depth + 1) (.record fields) (.record (Fields.set fields "val" content'))

/-- The value of an operator is put in an envelope as a whole, or a part of it is, inside literal
envelopes. There are at most so many of these around the items of an operator on several values. -/
def Operator.OperandWrapped (op : Operator) (limit : Nat) (v v' : Value) : Prop :=
  v.Wrapped v' ∨ ∃ depth, Value.InLiterals op.PartWrapped depth v v' ∧
    (op.isListed = true → depth ≤ limit)

/-- The value of one operator in an operator map, or a part of it, is put in an envelope. -/
inductive Fields.Wrapped (limit : Nat) : Fields → Fields → Prop
  | intro {before after : Fields} {key : String} {op : Operator} {v v' : Value} :
      Operator.ofSpelling? key = some op → op.OperandWrapped limit v v' →
      Wrapped limit (before ++ (key, v) :: after) (before ++ (key, v') :: after)

/-- One value in a raw filter is put in an envelope: in a filter on one attribute, in the operator map
of an attribute, or in a member of a group. -/
inductive Value.WrappedOnce (limit : Nat) : Value → Value → Prop
  | leaf {fields fields' : Fields} : (Value.record fields).isAttributeFilter = true →
      Fields.Wrapped limit fields fields' → WrappedOnce limit (.record fields) (.record fields')
  | map {before after inner inner' : Fields} {name : String} :
      (Value.record (before ++ (name, .record inner) :: after)).isEntityFilter = true →
      FilterKey.isMapMetadata name (.record inner) = false → Fields.Wrapped limit inner inner' →
      WrappedOnce limit (.record (before ++ (name, .record inner) :: after))
        (.record (before ++ (name, .record inner') :: after))
  | member {fields : Fields} {branch : Connective} {before after : List Value} {item item' : Value} :
      (Value.record fields).isGroupFilter = true →
      Fields.get? fields branch.word = some (.list (before ++ item :: after)) →
      WrappedOnce limit item item' →
      WrappedOnce limit (.record fields)
        (.record (Fields.set fields branch.word (.list (before ++ item' :: after))))

/-- Values of a raw filter are put in envelopes, any number of them one after the other. -/
def Value.Rewrapped (limit : Nat) : Value → Value → Prop :=
  Relation.ReflTransGen (Value.WrappedOnce limit)

/-! ## Shaped values -/

/-- The second value is the first one, or a literal envelope around it. -/
def Value.SameOrWrapped (v v' : Value) : Prop :=
  v = v' ∨ v.Wrapped v'

/-- Ranges whose ends differ by envelopes. -/
def RangeAlike (range range' : Value × Value) : Prop :=
  range.1.SameOrWrapped range'.1 ∧ range.2.SameOrWrapped range'.2

/-- Lists of items and pairs of ends that differ by envelopes around items and ends. -/
inductive Operator.PartsAlike (op : Operator) : Value → Value → Prop
  | items {items items' : List Value} : op.isListed = true →
      List.Forall₂ Value.SameOrWrapped items items' → PartsAlike op (.list items) (.list items')
  | range {range range' : Value × Value} : op = .between → RangeAlike range range' →
      PartsAlike op (.ofRange range) (.ofRange range')

/-- Shaped values of an operator that differ by an envelope around them, or around parts of what is in
literal envelopes, with the limit for the items of an operator on several values. -/
def Operator.OperandAlike (op : Operator) (limit : Nat) (v v' : Value) : Prop :=
  v.SameOrWrapped v' ∨ ∃ depth, Value.InLiterals op.PartsAlike depth v v' ∧
    (op.isListed = true → depth ≤ limit)

/-- Criteria of one operator with values that differ by envelopes. -/
def CriterionAlike (limit : Nat) (first second : Operator × Value) : Prop :=
  first.1 = second.1 ∧ first.1.OperandAlike limit first.2 second.2

section

variable {op : Operator} {v v' : Value}

/-- What is put in an envelope as a whole is shaped in the envelope. -/
theorem Value.Wrapped.alike_shapeValue (h : v.Wrapped v') :
    Alike AnyErrors Value.Wrapped (shapeValue op v) (shapeValue op v') := by
  obtain ⟨henv, hval, hkind⟩ := h
  rw [shapeValue_literal hval hkind, shapeValue_of_not_envelope henv]
  cases hshaped : shapeBare op v with
  | error e => exact .failed
  | ok shaped =>
      refine .ok (.intro (not_envelope_of_shapeBare henv hshaped) (Fields.get?_set_self _ _ _) ?_)
      exact (kind_set_val hval shaped).trans hkind

/-- A range keeps its ends when an item of its list is put in an envelope. -/
theorem Value.Wrapped.alike_toRange (h : v.Wrapped v') {make : List Value → Value}
    (hmake : make = .list ∨ make = .tuple) {before after : List Value} (hindex : before.length < 2) :
    Alike AnyErrors RangeAlike
      (make (before ++ v :: after)).toRange (make (before ++ v' :: after)).toRange := by
  match before, hindex with
  | [], _ =>
      cases after with
      | nil => rcases hmake with rfl | rfl <;> exact .failed
      | cons high rest => rcases hmake with rfl | rfl <;> exact .ok ⟨.inr h, .inl rfl⟩
  | [low], _ => rcases hmake with rfl | rfl <;> exact .ok ⟨.inl rfl, .inr h⟩

/-- So it does when the value of a field is. -/
theorem Value.Wrapped.alike_toRange_set (h : v.Wrapped v') {fields : Fields} {key : String}
    (hkey : key = "from" ∨ key = "to") (hget : Fields.get? fields key = some v) :
    Alike AnyErrors RangeAlike (record fields).toRange
      (record (Fields.set fields key v')).toRange := by
  rw [toRange, toRange]
  rcases hkey with rfl | rfl
  · rw [Fields.get?_set_self, Fields.get?_set_of_ne fields v' (by decide : "to" ≠ "from"), hget]
    cases Fields.get? fields "to" with
    | none => exact .failed
    | some high => exact .ok ⟨.inr h, .inl rfl⟩
  · rw [Fields.get?_set_self, Fields.get?_set_of_ne fields v' (by decide : "from" ≠ "to"), hget]
    cases Fields.get? fields "from" with
    | none => exact .failed
    | some low => exact .ok ⟨.inl rfl, .inr h⟩

/-- Neither value of such a step is an envelope. -/
theorem Operator.PartWrapped.not_envelope (h : op.PartWrapped v v') :
    v.envelope? = none ∧ v'.envelope? = none := by
  cases h with
  | item hmake => rcases hmake with rfl | rfl <;> exact ⟨rfl, rfl⟩
  | @bound fields key _ v' _ henv hkey =>
      refine ⟨henv, ?_⟩
      have hne : "val" ≠ key := by rcases hkey with rfl | rfl <;> decide
      rw [Value.envelope?, Fields.get?_set_of_ne fields v' hne]
      rw [Value.envelope?, Option.map_eq_none_iff] at henv
      rw [henv]
      rfl

/-- Parts that are put in envelopes stay parts of what is shaped. -/
theorem Operator.PartWrapped.alike_shapeBare (h : op.PartWrapped v v') :
    Alike AnyErrors op.PartsAlike (shapeBare op v) (shapeBare op v') := by
  cases h with
  | @item make before after v v' hmake hcounts hwrapped =>
      rcases hcounts with hlisted | ⟨rfl, hindex⟩
      · have hitems : ∀ items, (make items).toItems = items := by
          intro items
          rcases hmake with rfl | rfl <;> rfl
        rw [shapeBare_of_isListed hlisted, shapeBare_of_isListed hlisted, hitems, hitems]
        refine .ok (.items hlisted (List.rel_append ?_ (.cons (.inr hwrapped) ?_)))
        · exact List.forall₂_same.mpr fun _ _ => .inl rfl
        · exact List.forall₂_same.mpr fun _ _ => .inl rfl
      · rw [shapeBare_between, shapeBare_between]
        exact (hwrapped.alike_toRange hmake hindex).map fun _ _ => .range rfl
  | bound hop _ hkey hget hwrapped =>
      subst hop
      rw [shapeBare_between, shapeBare_between]
      exact (hwrapped.alike_toRange_set hkey hget).map fun _ _ => .range rfl

/-- The literal envelopes around them stay too. -/
theorem Value.InLiterals.alike_shapeValue {depth : Nat}
    (h : Value.InLiterals op.PartWrapped depth v v') :
    Alike AnyErrors (Value.InLiterals op.PartsAlike depth) (shapeValue op v) (shapeValue op v') := by
  induction h with
  | here hpart =>
      rw [shapeValue_of_not_envelope hpart.not_envelope.1,
        shapeValue_of_not_envelope hpart.not_envelope.2]
      exact hpart.alike_shapeBare.imp fun _ _ => .here
  | @inside depth fields content content' hval hkind _ ih =>
      have hkind' := (Value.kind_set_val hval content').trans hkind
      rw [shapeValue_literal hval hkind,
        shapeValue_literal (Fields.get?_set_self fields "val" content') hkind']
      refine ih.map fun shaped shaped' hshaped => ?_
      rw [Fields.set_set, ← Fields.set_set fields "val" shaped shaped']
      exact .inside (Fields.get?_set_self fields "val" shaped)
        ((Value.kind_set_val hval shaped).trans hkind) hshaped

theorem Operator.OperandWrapped.alike_shapeValue {limit : Nat} (h : op.OperandWrapped limit v v') :
    Alike AnyErrors (op.OperandAlike limit) (shapeValue op v) (shapeValue op v') := by
  rcases h with hwhole | ⟨depth, hpart, hlimit⟩
  · exact hwhole.alike_shapeValue.imp fun _ _ hwrapped => .inl (.inr hwrapped)
  · exact hpart.alike_shapeValue.imp fun _ _ hinside => .inr ⟨depth, hinside, hlimit⟩

end

/-! ## Operator maps -/

/-- Criteria are alike to themselves. -/
theorem forall₂_criterionAlike_self (limit : Nat) (criteria : Criteria) :
    List.Forall₂ (CriterionAlike limit) criteria criteria :=
  List.forall₂_same.mpr fun _ _ => ⟨rfl, .inl (.inl rfl)⟩

namespace Fields.Wrapped

variable {w : Option Whitelist} {name path : String} {limit : Nat} {fields fields' : Fields}

/-- What spells no operator has the same value before and after. -/
theorem get?_eq (h : Fields.Wrapped limit fields fields') {key : String}
    (hkey : Operator.ofSpelling? key = none) : get? fields key = get? fields' key := by
  obtain ⟨hop, -⟩ := h
  apply get?_replace
  rintro rfl
  rw [hkey] at hop
  exact absurd hop (by simp)

theorem isCriteria_eq (h : Fields.Wrapped limit fields fields') :
    (Value.record fields).isCriteria = (Value.record fields').isCriteria := by
  obtain ⟨-, -⟩ := h
  simp only [Value.isCriteria, List.any_append, List.any_cons]

theorem isAttributeFilter_eq (h : Fields.Wrapped limit fields fields') :
    (Value.record fields).isAttributeFilter = (Value.record fields').isAttributeFilter := by
  rw [Value.isAttributeFilter, Value.isAttributeFilter, h.isCriteria_eq, has, has,
    h.get?_eq (by decide)]

/-- The same criteria are read, with values that differ by envelopes. -/
theorem alike_criteriaAfter (h : Fields.Wrapped limit fields fields')
    (seen : List (Operator × String)) :
    Alike AnyErrors (List.Forall₂ (CriterionAlike limit)) (criteriaAfter w name path seen fields)
      (criteriaAfter w name path seen fields') := by
  obtain @⟨before, after, key, op, v, v', hop, hv⟩ := h
  induction before generalizing seen with
  | nil =>
      have hkey := FilterKey.isCriterion_of_spelling hop
      rw [List.nil_append, List.nil_append, criteriaAfter, criteriaAfter, if_pos hkey, if_pos hkey]
      dsimp only
      rw [Operator.ofKey_eq_ok_iff.mpr hop, ok_bind, ok_bind]
      cases seen.lookup op with
      | some first => exact .failed
      | none =>
          refine (Alike.same _).bind_eq fun _ => ?_
          refine hv.alike_shapeValue.bind fun shaped shaped' hshaped => ?_
          refine (Alike.same _).bind_eq fun later => ?_
          exact .ok (.cons ⟨rfl, hshaped⟩ (forall₂_criterionAlike_self limit later))
  | cons field rest ih =>
      obtain ⟨first, value⟩ := field
      rw [List.cons_append, List.cons_append, criteriaAfter, criteriaAfter]
      cases FilterKey.isCriterion first with
      | false => exact ih seen
      | true =>
          rw [if_pos rfl, if_pos rfl]
          refine (Alike.same _).bind_eq fun found => ?_
          cases seen.lookup found with
          | some spelling => exact .failed
          | none =>
              refine (Alike.same _).bind_eq fun _ => ?_
              refine (Alike.same _).bind_eq fun shaped => ?_
              refine (ih ((found, first) :: seen)).bind fun later later' hlater => ?_
              exact .ok (.cons ⟨rfl, .inl (.inl rfl)⟩ hlater)

end Fields.Wrapped

/-! ## Relations of built filters -/

/-- A relation of built filters that respects values in envelopes: leaves are related when their
criteria are alike, and groups when their members are related. -/
structure Node.Respects (limit : Nat) (R : Node → Node → Prop) : Prop where
  refl : ∀ n, R n n
  leaf : ∀ name joiner id label criteria criteria',
    List.Forall₂ (CriterionAlike limit) criteria criteria' →
    R (.leaf name criteria joiner id label) (.leaf name criteria' joiner id label)
  group : ∀ g g' : Group, g.id = g'.id → g.label = g'.label →
    (∀ branch, List.Forall₂ R (g.branch branch) (g'.branch branch)) → R g.toNode g'.toNode

section

variable {w : Option Whitelist} {limit : Nat} {R : Node → Node → Prop} (hR : Node.Respects limit R)

include hR

theorem Node.Respects.same {ε : Type} (x : Except ε Node) : Alike AnyErrors R x x :=
  .refl (fun _ => trivial) hR.refl x

theorem Node.Respects.members (ns : List Node) : List.Forall₂ R ns ns :=
  List.forall₂_same.mpr fun n _ => hR.refl n

namespace Fields.Wrapped

variable {fields fields' : Fields}

/-- Operator maps before and after a step give related leaves. -/
theorem alike_leafOf (h : Fields.Wrapped limit fields fields') (name path : String) :
    Alike AnyErrors R (leafOf w name path fields) (leafOf w name path fields') := by
  have hmeta : ∀ key, FilterKey.isMetadata key = true → get? fields key = get? fields' key := by
    intro key hkey
    apply h.get?_eq
    apply FilterKey.ofSpelling?_of_not_isCriterion
    rw [FilterKey.isCriterion, hkey]
    rfl
  have hcriteria : Alike AnyErrors (List.Forall₂ (CriterionAlike limit))
      (criteriaOf w name path fields) (criteriaOf w name path fields') := by
    rw [criteriaOf, criteriaOf]
    refine (h.alike_criteriaAfter []).bind fun criteria criteria' halike => ?_
    cases halike with
    | nil => exact .failed
    | cons hfirst hrest => exact .ok (.cons hfirst hrest)
  rw [leafOf, leafOf, joinerOf_congr hmeta, Tag.ofFields_congr hmeta]
  refine hcriteria.bind fun criteria criteria' halike => ?_
  refine (Alike.same _).bind_eq fun joiner => ?_
  exact .ok (hR.leaf _ _ _ _ _ _ halike)

/-- So do filters on one attribute. -/
theorem alike_attributeLeaf (h : Fields.Wrapped limit fields fields') (path : String) :
    Alike AnyErrors R (attributeLeaf w path fields) (attributeLeaf w path fields') := by
  rw [attributeLeaf, attributeLeaf, h.get?_eq (by decide)]
  cases ((get? fields' FilterKey.name).getD .null).text? with
  | none => exact .failed
  | some name =>
      by_cases hname : name = ""
      · simp only [if_pos hname]
        exact .failed
      · simp only [if_neg hname]
        exact h.alike_leafOf hR name path

end Fields.Wrapped

section

variable {before after inner inner' : Fields} {name : String}
  (hmeta : FilterKey.isMapMetadata name (.record inner) = false)
  (h : Fields.Wrapped limit inner inner')

include hmeta h

/-- Maps of attributes give related leaves when they differ in one operator map. -/
theorem alike_mapLeaves_wrapped (path : String) :
    Alike AnyErrors (List.Forall₂ R)
      (mapLeaves w path (before ++ (name, .record inner) :: after))
      (mapLeaves w path (before ++ (name, .record inner') :: after)) := by
  have hmeta' : FilterKey.isMapMetadata name (.record inner') = false := hmeta
  induction before with
  | nil =>
      rw [List.nil_append, List.nil_append, mapLeaves, mapLeaves, hmeta, hmeta']
      refine (h.alike_leafOf hR _ _).bind fun n n' hn => ?_
      refine (Alike.same _).bind_eq fun later => ?_
      exact .ok (.cons hn (hR.members later))
  | cons entry rest ih =>
      obtain ⟨key, value⟩ := entry
      rw [List.cons_append, List.cons_append, mapLeaves, mapLeaves]
      cases FilterKey.isMapMetadata key value with
      | true => exact ih
      | false =>
          refine (hR.same _).bind fun n n' hn => ?_
          exact ih.bind fun later later' hlater => .ok (.cons hn hlater)

/-- They give related groups. -/
theorem alike_mapGroup_wrapped (path : String) :
    Alike AnyErrors R
      ((mapGroup w path (before ++ (name, .record inner) :: after)).map Group.toNode)
      ((mapGroup w path (before ++ (name, .record inner') :: after)).map Group.toNode) := by
  have hmeta' : FilterKey.isMapMetadata name (.record inner') = false := hmeta
  have hjoiner : ∀ allowed, joinerOf (before ++ (name, .record inner) :: after) path allowed =
      joinerOf (before ++ (name, .record inner') :: after) path allowed := by
    intro allowed
    have hne : "logicalOp" ≠ name := by
      rintro rfl
      exact absurd hmeta (by simp [FilterKey.isMapMetadata, FilterKey.ownMetadata])
    rw [joinerOf, joinerOf, Fields.get?_replace hne]
  have htag : Tag.ofMap (before ++ (name, .record inner) :: after) =
      Tag.ofMap (before ++ (name, .record inner') :: after) := by
    rw [Tag.ofMap, Tag.ofMap, List.filter_append, List.filter_append,
      List.filter_cons_of_neg (by simp [hmeta]), List.filter_cons_of_neg (by simp [hmeta'])]
  rw [mapGroup, mapGroup, hjoiner, htag, map_bind, map_bind]
  refine (Alike.same _).bind_eq fun branch => ?_
  rw [map_bind, map_bind]
  refine (alike_mapLeaves_wrapped hR hmeta h path).bind fun leaves leaves' hleaves => ?_
  refine .ok (hR.group _ _ ?_ ?_ fun other => ?_)
  · cases branch <;> rfl
  · cases branch <;> rfl
  · rw [branch_ofBranch, branch_ofBranch]
    by_cases hother : other = branch
    · rwa [if_pos hother, if_pos hother]
    · rw [if_neg hother, if_neg hother]
      exact .nil

end

/-! ## Trees -/

/-- Members give related filters when one of them is replaced by one that does. -/
theorem alike_buildMembers_replace {before after : List Value} {item item' : Value}
    (h : ∀ path, Alike AnyErrors R (buildAt w path item) (buildAt w path item')) (path : String)
    (index : Nat) :
    Alike AnyErrors (List.Forall₂ R) (buildMembers w path index (before ++ item :: after))
      (buildMembers w path index (before ++ item' :: after)) := by
  induction before generalizing index with
  | nil =>
      rw [List.nil_append, List.nil_append, buildMembers, buildMembers]
      refine (h _).bind fun n n' hn => ?_
      refine (Alike.same _).bind_eq fun later => ?_
      exact .ok (.cons hn (hR.members later))
  | cons first rest ih =>
      rw [List.cons_append, List.cons_append, buildMembers, buildMembers]
      refine (hR.same _).bind fun n n' hn => ?_
      exact (ih (index + 1)).bind fun later later' hlater => .ok (.cons hn hlater)

/-- So do branches. -/
theorem alike_buildBranch_replace {fields : Fields} {branch : Connective}
    {before after : List Value} {item item' : Value}
    (hget : Fields.get? fields branch.word = some (.list (before ++ item :: after)))
    (h : ∀ path, Alike AnyErrors R (buildAt w path item) (buildAt w path item')) (path : String)
    (other : Connective) :
    Alike AnyErrors (List.Forall₂ R) (buildBranch w path other fields)
      (buildBranch w path other
        (Fields.set fields branch.word (.list (before ++ item' :: after)))) := by
  rw [buildBranch_eq, buildBranch_eq, branchItems?_set]
  by_cases hother : other = branch
  · have hitems : branchItems? fields other = some (before ++ item :: after) := by
      rw [branchItems?, hother, hget]
      rfl
    rw [if_pos hother, hitems]
    exact alike_buildMembers_replace hR h _ 0
  · rw [if_neg hother]
    cases branchItems? fields other with
    | none => exact .failed
    | some items => exact .refl (fun _ => trivial) hR.members _

end

/-- **A step is respected by building.** Raw filters before and after a step are built to filters that
are related by every relation that respects values in envelopes, or both are refused. -/
theorem Value.WrappedOnce.alike_buildAt {w : Option Whitelist} {limit : Nat} {R : Node → Node → Prop}
    (hR : Node.Respects limit R) {raw raw' : Value} (h : raw.WrappedOnce limit raw') (path : String) :
    Alike AnyErrors R (buildAt w path raw) (buildAt w path raw') := by
  induction h generalizing path with
  | leaf hattribute hwrapped =>
      rw [buildAt_of_isAttributeFilter hattribute,
        buildAt_of_isAttributeFilter (hwrapped.isAttributeFilter_eq.symm.trans hattribute)]
      exact hwrapped.alike_attributeLeaf hR path
  | @map before after inner inner' name hmap hmeta hwrapped =>
      have hmap' : (record (before ++ (name, record inner') :: after)).isEntityFilter = true := by
        rw [← hmap, isEntityFilter, isEntityFilter,
          Fields.has_replace before after name FilterKey.name (record inner') (record inner),
          List.all_append, List.all_append, List.all_cons, List.all_cons, hwrapped.isCriteria_eq]
        rfl
      rw [buildAt_of_isEntityFilter hmap, buildAt_of_isEntityFilter hmap']
      exact alike_mapGroup_wrapped hR hmeta hwrapped path
  | @member fields branch before after item item' hgroup hget _ ih =>
      have hgroup' := isGroupFilter_set hgroup branch (before ++ item' :: after)
      have hbranch := alike_buildBranch_replace (w := w) hR hget ih path
      rw [buildAt_of_isGroupFilter hgroup, buildAt_of_isGroupFilter hgroup',
        Tag.ofFields_set_word]
      refine (hbranch .and).bind fun ands ands' hands => ?_
      refine (hbranch .or).bind fun ors ors' hors => ?_
      refine (hbranch .not).bind fun nots nots' hnots => ?_
      refine .ok (hR.group ⟨ands, ors, nots, _, _⟩ ⟨ands', ors', nots', _, _⟩ rfl rfl ?_)
      intro other
      cases other with
      | and => exact hands
      | or => exact hors
      | not => exact hnots

end RecordQuery
