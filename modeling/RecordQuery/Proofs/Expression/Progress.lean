import RecordQuery.Proofs.Expression.Preservation
import RecordQuery.Proofs.Filter.Canonical
import RecordQuery.Proofs.Number.Padding
/-!
# When built filters compile

A filter that has been built compiles on a surface that has all functions and knows all attributes,
but for two obstacles. The range of an envelope that is not literal, or of two envelopes one inside
the other, is out of the compiler's sight, and a numeral with an information separator among the
blanks around it cannot be read. `compile_succeeds_iff` says that there are no others.
-/

namespace RecordQuery

/-! ## What a surface has to offer -/

namespace Surface

/-- The surface has a function for every role. -/
def Complete (s : Surface) : Prop :=
  ∀ role, ∃ f, find? s.operations (s.key role) = .ok (some f)

/-- The value refers to no attribute, or to one that the surface has a reference for. -/
def knows (s : Surface) (v : Value) : Bool :=
  match v.envelope? with
  | some (content, declaration) =>
    Value.declaredKind declaration != .reference ||
      content.text?.any fun name => Fields.has s.attributes name
  | none => true

variable {s : Surface}

theorem Complete.operation (hs : s.Complete) (role : Role) (op : Operator) :
    ∃ f, s.operation role op = .ok f := by
  obtain ⟨f, hf⟩ := hs role
  refine ⟨f, ?_⟩
  rw [Surface.operation, hf]
  rfl

theorem exists_referenceOf {name : String} (h : Fields.has s.attributes name = true) :
    ∃ reference, s.referenceOf (.text name) = .ok reference := by
  obtain ⟨reference, hreference⟩ := Fields.has_iff.mp h
  refine ⟨reference, ?_⟩
  have hfind : find? s.attributes (.text name) = .ok (some reference) := congrArg Except.ok hreference
  rw [referenceOf, hfind]
  rfl

/-- A reference to an attribute that the surface knows is resolved. -/
theorem Complete.exists_resolve (hs : s.Complete) {content : Value} {name : String}
    (hname : content.text? = some name) (h : Fields.has s.attributes name = true) :
    ∃ v, s.resolve content = .ok v := by
  obtain ⟨reference, hreference⟩ := Fields.has_iff.mp h
  obtain ⟨f, hf⟩ := hs .reference
  have hfind : find? s.attributes content = .ok (some reference) := by
    rw [find?, hname]
    exact congrArg Except.ok hreference
  refine ⟨.text (f [reference]), ?_⟩
  rw [resolve, referenceOf, hfind]
  show (liftFault (find? s.operations (s.key .reference)) >>= _) = _
  rw [hf]
  rfl

end Surface

/-! ## Operands -/

/-- The value, or the content of its literal envelope, counts as a numeral and cannot be read, for
there is an information separator among the blanks around it. -/
def Value.Misread (v : Value) : Prop :=
  ∃ text, v.unwrap = .text text ∧ isNumeric text = true ∧
    Text.trimBy Text.isBlank text.toList ≠ Text.trimBy Text.isPadding text.toList

/-- A value is coerced for an operator unless it is a numeral that cannot be read. -/
theorem exists_coerce_iff {op : Operator} {v : Value} :
    (∃ x, v.coerce op.name = .ok x) ↔
      ¬(op.isNumeric = true ∧ ∃ text, v = .text text ∧ isNumeric text = true ∧
        Text.trimBy Text.isBlank text.toList ≠ Text.trimBy Text.isPadding text.toList) := by
  have hspelling : Operator.isNumericSpelling op.name = op.isNumeric := by
    rw [Operator.isNumericSpelling, Operator.ofSpelling?_core, Option.any_some]
  cases v with
  | text text =>
      rw [Value.coerce, Value.readsAsNumber, hspelling, Value.isNumberLike]
      by_cases hreads : op.isNumeric = true ∧ isNumeric text = true
      · rw [if_pos (by rw [hreads.1, hreads.2]; rfl), exists_readNumber_iff hreads.2]
        simp [hreads.1, hreads.2]
      · rw [if_neg (by rwa [Bool.and_eq_true])]
        refine iff_of_true ⟨_, rfl⟩ ?_
        rintro ⟨hop, other, htext, hnumeric, -⟩
        obtain rfl := Value.text.inj htext
        exact hreads ⟨hop, hnumeric⟩
  | null | bool | int | float | list | tuple | record | moment | connective | node | deferred =>
      refine iff_of_true ⟨_, rfl⟩ ?_
      rintro ⟨-, other, htext, -⟩
      exact absurd htext (by simp)

/-- Envelopes are records. -/
theorem Value.exists_record_of_envelope? {v : Value} {parts : Value × Value}
    (h : v.envelope? = some parts) : ∃ fields, v = .record fields := by
  cases v with
  | record fields => exact ⟨fields, rfl⟩
  | null | bool | int | float | text | list | tuple | moment | connective | node | deferred =>
      exact absurd h (by simp [envelope?])

/-- A value is handed to a complete surface that knows what it refers to, unless it is a numeral that
cannot be read. -/
theorem exists_operand_iff {s : Surface} (hs : s.Complete) {op : Operator} {v : Value}
    (hv : s.knows v = true) :
    (∃ x, operand s op v = .ok x) ↔ ¬(op.isNumeric = true ∧ v.Misread) := by
  unfold operand Value.Misread
  cases henv : v.envelope? with
  | none =>
      rw [Value.openEnvelope_of_not_envelope henv, ok_bind,
        if_pos (Value.kind_of_not_envelope henv), Value.unwrap, henv]
      simp only [liftFault_eq_ok_iff]
      exact exists_coerce_iff
  | some parts =>
      obtain ⟨content, declaration⟩ := parts
      obtain ⟨fields, rfl⟩ := Value.exists_record_of_envelope? henv
      have hkind : (Value.record fields).kind = Value.declaredKind declaration := by
        rw [Value.kind, henv]
      rw [hkind, Value.openEnvelope, Value.unwrap, henv]
      cases hdeclared : Value.declaredKind declaration with
      | literal =>
          simp only [hdeclared, ok_bind, if_true, liftFault_eq_ok_iff]
          exact exists_coerce_iff
      | expression =>
          simp only [hdeclared, ok_bind]
          refine iff_of_true ⟨_, rfl⟩ ?_
          rintro ⟨-, text, htext, -⟩
          exact absurd htext (by simp)
      | reference =>
          rw [Surface.knows, henv] at hv
          simp only [hdeclared, bne_self_eq_false, Bool.false_or] at hv
          cases hname : content.text? with
          | none => rw [hname] at hv; exact absurd hv (by simp)
          | some name =>
              rw [hname, Option.any_some] at hv
              obtain ⟨x, hx⟩ := hs.exists_resolve hname hv
              simp only [hdeclared, hx, ok_bind]
              refine iff_of_true ⟨_, rfl⟩ ?_
              rintro ⟨-, text, htext, -⟩
              exact absurd htext (by simp)

/-! ## Criteria -/

/-- The values that the operator of a criterion is handed: the value itself, the items of a list or
the ends of a range. -/
def Operator.handed (op : Operator) (v : Value) : List Value :=
  match op.plan with
  | .single _ => [v]
  | .each _ _ => v.unwrap.toItems
  | .range =>
    match v.unwrap.toRange with
    | .ok (low, high) => [low, high]
    | .error _ => []
  | .presence => []
  | .emptiness => []

/-- Operators on several values do not compare by order. -/
theorem Operator.not_isNumeric_of_each {op : Operator} {role : Role} {c : Connective}
    (h : op.plan = .each role c) : op.isNumeric = false := by
  cases op <;> simp [plan] at h <;> rfl

/-- The range is the plan of one operator alone. -/
theorem Operator.plan_eq_range_iff {op : Operator} : op.plan = .range ↔ op = .between := by
  cases op <;> simp [plan]

/-- The ends of a range that is in sight are handed on. -/
theorem Operator.handed_range {op : Operator} {v : Value} (hplan : op.plan = .range)
    {low high : Value} (h : v.unwrap.toRange = .ok (low, high)) : op.handed v = [low, high] := by
  rw [handed, hplan]
  simp only [h]

/-- What an envelope holds for the compiler: its content if it is literal, else itself. -/
theorem Value.unwrap_record {fields : Fields} {content : Value}
    (h : Fields.get? fields "val" = some content) :
    (record fields).unwrap =
      if (record fields).kind = .literal then content else record fields := by
  rw [unwrap, kind, envelope?_record h]

/-- A test that passes everywhere in a value passes everywhere in what its literal envelope holds. -/
theorem Value.everywhere_unwrap {test : Value → Bool} {v : Value} (h : v.everywhere test = true) :
    v.unwrap.everywhere test = true := by
  cases henv : v.envelope? with
  | none =>
      rw [unwrap, henv]
      exact h
  | some parts =>
      obtain ⟨fields, rfl⟩ := exists_record_of_envelope? henv
      obtain ⟨content, hval, -⟩ := Option.map_eq_some_iff.mp henv
      rw [unwrap_record hval]
      split
      · exact (everywhere_record.mp h).2 _ (Fields.mem_of_get? hval)
      · exact h

/-- A test that passes everywhere in the value of a criterion passes on all values handed on. -/
theorem test_of_mem_handed {test : Value → Bool} {op : Operator} {v : Value}
    (h : v.everywhere test = true) {x : Value} (hx : x ∈ op.handed v) : test x = true := by
  have hunwrap := Value.everywhere_unwrap h
  unfold Operator.handed at hx
  cases hplan : op.plan with
  | single role =>
      rw [hplan] at hx
      rw [List.mem_singleton.mp hx]
      exact Value.test_of_everywhere h
  | each role c =>
      rw [hplan] at hx
      exact Value.test_of_everywhere (Value.everywhere_toItems hunwrap x hx)
  | range =>
      rw [hplan] at hx
      cases hrange : v.unwrap.toRange with
      | error e => simp [hrange] at hx
      | ok range =>
          have hends := Value.everywhere_toRange hunwrap hrange
          simp only [hrange, List.mem_cons, List.not_mem_nil, or_false] at hx
          rcases hx with rfl | rfl
          · exact Value.test_of_everywhere hends.1
          · exact Value.test_of_everywhere hends.2
  | presence => rw [hplan] at hx; exact absurd hx List.not_mem_nil
  | emptiness => rw [hplan] at hx; exact absurd hx List.not_mem_nil

/-- The compiler takes a criterion: a range is in sight, and every number that is to be read can be
read. -/
structure Operator.Takes (op : Operator) (v : Value) : Prop where
  range : op = .between → ∃ range, v.unwrap.toRange = .ok range
  numbers : ∀ x ∈ op.handed v, ¬(op.isNumeric = true ∧ x.Misread)

/-- A criterion is compiled on a complete surface that knows what its value refers to exactly when the
compiler takes it. -/
theorem exists_compileCriterion_iff {s : Surface} (hs : s.Complete) {reference v : Value}
    {op : Operator} (hv : v.everywhere s.knows = true) :
    (∃ e, compileCriterion s reference op v = .ok e) ↔ op.Takes v := by
  have hknows : ∀ x ∈ op.handed v, s.knows x = true := fun x hx => test_of_mem_handed hv hx
  have hrange : ∀ {plan : Plan}, op.plan = plan → plan ≠ .range → op ≠ .between := by
    rintro plan rfl hne rfl
    exact hne rfl
  unfold compileCriterion
  cases hplan : op.plan with
  | single role =>
      obtain ⟨f, hf⟩ := hs.operation role op
      have hhanded : op.handed v = [v] := by rw [Operator.handed, hplan]
      rw [hhanded] at hknows
      have hoperand : (∃ x, operand s op v = .ok x) ↔ ¬(op.isNumeric = true ∧ v.Misread) :=
        exists_operand_iff hs (hknows v List.mem_cons_self)
      constructor
      · rintro ⟨e, he⟩
        obtain ⟨_, -, he⟩ := bind_eq_ok_iff.mp he
        obtain ⟨x, hx, -⟩ := bind_eq_ok_iff.mp he
        refine ⟨fun hop => absurd hop (hrange hplan (by simp)), ?_⟩
        rw [hhanded, List.forall_mem_singleton]
        exact hoperand.mp ⟨x, hx⟩
      · intro htakes
        have hnumber := htakes.numbers
        rw [hhanded, List.forall_mem_singleton] at hnumber
        obtain ⟨x, hx⟩ := hoperand.mpr hnumber
        exact ⟨_, by dsimp only; rw [hf, ok_bind, hx, ok_bind, pure_eq_ok]⟩
  | each role c =>
      obtain ⟨f, hf⟩ := hs.operation role op
      have hnumeric := Operator.not_isNumeric_of_each hplan
      have hhanded : op.handed v = v.unwrap.toItems := by rw [Operator.handed, hplan]
      rw [hhanded] at hknows
      refine iff_of_true ?_ ⟨fun hop => absurd hop (hrange hplan (by simp)), ?_⟩
      · have hitems : ∀ item ∈ v.unwrap.toItems, ∃ x, operand s op item = .ok x := by
          intro item hitem
          exact (exists_operand_iff hs (hknows item hitem)).mpr (by simp [hnumeric])
        obtain ⟨values, hvalues⟩ := exists_mapM_iff.mpr hitems
        exact ⟨_, by
          dsimp only
          rw [hf, ok_bind, itemFragments_eq, hvalues, Except.map, ok_bind, pure_eq_ok]⟩
      · simp [hnumeric]
  | range =>
      obtain ⟨f, hf⟩ := hs.operation .between op
      constructor
      · rintro ⟨e, he⟩
        obtain ⟨_, -, he⟩ := bind_eq_ok_iff.mp he
        obtain ⟨⟨low, high⟩, hends, he⟩ := bind_eq_ok_iff.mp he
        obtain ⟨a, ha, he⟩ := bind_eq_ok_iff.mp he
        obtain ⟨b, hb, -⟩ := bind_eq_ok_iff.mp he
        have hends := liftFilter_eq_ok_iff.mp hends
        have hhanded := Operator.handed_range hplan hends
        rw [hhanded] at hknows
        refine ⟨fun _ => ⟨_, hends⟩, ?_⟩
        rw [hhanded, List.forall_mem_cons, List.forall_mem_singleton]
        exact ⟨(exists_operand_iff hs (hknows low (by simp))).mp ⟨a, ha⟩,
          (exists_operand_iff hs (hknows high (by simp))).mp ⟨b, hb⟩⟩
      · intro htakes
        obtain ⟨⟨low, high⟩, hends⟩ := htakes.range (Operator.plan_eq_range_iff.mp hplan)
        have hhanded := Operator.handed_range hplan hends
        have hnumbers := htakes.numbers
        rw [hhanded, List.forall_mem_cons, List.forall_mem_singleton] at hnumbers
        rw [hhanded] at hknows
        obtain ⟨a, ha⟩ := (exists_operand_iff hs (hknows low (by simp))).mpr hnumbers.1
        obtain ⟨b, hb⟩ := (exists_operand_iff hs (hknows high (by simp))).mpr hnumbers.2
        exact ⟨_, by
          dsimp only
          rw [hf, ok_bind, liftFilter_eq_ok_iff.mpr hends, ok_bind, ha, ok_bind, hb, ok_bind,
            pure_eq_ok]⟩
  | presence =>
      refine iff_of_true ?_ ⟨fun hop => absurd hop (hrange hplan (by simp)), ?_⟩
      · obtain ⟨f, hf⟩ := hs.operation (if v.unwrap.truthy then .present else .missing) op
        exact ⟨_, by dsimp only; rw [hf, ok_bind, pure_eq_ok]⟩
      · simp [Operator.handed, hplan]
  | emptiness =>
      refine iff_of_true ?_ ⟨fun hop => absurd hop (hrange hplan (by simp)), ?_⟩
      · obtain ⟨f, hf⟩ := hs.operation (if v.unwrap.truthy then .equals else .differs) op
        exact ⟨_, by dsimp only; rw [hf, ok_bind, pure_eq_ok]⟩
      · simp [Operator.handed, hplan]

/-! ## Trees -/

/-- A leaf whose attribute the surface knows is compiled exactly when the compiler takes all its
criteria. -/
theorem exists_compileLeaf_iff {s : Surface} (hs : s.Complete) {name : String} {criteria : Criteria}
    {joiner : Connective} (hname : Fields.has s.attributes name = true)
    (hvalues : ∀ criterion ∈ criteria, criterion.2.everywhere s.knows = true) :
    (∃ e, compileLeaf s name criteria joiner = .ok e) ↔
      ∀ criterion ∈ criteria, criterion.1.Takes criterion.2 := by
  obtain ⟨reference, href⟩ := Surface.exists_referenceOf hname
  have hpass : (∃ parts, compileCriteria s reference criteria = .ok parts) ↔
      ∀ criterion ∈ criteria, criterion.1.Takes criterion.2 := by
    rw [compileCriteria_eq_mapM, exists_mapM_iff]
    exact forall₂_congr fun criterion hmem => exists_compileCriterion_iff hs (hvalues _ hmem)
  rw [← hpass, compileLeaf, href, ok_bind]
  constructor
  · rintro ⟨e, he⟩
    obtain ⟨parts, hparts, -⟩ := bind_eq_ok_iff.mp he
    exact ⟨parts, hparts⟩
  · rintro ⟨parts, hparts⟩
    exact ⟨_, by rw [hparts, ok_bind, pure_eq_ok]⟩

/-- The surface knows the attributes of a leaf and those that its values refer to. -/
structure Surface.KnowsLeaf (s : Surface) (l : Leaf) : Prop where
  name : Fields.has s.attributes l.name = true
  values : ∀ criterion ∈ l.criteria, criterion.2.everywhere s.knows = true

/-- A group is compiled exactly when all its members are. -/
theorem exists_compileGroup_iff {s : Surface} {ands ors nots : List Node} {id label : Value} :
    (∃ e, compileNode s (.group ands ors nots id label) = .ok e) ↔
      (∀ n ∈ ands, ∃ e, compileNode s n = .ok e) ∧ (∀ n ∈ ors, ∃ e, compileNode s n = .ok e) ∧
        ∀ n ∈ nots, ∃ e, compileNode s n = .ok e := by
  rw [← exists_mapM_iff, ← exists_mapM_iff, ← exists_mapM_iff]
  simp only [compileNode_group_eq_ok_iff]
  constructor
  · rintro ⟨e, eands, eors, enots, hands, hors, hnots, -⟩
    exact ⟨⟨eands, hands⟩, ⟨eors, hors⟩, enots, hnots⟩
  · rintro ⟨⟨eands, hands⟩, ⟨eors, hors⟩, enots, hnots⟩
    exact ⟨_, eands, eors, enots, hands, hors, hnots, rfl⟩

/-- A filter is compiled exactly when the compiler takes all criteria of its leaves. -/
theorem exists_compileNode_iff {s : Surface} (hs : s.Complete) (n : Node) :
    (∀ l ∈ n.leaves, s.KnowsLeaf l) →
      ((∃ e, compileNode s n = .ok e) ↔
        ∀ l ∈ n.leaves, ∀ criterion ∈ l.criteria, criterion.1.Takes criterion.2) := by
  induction n using Node.memberInduction with
  | leaf name criteria joiner id label =>
      intro hknows
      have hleaf := hknows _ (List.mem_singleton_self _)
      rw [Node.leaves_leaf, List.forall_mem_singleton, compileNode]
      exact exists_compileLeaf_iff hs hleaf.name hleaf.values
  | group ands ors nots id label hands hors hnots =>
      intro hknows
      obtain ⟨kands, kors, knots⟩ := Node.forall_leaves_group.mp hknows
      rw [exists_compileGroup_iff, Node.forall_leaves_group]
      exact and_congr (forall₂_congr fun n hmem => hands n hmem (kands n hmem))
        (and_congr (forall₂_congr fun n hmem => hors n hmem (kors n hmem))
          (forall₂_congr fun n hmem => hnots n hmem (knots n hmem)))

/-! ## Built filters -/

/-- The range of a value that is stored for a range is out of sight of the compiler, which looks for
its ends in the value itself or in the content of its literal envelope: they are deeper down, or
there are none. -/
def Value.HidesRange (v : Value) : Prop :=
  ∃ fields, v.unwrap = .record fields ∧
    (Fields.get? fields "from" = none ∨ Fields.get? fields "to" = none)

/-- What is stored for a range is a pair or an envelope. -/
theorem Value.Stored.pair_or_record {v : Value} (h : v.Stored .between) :
    (∃ range, v = .ofRange range) ∨ ∃ fields, v = .record fields := by
  cases h with
  | items hop => exact absurd hop (by decide)
  | @range low high => exact .inl ⟨(low, high), rfl⟩
  | bare _ hop => exact absurd rfl hop
  | @literal fields => exact .inr ⟨fields, rfl⟩
  | @kept fields => exact .inr ⟨fields, rfl⟩

/-- So is the content of its literal envelope. -/
theorem Value.Stored.unwrap_pair_or_record {v : Value} (h : v.Stored .between) :
    (∃ range, v.unwrap = .ofRange range) ∨ ∃ fields, v.unwrap = .record fields := by
  have hself := h.pair_or_record
  cases h with
  | items hop => exact absurd hop (by decide)
  | range => exact hself
  | bare _ hop => exact absurd rfl hop
  | literal hval hkind hcontent =>
      rw [unwrap_record hval, if_pos hkind]
      exact hcontent.pair_or_record
  | kept hval hkind =>
      rw [unwrap_record hval, if_neg hkind]
      exact hself

/-- The range of a stored value is in sight unless the value hides it. -/
theorem Value.Stored.exists_toRange_iff {v : Value} (h : v.Stored .between) :
    (∃ range, v.unwrap.toRange = .ok range) ↔ ¬v.HidesRange := by
  unfold HidesRange
  rcases h.unwrap_pair_or_record with ⟨range, hv⟩ | ⟨fields, hv⟩
  · rw [hv]
    refine iff_of_true ⟨range, toRange_ofRange range⟩ ?_
    rintro ⟨fields, hfields, -⟩
    exact absurd hfields (by simp [ofRange])
  · rw [hv, toRange]
    simp only [record.injEq, exists_eq_left']
    cases Fields.get? fields "from" with
    | none => simp
    | some low =>
        cases Fields.get? fields "to" with
        | none => simp
        | some high => simp

/-- The compiler takes a stored criterion unless it hides its range or has a numeral that cannot be
read. -/
theorem Operator.takes_iff_of_stored {op : Operator} {v : Value} (h : v.Stored op) :
    op.Takes v ↔ ¬(op = .between ∧ v.HidesRange) ∧
      ∀ x ∈ op.handed v, ¬(op.isNumeric = true ∧ x.Misread) := by
  have hrange : (op = .between → ∃ range, v.unwrap.toRange = .ok range) ↔
      ¬(op = .between ∧ v.HidesRange) := by
    rw [not_and]
    refine forall_congr' fun hop => ?_
    subst hop
    exact h.exists_toRange_iff
  rw [← hrange]
  exact ⟨fun htakes => ⟨htakes.range, htakes.numbers⟩, fun ⟨hr, hn⟩ => ⟨hr, hn⟩⟩

/-- **When built filters compile.** A filter that is built from plain data is written on every
surface that has a function for every role and knows the attributes of its leaves and those that its
values refer to, unless a range is out of sight of the compiler or a numeral cannot be read. -/
theorem compile_succeeds_iff {raw : Value} {g : Group} {s : Surface} (hraw : raw.isData = true)
    (hbuild : buildFilter none raw = .ok g) (hs : s.Complete)
    (hknows : ∀ l ∈ g.leaves, s.KnowsLeaf l) :
    (∃ output, (compile s (.node g.toNode)).map Expr.render = .ok output) ↔
      ∀ l ∈ g.leaves, ∀ criterion ∈ l.criteria,
        ¬(criterion.1 = .between ∧ criterion.2.HidesRange) ∧
          ∀ x ∈ criterion.1.handed criterion.2, ¬(criterion.1.isNumeric = true ∧ x.Misread) := by
  have hcanonical : ∀ l ∈ g.leaves, l.Canonical := by
    obtain ⟨n, hn, rfl⟩ := map_eq_ok_iff.mp hbuild
    rw [Group.leaves_ofNode]
    exact canonical_of_buildAt hraw hn
  have hcompile : compile s (.node g.toNode) = compileNode s g.toNode := rfl
  calc (∃ output, (compile s (.node g.toNode)).map Expr.render = .ok output)
      ↔ ∃ e, compileNode s g.toNode = .ok e := by
        simp only [hcompile, map_eq_ok_iff]
        exact ⟨fun ⟨_, e, he, _⟩ => ⟨e, he⟩, fun ⟨e, he⟩ => ⟨_, e, he, rfl⟩⟩
    _ ↔ ∀ l ∈ g.leaves, ∀ criterion ∈ l.criteria, criterion.1.Takes criterion.2 :=
        exists_compileNode_iff hs g.toNode hknows
    _ ↔ _ := forall₂_congr fun l hl => forall₂_congr fun criterion hcriterion =>
        Operator.takes_iff_of_stored ((hcanonical l hl).stored criterion hcriterion)

/-- A surface for the age and its limit that answers with the names of its functions. -/
def namingSurface : Surface where
  attributes := [("age", .text "#age"), ("limit", .text "#limit")]
  operations := Role.all.map fun role => (role.name, fun _ => role.name)
  renamed := []

theorem namingSurface_complete : namingSurface.Complete := by
  intro role
  cases role <;> exact ⟨_, rfl⟩

/-- Ages in a range of numerals that are greater than another attribute. -/
def rangeAndLimit : Value :=
  .record [("age", .record
    [("bt", .record [("val", .list [.text "18", .text "65"])]),
      ("gt", .record [("val", .text "limit"), ("valType", .text "propRef")])])]

/-- What the filter on a range and a limit is built to. -/
def rangeAndLimitGroup : Group where
  ands := [.leaf "age"
    [(.between, .record [("val", .tuple [.text "18", .text "65"])]),
      (.greater, .record [("val", .text "limit"), ("valType", .text "propRef")])] .and .null .null]

/-- The filter on a range and a limit hides no range and has numerals that can be read, so it is
compiled. -/
theorem rangeAndLimit_compiled :
    rangeAndLimit.isData = true ∧ buildFilter none rangeAndLimit = .ok rangeAndLimitGroup ∧
      namingSurface.Complete ∧ (∀ l ∈ rangeAndLimitGroup.leaves, namingSurface.KnowsLeaf l) ∧
      ∃ output, (compile namingSurface (.node rangeAndLimitGroup.toNode)).map Expr.render =
        .ok output := by
  have hdata : rangeAndLimit.isData = true := by decide
  have hbuild : buildFilter none rangeAndLimit = .ok rangeAndLimitGroup := rfl
  have hknows : ∀ l ∈ rangeAndLimitGroup.leaves, namingSurface.KnowsLeaf l := by
    intro l hl
    obtain rfl := List.mem_singleton.mp hl
    exact ⟨rfl, by decide⟩
  refine ⟨hdata, hbuild, namingSurface_complete, hknows,
    (compile_succeeds_iff hdata hbuild namingSurface_complete hknows).mpr ?_⟩
  intro l hl
  obtain rfl := List.mem_singleton.mp hl
  rw [List.forall_mem_cons, List.forall_mem_singleton]
  have hread : ∀ text ∈ ["18", "65"], ¬(Value.text text).Misread := by
    rintro text htext ⟨other, hother, -, hne⟩
    obtain rfl : text = other := Value.text.inj hother
    revert hne
    revert text
    decide +kernel
  refine ⟨⟨?_, ?_⟩, ?_, ?_⟩
  · rintro ⟨-, fields, hfields, -⟩
    exact absurd hfields Value.noConfusion
  · intro x hx
    obtain rfl | rfl := List.mem_pair.mp hx
    · exact fun h => hread "18" (by simp) h.2
    · exact fun h => hread "65" (by simp) h.2
  · rintro ⟨hop, -⟩
    exact absurd hop (by decide)
  · intro x hx
    obtain rfl := List.mem_singleton.mp hx
    rintro ⟨-, text, htext, -⟩
    exact absurd htext Value.noConfusion

/-- A range in two literal envelopes, one inside the other. -/
def nestedRange : Value :=
  .record [("age", .record
    [("bt", .record [("val", .record [("val", .list [.int 18, .int 65])])])])]

/-- What the filter on a nested range is built to. -/
def nestedRangeGroup : Group where
  ands := [.leaf "age"
    [(.between, .record [("val", .record [("val", .tuple [.int 18, .int 65])])])] .and .null .null]

/-- A range in two envelopes is built, and the compiler does not find it. -/
theorem nestedRange_not_compiled :
    nestedRange.isData = true ∧ buildFilter none nestedRange = .ok nestedRangeGroup ∧
      namingSurface.Complete ∧ (∀ l ∈ nestedRangeGroup.leaves, namingSurface.KnowsLeaf l) ∧
      compile namingSurface (.node nestedRangeGroup.toNode) =
        .error (.filter (.badRange (.record [("val", .tuple [.int 18, .int 65])]))) := by
  have hrefused : compile namingSurface (.node nestedRangeGroup.toNode) =
      .error (FilterError.badRange (.record [("val", .tuple [.int 18, .int 65])])).raised := rfl
  refine ⟨by decide, rfl, namingSurface_complete, ?_, ?_⟩
  · intro l hl
    obtain rfl := List.mem_singleton.mp hl
    exact ⟨rfl, by decide⟩
  · rw [hrefused, FilterError.raised, if_pos (by decide +kernel)]

-- nor can it read a numeral behind an information separator, which is built too
example : compile namingSurface (.node (.leaf "age" [(.greater, .text "\x1c5")] .and .null .null)) =
    .error (.fault .badValue) := rfl

end RecordQuery
