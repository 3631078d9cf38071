import RecordQuery.Proofs.Expression.Noninterference
import RecordQuery.Proofs.Filter.Wrapping
/-!
# Literal envelopes in compiled filters

The compiler opens the literal envelope around a value that it hands on, and the one around the value
of a criterion. So it writes the same for filters that differ by envelopes, as long as lists of items
are in its sight: in no more than one literal envelope. `envelopes_transparent` says so for any number
of values of a raw filter that are put in envelopes. A list that is deeper down is handed on as it is,
with the envelopes around its items (`nestedTags_not_transparent`).
-/

namespace RecordQuery

/-! ## Values -/

section

variable {op : Operator} {v v' : Value}

/-- The compiler opens the envelope, and what is in it has none. -/
theorem Value.Wrapped.unwrap_eq (h : v.Wrapped v') : v.unwrap = v'.unwrap := by
  obtain ⟨henv, hval, hkind⟩ := h
  rw [unwrap_record hval, if_pos hkind, unwrap, henv]

/-- A value and its literal envelope are handed on alike. -/
theorem Value.Wrapped.operand_eq (h : v.Wrapped v') (s : Surface) (op : Operator) :
    operand s op v = operand s op v' := by
  obtain @⟨fields, henv, hval, hkind⟩ := h
  have hopen : (record fields).openEnvelope (some s.resolve) = .ok v := by
    have hdeclared := hkind
    rw [kind, envelope?_record hval] at hdeclared
    rw [openEnvelope, envelope?_record hval]
    simp only [hdeclared]
  rw [operand, operand, hopen, openEnvelope_of_not_envelope henv, hkind, kind_of_not_envelope henv]

theorem Value.SameOrWrapped.alike_operand (h : v.SameOrWrapped v') (s : Surface) (op : Operator) :
    Alike AnyErrors Eq (operand s op v) (operand s op v') := by
  rcases h with rfl | hwrapped
  · exact .same _
  · rw [hwrapped.operand_eq s op]
    exact .same _

/-! ## Criteria -/

/-- A criterion is compiled alike when its whole value is put in an envelope: an operator on one value
hands it on, and for the others the compiler opens the envelope. -/
theorem Value.Wrapped.compileCriterion_eq (h : v.Wrapped v') (s : Surface) (reference : Value)
    (op : Operator) :
    compileCriterion s reference op v = compileCriterion s reference op v' := by
  unfold compileCriterion
  rw [h.operand_eq s op, h.unwrap_eq]

/-- Operators on several values make a fragment for each of them. -/
theorem Operator.exists_plan_of_isListed (h : op.isListed = true) :
    ∃ role connective, op.plan = .each role connective := by
  cases op with
  | oneOf | noneOf | contains | notContains | containsSome => exact ⟨_, _, rfl⟩
  | equals | differs | greater | atLeast | less | atMost | between | isNull | isEmpty | like
  | startsWith | endsWith => exact absurd h (by decide)

/-- Criteria with lists in sight are compiled alike when the items differ by envelopes. -/
theorem alike_compileCriterion_of_items (s : Surface) (reference : Value)
    (hlisted : op.isListed = true)
    (h : List.Forall₂ Value.SameOrWrapped v.unwrap.toItems v'.unwrap.toItems) :
    Alike AnyErrors Eq (compileCriterion s reference op v) (compileCriterion s reference op v') := by
  obtain ⟨role, connective, hplan⟩ := Operator.exists_plan_of_isListed hlisted
  have hvalues : Alike AnyErrors Eq (v.unwrap.toItems.mapM (operand s op))
      (v'.unwrap.toItems.mapM (operand s op)) :=
    Alike.mapM_forall₂ (h.imp fun _ _ hitem => hitem.alike_operand s op)
  unfold compileCriterion
  simp only [hplan, itemFragments_eq]
  refine (Alike.same _).bind_eq fun f => ?_
  exact (hvalues.map (S := Eq) fun _ _ heq => by rw [heq]).bind_eq fun fragments => .same _

/-- So are criteria with ranges, in sight or not, whose ends differ by envelopes. -/
theorem alike_compileCriterion_of_range (s : Surface) (reference : Value)
    (h : Alike AnyErrors RangeAlike v.unwrap.toRange v'.unwrap.toRange) :
    Alike AnyErrors Eq (compileCriterion s reference .between v)
      (compileCriterion s reference .between v') := by
  unfold compileCriterion
  refine (Alike.same _).bind_eq fun f => ?_
  refine h.liftFilter.bind ?_
  rintro ⟨low, high⟩ ⟨low', high'⟩ ⟨hlow, hhigh⟩
  refine (hlow.alike_operand s .between).bind_eq fun first => ?_
  exact (hhigh.alike_operand s .between).bind_eq fun second => .same _

/-- Items and ends in at most one literal envelope are in the sight of the compiler. -/
theorem Value.InLiterals.partsAlike_unwrap {depth : Nat} (hdepth : depth ≤ 1)
    (h : Value.InLiterals op.PartsAlike depth v v') : op.PartsAlike v.unwrap v'.unwrap := by
  cases h with
  | here hparts =>
      cases hparts with
      | items hlisted hitems => exact .items hlisted hitems
      | range hop hends => exact .range hop hends
  | @inside inner fields content content' hval hkind hcontent =>
      obtain rfl : inner = 0 := by omega
      cases hcontent with
      | here hparts =>
          rw [unwrap_record hval, if_pos hkind,
            unwrap_record (Fields.get?_set_self fields "val" content'),
            if_pos ((kind_set_val hval content').trans hkind)]
          exact hparts

/-- What is no item is an end of a range. -/
theorem Value.InLiterals.eq_between {depth : Nat} (h : Value.InLiterals op.PartsAlike depth v v')
    (hlisted : ¬op.isListed = true) : op = .between := by
  induction h with
  | here hparts =>
      cases hparts with
      | items h => exact absurd h hlisted
      | range hop => exact hop
  | inside _ _ _ ih => exact ih

/-- The ends of a range in a record do not hang on the content of an envelope. -/
theorem Value.alike_toRange_set_val (fields : Fields) (content : Value) :
    Alike AnyErrors RangeAlike (record fields).toRange
      (record (Fields.set fields "val" content)).toRange := by
  rw [toRange, toRange, Fields.get?_set_of_ne fields content (by decide : "from" ≠ "val"),
    Fields.get?_set_of_ne fields content (by decide : "to" ≠ "val")]
  cases Fields.get? fields "from" with
  | none => exact .failed
  | some low =>
      cases Fields.get? fields "to" with
      | none => exact .failed
      | some high => exact .ok ⟨.inl rfl, .inl rfl⟩

/-- The compiler sees a range with the same ends up to envelopes, or none. -/
theorem Value.InLiterals.alike_toRange_unwrap {depth : Nat}
    (h : Value.InLiterals (Operator.PartsAlike .between) depth v v') :
    Alike AnyErrors RangeAlike v.unwrap.toRange v'.unwrap.toRange := by
  by_cases hdepth : depth ≤ 1
  · have hparts := h.partsAlike_unwrap hdepth
    generalize v.unwrap = content at hparts
    generalize v'.unwrap = content' at hparts
    cases hparts with
    | items hlisted => exact absurd hlisted (by decide)
    | range _ hends => exact .ok hends
  · -- below two envelopes the compiler looks for the ends among the fields of the inner one
    cases h with
    | here => exact absurd (Nat.zero_le 1) hdepth
    | @inside inner fields content content' hval hkind hcontent =>
        rw [unwrap_record hval, if_pos hkind,
          unwrap_record (Fields.get?_set_self fields "val" content'),
          if_pos ((kind_set_val hval content').trans hkind)]
        cases hcontent with
        | here => exact absurd le_rfl hdepth
        | inside => exact alike_toRange_set_val _ _

/-- Criteria that are alike are compiled alike when lists of items are in sight. -/
theorem Operator.OperandAlike.alike_compileCriterion {limit : Nat} (h : op.OperandAlike limit v v')
    (hlimit : limit ≤ 1) (s : Surface) (reference : Value) :
    Alike AnyErrors Eq (compileCriterion s reference op v) (compileCriterion s reference op v') := by
  rcases h with (rfl | hwrapped) | ⟨depth, hparts, hdepth⟩
  · exact .same _
  · rw [hwrapped.compileCriterion_eq s reference op]
    exact .same _
  · by_cases hlisted : op.isListed = true
    · apply alike_compileCriterion_of_items s reference hlisted
      have hsight := hparts.partsAlike_unwrap ((hdepth hlisted).trans hlimit)
      generalize v.unwrap = content at hsight
      generalize v'.unwrap = content' at hsight
      cases hsight with
      | items _ hitems => exact hitems
      | range hop => exact absurd hlisted (by rw [hop]; decide)
    · obtain rfl : op = .between := hparts.eq_between hlisted
      exact alike_compileCriterion_of_range s reference hparts.alike_toRange_unwrap

end

/-! ## Trees -/

/-- Compiling respects values in envelopes when lists of items are in sight. -/
theorem respects_compileNode {limit : Nat} (hlimit : limit ≤ 1) :
    Node.Respects limit fun n n' =>
      ∀ s, Alike AnyErrors Eq (compileNode s n) (compileNode s n') where
  refl _ _ := .same _
  leaf := by
    intro name joiner id label criteria criteria' hcriteria s
    rw [compileNode, compileNode, compileLeaf, compileLeaf]
    refine (Alike.same _).bind_eq fun reference => ?_
    rw [compileCriteria_eq_mapM, compileCriteria_eq_mapM]
    have hparts := hcriteria.imp fun criterion criterion' hcriterion =>
      show Alike AnyErrors Eq (compileCriterion s reference criterion.1 criterion.2)
          (compileCriterion s reference criterion'.1 criterion'.2) by
        rw [← hcriterion.1]
        exact hcriterion.2.alike_compileCriterion hlimit s reference
    exact (Alike.mapM_forall₂ hparts).bind_eq fun parts => .same _
  group := by
    intro g g' _ _ hbranch s
    have hmembers : ∀ branch, Alike AnyErrors Eq (compileMembers s (g.branch branch))
        (compileMembers s (g'.branch branch)) := by
      intro branch
      rw [compileMembers_eq_mapM, compileMembers_eq_mapM]
      exact Alike.mapM_forall₂ ((hbranch branch).imp fun _ _ hn => hn s)
    rw [Group.toNode, Group.toNode, compileNode, compileNode]
    refine (hmembers .and).bind_eq fun ands => ?_
    refine (hmembers .or).bind_eq fun ors => ?_
    exact (hmembers .not).bind_eq fun nots => .same _

/-- Nothing at all is asked of related filters. -/
theorem respects_any (limit : Nat) : Node.Respects limit fun _ _ => True where
  refl _ := trivial
  leaf _ _ _ _ _ _ _ := trivial
  group _ _ _ _ _ := trivial

/-- One step leaves a raw filter accepted, or refused. -/
theorem Value.WrappedOnce.builds_iff {limit : Nat} {raw raw' : Value}
    (h : raw.WrappedOnce limit raw') (w : Option Whitelist) :
    (∃ g, buildFilter w raw = .ok g) ↔ ∃ g, buildFilter w raw' = .ok g := by
  rw [buildFilter, buildFilter, exists_map_iff, exists_map_iff]
  exact (h.alike_buildAt (respects_any limit) rootPath).exists_ok_iff

/-- One step with lists of items in sight leaves what is written as it is. -/
theorem Value.WrappedOnce.alike_compile {limit : Nat} {raw raw' : Value}
    (h : raw.WrappedOnce limit raw') (hlimit : limit ≤ 1) (s : Surface) :
    Alike AnyErrors Eq (compile s raw) (compile s raw') := by
  rw [compile, compile]
  have hbuild := h.alike_buildAt (w := none) (respects_compileNode hlimit) rootPath
  exact hbuild.liftFilter.bind fun n n' hn => hn s

/-- **Literal envelopes are transparent.** Raw filters before and after values are put in literal
envelopes, any number of them one after the other, are both accepted or both refused, under every
whitelist. Both are written alike on every surface, unless items of a list that stands in more than
one literal envelope are put in envelopes. -/
theorem envelopes_transparent {limit : Nat} {raw raw' : Value} (h : raw.Rewrapped limit raw') :
    (∀ w, (∃ g, buildFilter w raw = .ok g) ↔ ∃ g, buildFilter w raw' = .ok g) ∧
      (limit ≤ 1 → ∀ s output, (compile s raw).map Expr.render = .ok output ↔
        (compile s raw').map Expr.render = .ok output) := by
  induction h with
  | refl => exact ⟨fun _ => Iff.rfl, fun _ _ _ => Iff.rfl⟩
  | tail _ hstep ih =>
      constructor
      · intro w
        exact (ih.1 w).trans (hstep.builds_iff w)
      · intro hlimit s output
        have hcompile := hstep.alike_compile hlimit s
        exact (ih.2 hlimit s output).trans
          ((hcompile.map fun _ _ => congrArg Expr.render).ok_iff output)

/-- Guests of given ages and names. -/
def guests (ages names : Value) : Value :=
  .record [("age", .record [("bt", ages)]), ("name", .record [("in", names)])]

/-- The value of the ages, or a part of it, is put in an envelope. -/
theorem guests_wrapped_ages {limit : Nat} {ages ages' : Value} (names : Value)
    (h : Operator.between.OperandWrapped limit ages ages') :
    (guests ages names).WrappedOnce limit (guests ages' names) :=
  @Value.WrappedOnce.map limit [] [_] _ _ "age" rfl rfl
    (@Fields.Wrapped.intro limit [] [] "bt" .between _ _ rfl h)

/-- So is the value of the names. -/
theorem guests_wrapped_names {limit : Nat} {names names' : Value} (ages : Value)
    (h : Operator.oneOf.OperandWrapped limit names names') :
    (guests ages names).WrappedOnce limit (guests ages names') :=
  @Value.WrappedOnce.map limit [_] [] _ _ "name" rfl rfl
    (@Fields.Wrapped.intro limit [] [] "in" .oneOf _ _ rfl h)

/-- Guests aged from 18 to 65, which is in an envelope, and named Ada or Bob. -/
def plainGuests : Value :=
  guests (.record [("val", .list [.int 18, .int 65])]) (.list [.text "Ada", .text "Bob"])

/-- The ages with their lower end in an envelope of unknown kind. -/
def wrappedAges : Value :=
  .record [("val", .list [.record [("val", .int 18), ("valType", .text "exact")], .int 65])]

/-- The names with the first one in a labelled envelope. -/
def labelledNames : Value :=
  .list [.record [("label", .text "host"), ("val", .text "Ada")], .text "Bob"]

/-- The guests with an end of the ages, one of the names, and then the names in envelopes. -/
def wrappedGuests : Value :=
  guests wrappedAges (.record [("valType", .null), ("val", labelledNames)])

theorem plainGuests_rewrapped : plainGuests.Rewrapped 1 wrappedGuests := by
  have hend : Operator.between.PartWrapped (.list [.int 18, .int 65])
      (.list [.record [("val", .int 18), ("valType", .text "exact")], .int 65]) :=
    @Operator.PartWrapped.item _ .list [] [_] _ _ (.inl rfl) (.inr ⟨rfl, by decide⟩)
      (.intro rfl rfl rfl)
  have hname : Operator.oneOf.PartWrapped (.list [.text "Ada", .text "Bob"]) labelledNames :=
    @Operator.PartWrapped.item _ .list [] [_] _ _ (.inl rfl) (.inl rfl) (.intro rfl rfl rfl)
  have hfirst : plainGuests.WrappedOnce 1 (guests wrappedAges (.list [.text "Ada", .text "Bob"])) :=
    guests_wrapped_ages _ (.inr ⟨1, .inside rfl rfl (.here hend), fun _ => le_rfl⟩)
  have hsecond : (guests wrappedAges (.list [.text "Ada", .text "Bob"])).WrappedOnce 1
      (guests wrappedAges labelledNames) :=
    guests_wrapped_names _ (.inr ⟨0, .here hname, fun _ => Nat.zero_le 1⟩)
  have hthird : (guests wrappedAges labelledNames).WrappedOnce 1 wrappedGuests :=
    guests_wrapped_names _ (.inl (.intro rfl rfl rfl))
  exact ((Relation.ReflTransGen.single hfirst).tail hsecond).tail hthird

/-- A surface that puts words between the arguments of a comparison. -/
def wordingSurface : Surface where
  attributes := [("age", .text "#a"), ("name", .text "#n"), ("tags", .text "#t")]
  operations := [("between", fun arguments => " to ".intercalate (arguments.map Value.asText)),
    ("eq", fun arguments => " = ".intercalate (arguments.map Value.asText))]
  renamed := []

/-- The guests are written alike. -/
theorem wrappedGuests_written :
    plainGuests.Rewrapped 1 wrappedGuests ∧ (∃ g, buildFilter none wrappedGuests = .ok g) ∧
      (compile wordingSurface wrappedGuests).map Expr.render =
        .ok "( #a to 18 to 65 AND ( #n = Ada OR #n = Bob ) )" := by
  obtain ⟨hbuild, hcompile⟩ := envelopes_transparent plainGuests_rewrapped
  exact ⟨plainGuests_rewrapped, (hbuild none).mp ⟨_, rfl⟩, (hcompile (by decide) _ _).mp rfl⟩

/-- A tag that counts in a list that is in two envelopes. -/
def nestedTags (tag : Value) : Value :=
  .record [("tags", .record [("in", .record [("val", .record [("val", .list [tag])])])])]

/-- The builder sees the list in two envelopes, and the compiler takes it for an item, so that an
envelope around what is in the list is written. -/
theorem nestedTags_not_transparent :
    (nestedTags (.text "a")).Rewrapped 2 (nestedTags (.record [("val", .text "a")])) ∧
      (∃ g, buildFilter none (nestedTags (.text "a")) = .ok g) ∧
      (compile wordingSurface (nestedTags (.text "a"))).map Expr.render = .ok "#t = ['a']" ∧
      (compile wordingSurface (nestedTags (.record [("val", .text "a")]))).map Expr.render =
        .ok "#t = [\x7b'val': 'a'\x7d]" := by
  have hitem : Operator.oneOf.PartWrapped (.list [.text "a"])
      (.list [.record [("val", .text "a")]]) :=
    @Operator.PartWrapped.item _ .list [] [] _ _ (.inl rfl) (.inl rfl) (.intro rfl rfl rfl)
  have hwrapped : (nestedTags (.text "a")).WrappedOnce 2 (nestedTags (.record [("val", .text "a")])) :=
    @Value.WrappedOnce.map 2 [] [] _ _ "tags" rfl rfl
      (@Fields.Wrapped.intro 2 [] [] "in" .oneOf _ _ rfl
        (.inr ⟨2, .inside rfl rfl (.inside rfl rfl (.here hitem)), fun _ => le_rfl⟩))
  exact ⟨.single hwrapped, ⟨_, rfl⟩, rfl, rfl⟩

end RecordQuery
