import RecordQuery.Proofs.Alike
import RecordQuery.Proofs.Expression.Progress
import RecordQuery.Proofs.Filter.Guarding
import RecordQuery.Proofs.Text.Closest
/-!
# What compiled filters depend on

A filter is compiled over two maps of attributes that have the same names and agree on some of them.
The compiler looks up the attribute of each leaf and, besides, the attributes that values refer to.
When the maps agree on all of these both runs end alike: with the same expression, or with errors
that report the same. A whitelist covers the attributes of the leaves and not the references
(`alike_compile_of_agreeOn`).
-/

namespace RecordQuery

/-! ## Errors that report the same -/

/-- Both errors are of one kind, with the same message, details and place. -/
structure FilterError.SameReport (e e' : FilterError) : Prop where
  kind : e.kind = e'.kind
  message : e.message = e'.message
  details : e.details = e'.details
  path : e.path? = e'.path?

/-- Both errors are the same, or errors of filters that report the same. -/
inductive Error.SameReport : Error → Error → Prop
  | same (e : Error) : SameReport e e
  | filter {e e' : FilterError} : e.SameReport e' → SameReport (.filter e) (.filter e')

/-- Errors that report the same are raised alike when they show the same values. -/
theorem FilterError.SameReport.raised {e e' : FilterError} (h : e.SameReport e')
    (hvalues : e.values = e'.values) : Error.SameReport e.raised e'.raised := by
  rw [FilterError.raised, FilterError.raised, isWritable, isWritable, hvalues]
  split
  · exact .filter h
  · exact .same _

/-- The error for a missing attribute reports the known ones in ascending order. -/
theorem FilterError.sameReport_missingAttribute {known known' : List String}
    (h : known.Perm known') (name entity : Value) :
    (missingAttribute name entity known).SameReport (missingAttribute name entity known') := by
  have hsorted : Operator.sorted known = Operator.sorted known' := Operator.sorted_eq_of_perm h
  have hclosest : suggestAttributes name known suggestionCutoff =
      suggestAttributes name known' suggestionCutoff :=
    Text.Similarity.closest_eq_of_perm h _ _ _
  have hmessage : ∀ suggestions, unknownAttributeMessage name entity known suggestions =
      unknownAttributeMessage name entity known' suggestions := by
    intro suggestions
    simp only [unknownAttributeMessage, hsorted]
  have hknown : sortedTexts known = sortedTexts known' := congrArg Value.ofTexts hsorted
  rw [missingAttribute, missingAttribute, missingAttributeAt, missingAttributeAt, hclosest]
  exact {
    kind := rfl
    path := rfl
    message := hmessage _
    details := by simp only [details, hknown] }

/-! ## Maps of attributes that agree -/

/-- The maps have the same names, in any order, and agree on some of them. -/
structure Fields.AgreeOn (names : List String) (first second : Fields) : Prop where
  keys : (keys first).Perm (keys second)
  agree : ∀ name ∈ names, get? first name = get? second name

/-- The surface with another map of attributes. -/
def Surface.withAttributes (s : Surface) (attributes : Fields) : Surface :=
  { s with attributes }

/-- The name of the attribute that an envelope refers to. -/
def Value.reference? (v : Value) : Option String :=
  match v.envelope? with
  | some (content, declaration) =>
    if declaredKind declaration = .reference then content.text? else none
  | none => none

/-- The attributes that the values of a leaf refer to, among those values that are handed to the
surface. -/
def Leaf.references (l : Leaf) : List String :=
  l.criteria.flatMap fun criterion => (criterion.1.handed criterion.2).filterMap Value.reference?

/-- The attributes that the values in a group refer to. -/
def Group.references (g : Group) : List String :=
  g.leaves.flatMap Leaf.references

section

variable {names : List String} {first second : Fields} (h : Fields.AgreeOn names first second)
  (s : Surface)

include h

/-! ## References -/

/-- A value that names none of the attributes on which the maps may differ has the same reference. -/
theorem Surface.alike_referenceOf {name : Value}
    (hname : ∀ text, name.text? = some text → text ∈ names) :
    Alike Error.SameReport Eq ((s.withAttributes first).referenceOf name)
      ((s.withAttributes second).referenceOf name) := by
  have hfind : find? first name = find? second name := by
    rw [find?, find?]
    cases htext : name.text? with
    | none => rfl
    | some text => exact congrArg Except.ok (h.agree text (hname text htext))
  have hmissing : Error.SameReport
      (FilterError.missingAttribute name .null (Fields.keys first)).raised
      (FilterError.missingAttribute name .null (Fields.keys second)).raised :=
    (FilterError.sameReport_missingAttribute h.keys name .null).raised rfl
  rw [referenceOf, referenceOf]
  show Alike _ _ (liftFault (find? first name) >>= _) (liftFault (find? second name) >>= _)
  rw [hfind]
  refine (Alike.refl Error.SameReport.same (fun _ => rfl) _).bind_eq fun found => ?_
  cases found with
  | some reference => exact .ok rfl
  | none => exact .error hmissing

/-- So is what it is resolved to. -/
theorem Surface.alike_resolve {name : Value}
    (hname : ∀ text, name.text? = some text → text ∈ names) :
    Alike Error.SameReport Eq ((s.withAttributes first).resolve name)
      ((s.withAttributes second).resolve name) := by
  rw [resolve, resolve]
  refine (alike_referenceOf h s hname).bind_eq fun reference => ?_
  exact .refl Error.SameReport.same (fun _ => rfl) _

/-! ## Criteria -/

/-- A value is handed on alike unless it refers to an attribute on which the maps may differ. -/
theorem alike_operand (op : Operator) {v : Value}
    (hv : ∀ name, v.reference? = some name → name ∈ names) :
    Alike Error.SameReport Eq (operand (s.withAttributes first) op v)
      (operand (s.withAttributes second) op v) := by
  have hopen : Alike Error.SameReport Eq
      (v.openEnvelope (some (s.withAttributes first).resolve))
      (v.openEnvelope (some (s.withAttributes second).resolve)) := by
    unfold Value.reference? at hv
    unfold Value.openEnvelope
    cases henv : v.envelope? with
    | none => exact .ok rfl
    | some parts =>
        obtain ⟨content, declaration⟩ := parts
        rw [henv] at hv
        cases hdeclared : Value.declaredKind declaration with
        | literal => simp only [hdeclared]; exact .ok rfl
        | expression => simp only [hdeclared]; exact .ok rfl
        | reference =>
            simp only [hdeclared, if_true] at hv ⊢
            exact Surface.alike_resolve h s hv
  rw [operand, operand]
  refine hopen.bind_eq fun opened => ?_
  exact .refl Error.SameReport.same (fun _ => rfl) _

/-- A criterion is compiled alike when the maps agree on what the values refer to that it hands on. -/
theorem alike_compileCriterion (reference : Value) {op : Operator} {v : Value}
    (hv : ∀ x ∈ op.handed v, ∀ name, x.reference? = some name → name ∈ names) :
    Alike Error.SameReport Eq (compileCriterion (s.withAttributes first) reference op v)
      (compileCriterion (s.withAttributes second) reference op v) := by
  -- both surfaces have the same functions, so that only the operands are left to compare
  have hoperation : ∀ role, Alike Error.SameReport Eq ((s.withAttributes first).operation role op)
      ((s.withAttributes second).operation role op) :=
    fun role => .refl Error.SameReport.same (fun _ => rfl) _
  unfold compileCriterion
  cases hplan : op.plan with
  | single role =>
      have hhanded : op.handed v = [v] := by rw [Operator.handed, hplan]
      refine (hoperation role).bind_eq fun f => ?_
      refine (alike_operand h s op (hv v (by simp [hhanded]))).bind_eq fun value => ?_
      exact .ok rfl
  | each role c =>
      have hhanded : op.handed v = v.unwrap.toItems := by rw [Operator.handed, hplan]
      refine (hoperation role).bind_eq fun f => ?_
      rw [itemFragments_eq, itemFragments_eq]
      have hitems := Alike.mapM fun item hitem =>
        alike_operand h s op (hv item (hhanded ▸ hitem))
      refine (hitems.map (S := Eq) fun _ _ hvalues => by rw [hvalues]).bind_eq fun fragments => ?_
      exact .ok rfl
  | range =>
      refine (hoperation .between).bind_eq fun f => ?_
      cases hrange : v.unwrap.toRange with
      | error e => exact .error (.same _)
      | ok range =>
          obtain ⟨low, high⟩ := range
          have hhanded := Operator.handed_range hplan hrange
          refine (alike_operand h s op (hv low (by simp [hhanded]))).bind_eq fun low' => ?_
          refine (alike_operand h s op (hv high (by simp [hhanded]))).bind_eq fun high' => ?_
          exact .ok rfl
  | presence => exact (hoperation _).bind fun f _ hf => .ok (by rw [hf])
  | emptiness => exact (hoperation _).bind fun f _ hf => .ok (by rw [hf])

/-! ## Trees -/

/-- A leaf is compiled alike when the maps agree on its attribute and on what its values refer to. -/
theorem alike_compileLeaf {l : Leaf} (hname : l.name ∈ names)
    (hvalues : ∀ name ∈ l.references, name ∈ names) :
    Alike Error.SameReport Eq (compileNode (s.withAttributes first) l.toNode)
      (compileNode (s.withAttributes second) l.toNode) := by
  have hcriterion : ∀ reference, ∀ criterion ∈ l.criteria, Alike Error.SameReport Eq
      (compileCriterion (s.withAttributes first) reference criterion.1 criterion.2)
      (compileCriterion (s.withAttributes second) reference criterion.1 criterion.2) := by
    intro reference criterion hcriterion
    refine alike_compileCriterion h s reference fun x hx name hreference => hvalues name ?_
    exact List.mem_flatMap.mpr ⟨criterion, hcriterion, List.mem_filterMap.mpr ⟨x, hx, hreference⟩⟩
  rw [Leaf.toNode, compileNode, compileNode, compileLeaf, compileLeaf]
  have href : Alike Error.SameReport Eq ((s.withAttributes first).referenceOf (.text l.name))
      ((s.withAttributes second).referenceOf (.text l.name)) :=
    Surface.alike_referenceOf h s fun text htext => by rwa [← Option.some.inj htext]
  refine href.bind_eq fun reference => ?_
  rw [compileCriteria_eq_mapM, compileCriteria_eq_mapM]
  refine (Alike.mapM (hcriterion reference)).bind_eq fun parts => ?_
  exact .ok rfl

/-- A filter is compiled alike when the maps agree on all that its leaves need. -/
theorem alike_compileNode (n : Node) :
    (∀ l ∈ n.leaves, l.name ∈ names ∧ ∀ name ∈ l.references, name ∈ names) →
      Alike Error.SameReport Eq (compileNode (s.withAttributes first) n)
        (compileNode (s.withAttributes second) n) := by
  induction n using Node.memberInduction with
  | leaf name criteria joiner id label =>
      intro hleaves
      obtain ⟨hname, hvalues⟩ := hleaves _ List.mem_cons_self
      exact alike_compileLeaf h s hname hvalues
  | group ands ors nots id label hands hors hnots =>
      intro hleaves
      obtain ⟨lands, lors, lnots⟩ := Node.forall_leaves_group.mp hleaves
      rw [compileNode, compileNode]
      simp only [compileMembers_eq_mapM]
      refine (Alike.mapM fun n hn => hands n hn (lands n hn)).bind_eq fun eands => ?_
      refine (Alike.mapM fun n hn => hors n hn (lors n hn)).bind_eq fun eors => ?_
      refine (Alike.mapM fun n hn => hnots n hn (lnots n hn)).bind_eq fun enots => ?_
      exact .ok rfl

end

/-! ## Filters built under a whitelist -/

/-- The attributes of the leaves of a filter that is built under a whitelist are listed there. -/
theorem listed_of_buildFilter {w : Whitelist} {raw : Value} {g : Group} (hraw : raw.isData = true)
    (hbuild : buildFilter (some w) raw = .ok g) :
    ∀ l ∈ g.leaves, l.name ∈ Fields.keys w.entries := by
  obtain ⟨n, hn, rfl⟩ := map_eq_ok_iff.mp hbuild
  rw [Group.leaves_ofNode]
  intro l hl
  have hfree : raw.isNodeFree = true := (Bool.and_eq_true_iff.mp hraw).2
  -- a leaf without criteria would use no operator, so that nothing of it would be checked
  obtain ⟨criterion, hcriterion⟩ := List.exists_mem_of_ne_nil _
    (canonical_of_buildAt hraw hn l hl).criteria_ne_nil
  have huse : (l.name, criterion.1) ∈ n.uses :=
    List.mem_flatMap.mpr ⟨l, hl, List.mem_map.mpr ⟨criterion, hcriterion, rfl⟩⟩
  obtain ⟨operators, hoperators, -⟩ := (guards_buildAt hfree rootPath).allows_of_ok hn _ huse
  exact List.mem_map.mpr ⟨_, Fields.mem_of_get? hoperators, rfl⟩

/-- **What is not listed does not influence compiled filters unless they refer to it.** A filter that
is built from plain data under a whitelist is compiled alike over two maps of attributes with the same
names, to the same text or to errors that report the same, when the maps agree on every listed
attribute and on every attribute that a value handed to the surface refers to. -/
theorem alike_compile_of_agreeOn {w : Whitelist} {raw : Value} {g : Group} (hraw : raw.isData = true)
    (hbuild : buildFilter (some w) raw = .ok g) (s : Surface) {first second : Fields}
    (h : Fields.AgreeOn (Fields.keys w.entries ++ g.references) first second) :
    Alike Error.SameReport Eq
      ((compile (s.withAttributes first) (.node g.toNode)).map Expr.render)
      ((compile (s.withAttributes second) (.node g.toNode)).map Expr.render) := by
  have hnode := alike_compileNode h s g.toNode fun l hl =>
    ⟨List.mem_append_left _ (listed_of_buildFilter hraw hbuild l hl), fun name hname =>
      List.mem_append_right _ (List.mem_flatMap.mpr ⟨l, hl, hname⟩)⟩
  exact hnode.map fun _ _ => congrArg Expr.render

/-- Names that are the nickname. -/
def nicknamed : Value :=
  .record [("name", .record [("eq", .record [("val", .text "nick"), ("valType", .text "propRef")])])]

/-- What the filter on nicknames is built to. -/
def nicknamedGroup : Group where
  ands := [.leaf "name"
    [(.equals, .record [("val", .text "nick"), ("valType", .text "propRef")])] .and .null .null]

/-- A surface that writes equations and lets references stand for themselves. -/
def equatingSurface : Surface where
  attributes := []
  operations := [("eq", fun arguments => " = ".intercalate (arguments.map Value.asText))]
  renamed := []

/-- The attributes of a person, with given references for the nickname and the age. -/
def personAttributes (nick age : String) : Fields :=
  [("name", .text "#n"), ("nick", .text nick), ("age", .text age)]

/-- Names that are the nickname depend neither on the age nor on the order of the attributes. -/
theorem nicknamed_without_age :
    nicknamed.isData = true ∧ buildFilter (some ⟨[("name", [])]⟩) nicknamed = .ok nicknamedGroup ∧
      Fields.AgreeOn (["name"] ++ nicknamedGroup.references) (personAttributes "#k" "#a")
        (personAttributes "#k" "#b").reverse ∧
      Alike Error.SameReport Eq
        ((compile (equatingSurface.withAttributes (personAttributes "#k" "#a"))
          (.node nicknamedGroup.toNode)).map Expr.render)
        ((compile (equatingSurface.withAttributes (personAttributes "#k" "#b").reverse)
          (.node nicknamedGroup.toNode)).map Expr.render) := by
  have hdata : nicknamed.isData = true := by decide
  have hbuild : buildFilter (some ⟨[("name", [])]⟩) nicknamed = .ok nicknamedGroup := rfl
  have hagree : Fields.AgreeOn (["name"] ++ nicknamedGroup.references) (personAttributes "#k" "#a")
      (personAttributes "#k" "#b").reverse :=
    ⟨by decide, by decide⟩
  exact ⟨hdata, hbuild, hagree,
    alike_compile_of_agreeOn hdata hbuild equatingSurface hagree⟩

/-- A whitelist that lists the name alone does not keep the nickname out of the text. -/
theorem nickname_not_hidden :
    nicknamed.isData = true ∧ buildFilter (some ⟨[("name", [])]⟩) nicknamed = .ok nicknamedGroup ∧
      Fields.AgreeOn ["name"] (personAttributes "#k" "#a") (personAttributes "#l" "#a") ∧
      (compile (equatingSurface.withAttributes (personAttributes "#k" "#a"))
        (.node nicknamedGroup.toNode)).map Expr.render = .ok "#n = #k" ∧
      (compile (equatingSurface.withAttributes (personAttributes "#l" "#a"))
        (.node nicknamedGroup.toNode)).map Expr.render = .ok "#n = #l" :=
  ⟨by decide, rfl, ⟨by decide, by decide⟩, rfl, rfl⟩

end RecordQuery
