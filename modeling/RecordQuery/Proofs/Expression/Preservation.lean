import RecordQuery.Proofs.Expression.Meaning
import RecordQuery.Proofs.Outcome
/-!
# Compiling preserves the meaning of filters

A compiled filter is written as a proper expression over the fragments of its criteria, and under
every assignment of these fragments the expression is true exactly when the filter is. A filter
without fragments asks for nothing and is written as the empty text. What the compiler keeps at
every member of a group is `Expr.Means`: it relates an expression to the fragments and the demand of
the filter that it is compiled from.
-/

namespace RecordQuery

/-! ## Joining expressions -/

namespace Expr

/-- A blank expression is the one without a fragment. -/
theorem atoms_of_isBlank {e : Expr} (h : e.isBlank = true) : e.atoms = [] := by
  cases e with
  | atom fragment =>
      have hempty : fragment = "" := String.isEmpty_iff.mp h
      simp [atoms, hempty]
  | negation operand => exact absurd h (by simp [isBlank])
  | join c operands => exact absurd h (by simp [isBlank])

/-- An expression that is not blank asks for its truth. -/
theorem demand_of_not_blank (assignment : String → Bool) {e : Expr} (h : e.isBlank = false) :
    e.demand assignment = some (e.value assignment) := by
  rw [demand, h]
  rfl

/-- The fragments of a join are those of its operands. -/
theorem atoms_joined (c : Connective) (operands : List Expr) :
    (joined c operands).atoms = operands.flatMap atoms := by
  match operands with
  | [] => rfl
  | [operand] => simp
  | _ :: _ :: _ => exact atoms_join c _

/-- A join of operands of which none is blank is blank only without operands. -/
theorem joined_not_blank (c : Connective) {operands : List Expr} (hne : operands ≠ [])
    (h : ∀ operand ∈ operands, operand.isBlank = false) : (joined c operands).isBlank = false := by
  match operands with
  | [] => exact absurd rfl hne
  | [operand] => exact h operand List.mem_cons_self
  | _ :: _ :: _ => rfl

/-- A join is true when its operands, taken together, are. -/
theorem value_joined (assignment : String → Bool) {c : Connective} (hc : c ≠ .not)
    {operands : List Expr} (hne : operands ≠ []) :
    (joined c operands).value assignment = c.combine (operands.map (value assignment)) := by
  match operands with
  | [] => exact absurd rfl hne
  | [operand] =>
      cases c with
      | and => simp [Connective.combine]
      | or => simp [Connective.combine]
      | not => exact absurd rfl hc
  | _ :: _ :: _ => exact value_join assignment c _

/-- A join of operands of which none is blank asks for what their truths ask for together. -/
theorem demand_joined (assignment : String → Bool) {c : Connective} (hc : c ≠ .not)
    {operands : List Expr} (h : ∀ operand ∈ operands, operand.isBlank = false) :
    (joined c operands).demand assignment =
      c.demand ((operands.map (value assignment)).map some) := by
  by_cases hne : operands = []
  · rw [hne]
    rfl
  · rw [demand_of_not_blank assignment (joined_not_blank c hne h), value_joined assignment hc hne,
      c.demand_map_some (fun hnil => hne (List.map_eq_nil_iff.mp hnil))]

/-- A join of proper operands is proper, if there are any. -/
theorem proper_joined {c : Connective} (hc : c ≠ .not) {operands : List Expr} (hne : operands ≠ [])
    (h : ∀ operand ∈ operands, operand.Proper) : (joined c operands).Proper := by
  match operands with
  | [] => exact absurd rfl hne
  | [operand] => exact h operand List.mem_cons_self
  | _ :: _ :: _ => exact .join hc (by simp) h

/-! ## Leaving out blank operands -/

/-- The operands that are not blank. -/
def demanding (operands : List Expr) : List Expr :=
  operands.filter fun operand => !operand.isBlank

theorem joinDemands_eq (c : Connective) (operands : List Expr) :
    joinDemands c operands = joined c (demanding operands) := rfl

theorem refuseAll_eq (operands : List Expr) :
    refuseAll operands = joined .and ((demanding operands).map negation) := rfl

theorem not_blank_of_mem_demanding {operands : List Expr} {operand : Expr}
    (h : operand ∈ demanding operands) : operand ∈ operands ∧ operand.isBlank = false := by
  simpa [demanding] using h

/-- The operands that are not blank have all the fragments. -/
theorem flatMap_atoms_demanding (operands : List Expr) :
    (demanding operands).flatMap atoms = operands.flatMap atoms := by
  induction operands with
  | nil => rfl
  | cons operand rest ih =>
      rw [demanding] at ih ⊢
      cases hb : operand.isBlank with
      | true => simp [hb, ih, atoms_of_isBlank hb]
      | false => simp [hb, ih]

/-- The demands that are left are the truths of the operands that are not blank. -/
theorem reduceOption_map_demand (assignment : String → Bool) (operands : List Expr) :
    (operands.map (demand assignment)).reduceOption =
      (demanding operands).map (value assignment) := by
  induction operands with
  | nil => rfl
  | cons operand rest ih =>
      rw [demanding] at ih ⊢
      cases hb : operand.isBlank with
      | true => simp [demand, hb, List.reduceOption_cons_of_none, ih]
      | false => simp [demand, hb, List.reduceOption_cons_of_some, ih]

end Expr

/-- A join sees only the demands that are left. -/
theorem Connective.demand_eq_of_reduceOption (c : Connective) {demands : List (Option Bool)}
    {truths : List Bool} (h : demands.reduceOption = truths) :
    c.demand demands = c.demand (truths.map some) := by
  have hsome : (truths.map some).reduceOption = truths := by
    rw [List.reduceOption, List.filterMap_map]
    exact List.filterMap_some
  rw [demand, demand, h, hsome]

/-! ## Expressions and what they mean -/

/-- What a part of a filter contributes: its fragments, and its demand under every assignment. -/
structure Meaning where
  fragments : List String
  demand : (String → Bool) → Option Bool

/-- The meaning of joined parts. -/
def Connective.meaning (c : Connective) (parts : List Meaning) : Meaning :=
  ⟨parts.flatMap Meaning.fragments, fun assignment =>
    c.demand (parts.map fun part => part.demand assignment)⟩

/-- The meaning of a criterion on a named attribute. -/
def Surface.meaning (s : Surface) (name : String) (op : Operator) (v : Value) : Meaning :=
  ⟨s.fragments name op v, fun assignment => s.holds assignment name op v⟩

/-- The meaning of a filter. -/
def Node.meaning (s : Surface) (n : Node) : Meaning :=
  ⟨n.fragments s, fun assignment => n.value (s.holds assignment)⟩

theorem Node.meaning_leaf (s : Surface) (name : String) (criteria : Criteria) (joiner : Connective)
    (id label : Value) :
    (Node.leaf name criteria joiner id label).meaning s =
      joiner.meaning (criteria.map fun criterion => s.meaning name criterion.1 criterion.2) := by
  simp only [meaning, Connective.meaning, fragments, leaves_leaf, List.flatMap_singleton,
    Leaf.fragments, List.flatMap_map, Surface.meaning, value_leaf, List.map_map]
  rfl

theorem Node.meaning_group (s : Surface) (ands ors nots : List Node) (id label : Value) :
    (Node.group ands ors nots id label).meaning s =
      Connective.and.meaning
        [Connective.and.meaning (ands.map (meaning s)), Connective.or.meaning (ors.map (meaning s)),
          Connective.not.meaning (nots.map (meaning s))] := by
  simp only [meaning, Connective.meaning, fragments_group, value_group, List.flatMap_map,
    List.flatMap_cons, List.flatMap_nil, List.append_nil, List.append_assoc, List.map_cons,
    List.map_nil, List.map_map]
  rfl

/-- The expression has the fragments of a part of a filter, is proper unless it is blank, and asks
for the same under every assignment. -/
structure Expr.Means (e : Expr) (part : Meaning) : Prop where
  atoms : e.atoms = part.fragments
  proper : e.isBlank = false → e.Proper
  demand : ∀ assignment, e.demand assignment = part.demand assignment

namespace Expr

theorem flatMap_atoms_of_means {es : List Expr} {parts : List Meaning}
    (h : List.Forall₂ Means es parts) : es.flatMap atoms = parts.flatMap Meaning.fragments := by
  rw [List.flatMap_def, List.flatMap_def,
    map_eq_map_of_forall₂ (fun _ _ hm => hm.atoms) h]

theorem map_demand_of_means {es : List Expr} {parts : List Meaning}
    (h : List.Forall₂ Means es parts) (assignment : String → Bool) :
    es.map (demand assignment) = parts.map fun part => part.demand assignment :=
  map_eq_map_of_forall₂ (fun _ _ hm => hm.demand assignment) h

theorem proper_of_mem_demanding {es : List Expr} {parts : List Meaning}
    (h : List.Forall₂ Means es parts) {e : Expr} (he : e ∈ demanding es) : e.Proper := by
  obtain ⟨hmem, hb⟩ := not_blank_of_mem_demanding he
  induction h with
  | nil => exact absurd hmem List.not_mem_nil
  | cons hm _ ih =>
      rcases List.mem_cons.mp hmem with rfl | hmem
      · exact hm.proper hb
      · exact ih (by simpa [demanding, hb] using hmem) hmem

/-- A join asks for what its operands ask for together. -/
theorem demand_joinDemands (assignment : String → Bool) {c : Connective} (hc : c ≠ .not)
    (es : List Expr) :
    (joinDemands c es).demand assignment = c.demand (es.map (demand assignment)) := by
  have hnb : ∀ e ∈ demanding es, e.isBlank = false := fun e he => (not_blank_of_mem_demanding he).2
  rw [joinDemands_eq, demand_joined assignment hc hnb]
  exact (c.demand_eq_of_reduceOption (reduceOption_map_demand assignment es)).symm

/-- Joining expressions joins their meanings. -/
theorem means_joinDemands {c : Connective} (hc : c ≠ .not) {es : List Expr} {parts : List Meaning}
    (h : List.Forall₂ Means es parts) : (joinDemands c es).Means (c.meaning parts) := by
  refine ⟨?_, fun hb => ?_, fun assignment => ?_⟩
  · rw [joinDemands_eq, atoms_joined, flatMap_atoms_demanding, flatMap_atoms_of_means h]
    rfl
  · rw [joinDemands_eq] at hb ⊢
    refine proper_joined hc (fun hnil => ?_) fun e he => proper_of_mem_demanding h he
    rw [hnil] at hb
    exact absurd hb (by simp [blank, isBlank])
  · rw [demand_joinDemands assignment hc, map_demand_of_means h assignment]
    rfl

/-- That none of some conditions holds is that all their negations hold. -/
theorem combine_and_map_not (truths : List Bool) :
    Connective.and.combine (truths.map not) = Connective.not.combine truths := by
  induction truths with
  | nil => rfl
  | cons b rest ih =>
      simp only [Connective.combine, List.map_cons, List.all_cons, List.any_cons, id_eq] at ih ⊢
      rw [ih, Bool.not_or]

/-- Refusing expressions asks for none of what they ask for. -/
theorem demand_refuseAll (assignment : String → Bool) (es : List Expr) :
    (refuseAll es).demand assignment = Connective.not.demand (es.map (demand assignment)) := by
  have hnb : ∀ e ∈ (demanding es).map negation, e.isBlank = false := by
    intro e he
    obtain ⟨operand, -, rfl⟩ := List.mem_map.mp he
    rfl
  have hvalues : ((demanding es).map negation).map (value assignment) =
      ((demanding es).map (value assignment)).map not := by
    rw [List.map_map, List.map_map]
    rfl
  rw [refuseAll_eq, demand_joined assignment (by decide) hnb, hvalues,
    Connective.not.demand_eq_of_reduceOption (reduceOption_map_demand assignment es)]
  -- with no truth left neither side asks for anything; else the two joins agree
  cases hv : (demanding es).map (value assignment) with
  | nil => rfl
  | cons b rest =>
      rw [Connective.demand_map_some _ (by simp), Connective.demand_map_some _ (by simp),
        combine_and_map_not]

/-- Refusing expressions means that none of the parts holds. -/
theorem means_refuseAll {es : List Expr} {parts : List Meaning}
    (h : List.Forall₂ Means es parts) : (refuseAll es).Means (Connective.not.meaning parts) := by
  refine ⟨?_, fun hb => ?_, fun assignment => ?_⟩
  · show _ = parts.flatMap Meaning.fragments
    rw [refuseAll_eq, atoms_joined, List.flatMap_map, ← flatMap_atoms_of_means h,
      ← flatMap_atoms_demanding]
    rfl
  · rw [refuseAll_eq] at hb ⊢
    refine proper_joined (by decide) (fun hnil => ?_) fun e he => ?_
    · rw [hnil] at hb
      exact absurd hb (by simp [blank, isBlank])
    · obtain ⟨operand, hop, rfl⟩ := List.mem_map.mp he
      exact .negation (proper_of_mem_demanding h hop)
  · rw [demand_refuseAll, map_demand_of_means h assignment]
    rfl

end Expr

/-! ## Criteria -/

/-- Every function of the surface returns a text that is not empty. -/
def Surface.Speaks (s : Surface) : Prop :=
  ∀ entry ∈ s.operations, ∀ arguments, entry.2 arguments ≠ ""

/-- What is found in a map is one of its entries. -/
theorem Surface.mem_of_find? {α : Type} {entries : List (String × α)} {key : Value} {a : α}
    (h : find? entries key = .ok (some a)) : ∃ name, (name, a) ∈ entries := by
  rw [find?] at h
  cases hkey : key.text? with
  | none =>
      rw [hkey] at h
      by_cases hlookup : key.isLookupKey = true
      · simp [hlookup] at h
      · simp [hlookup] at h
  | some name =>
      rw [hkey] at h
      obtain ⟨before, after, heq, -⟩ := List.lookup_eq_some_iff.mp (Except.ok.inj h)
      exact ⟨name, by rw [heq]; simp⟩

/-- A function that the surface has for a role is one of its functions. -/
theorem Surface.mem_of_operation {s : Surface} {role : Role} {op : Operator} {f : Operation}
    (h : s.operation role op = .ok f) : ∃ name, (name, f) ∈ s.operations := by
  rw [operation] at h
  obtain ⟨found, hfound, h⟩ := bind_eq_ok_iff.mp h
  cases found with
  | none => exact absurd h (by simp)
  | some g =>
      obtain rfl : g = f := Except.ok.inj h
      exact mem_of_find? (liftFault_eq_ok_iff.mp hfound)

/-- The fragments for the items of a list are those of a pass over its items. -/
theorem itemFragments_eq (s : Surface) (op : Operator) (f : Operation) (reference : Value)
    (items : List Value) :
    itemFragments s op f reference items =
      (items.mapM (operand s op)).map fun values =>
        values.map fun value => Expr.atom (f [reference, value]) := by
  induction items with
  | nil => rfl
  | cons item rest ih =>
      rw [itemFragments, List.mapM_cons, map_bind, ih]
      congr 1
      funext value
      cases rest.mapM (operand s op) with
      | error e => rfl
      | ok values => rfl

/-- The connective of an operator on several values is the way in which its values belong
together. -/
theorem Operator.quantifier_of_plan {op : Operator} {role : Role} {c : Connective}
    (h : op.plan = .each role c) : op.quantifier = c := by
  cases op <;> simp [plan] at h <;> simp [quantifier, h]

/-- The expression for a criterion joins its fragments. -/
theorem compileCriterion_eq (s : Surface) (reference : Value) (op : Operator) (v : Value) :
    compileCriterion s reference op v =
      (s.fragmentsOf reference op v).map fun texts =>
        Expr.joined op.quantifier (texts.map Expr.atom) := by
  rw [compileCriterion, Surface.fragmentsOf]
  cases hplan : op.plan with
  | each role c =>
      rw [Operator.quantifier_of_plan hplan]
      simp only [itemFragments_eq, map_bind]
      congr 1
      funext f
      cases (v.unwrap.toItems.mapM (operand s op)) with
      | error e => rfl
      | ok values => simp [Except.map, List.map_map, Function.comp_def]
  | single role => simp only [map_bind]; rfl
  | range => simp only [map_bind]; rfl
  | presence => simp only [map_bind]; rfl
  | emptiness => simp only [map_bind]; rfl

/-- The role for which a criterion needs a function. -/
def Operator.role (op : Operator) (v : Value) : Role :=
  match op.plan with
  | .single role => role
  | .each role _ => role
  | .range => .between
  | .presence => if v.unwrap.truthy then .present else .missing
  | .emptiness => if v.unwrap.truthy then .equals else .differs

/-- How many comparisons a criterion makes: one for each value of an operator on several values, and
a single one for every other operator. -/
def Operator.comparisons (op : Operator) (v : Value) : Nat :=
  match op.plan with
  | .each _ _ => v.unwrap.toItems.length
  | .single _ | .range | .presence | .emptiness => 1

/-- The fragments for a criterion are written by the function for its role, one for each
comparison. -/
theorem Surface.fragmentsOf_spec {s : Surface} {reference v : Value} {op : Operator}
    {texts : List String} (h : s.fragmentsOf reference op v = .ok texts) :
    texts.length = op.comparisons v ∧ ∃ f, s.operation (op.role v) op = .ok f ∧
      ∀ text ∈ texts, ∃ arguments, f arguments = text := by
  unfold fragmentsOf at h
  unfold Operator.comparisons Operator.role
  cases hplan : op.plan with
  | single role =>
      rw [hplan] at h
      obtain ⟨f, hf, h⟩ := bind_eq_ok_iff.mp h
      obtain ⟨value, -, h⟩ := bind_eq_ok_iff.mp h
      obtain rfl := Except.ok.inj h
      exact ⟨rfl, f, hf, List.forall_mem_singleton.mpr ⟨_, rfl⟩⟩
  | each role c =>
      rw [hplan] at h
      obtain ⟨f, hf, h⟩ := bind_eq_ok_iff.mp h
      obtain ⟨values, hvalues, h⟩ := bind_eq_ok_iff.mp h
      obtain rfl := Except.ok.inj h
      refine ⟨?_, f, hf, List.forall_mem_map.mpr fun value _ => ⟨_, rfl⟩⟩
      rw [List.length_map]
      exact (mapM_eq_ok_iff.mp hvalues).length_eq.symm
  | range =>
      rw [hplan] at h
      obtain ⟨f, hf, h⟩ := bind_eq_ok_iff.mp h
      obtain ⟨⟨low, high⟩, -, h⟩ := bind_eq_ok_iff.mp h
      obtain ⟨a, -, h⟩ := bind_eq_ok_iff.mp h
      obtain ⟨b, -, h⟩ := bind_eq_ok_iff.mp h
      obtain rfl := Except.ok.inj h
      exact ⟨rfl, f, hf, List.forall_mem_singleton.mpr ⟨_, rfl⟩⟩
  | presence | emptiness =>
      rw [hplan] at h
      obtain ⟨f, hf, h⟩ := bind_eq_ok_iff.mp h
      obtain rfl := Except.ok.inj h
      exact ⟨rfl, f, hf, List.forall_mem_singleton.mpr ⟨_, rfl⟩⟩

/-- Every fragment for a criterion is what a function of the surface returns. -/
theorem Surface.returned_of_mem_fragmentsOf {s : Surface} {reference v : Value} {op : Operator}
    {texts : List String} (h : s.fragmentsOf reference op v = .ok texts) :
    ∀ text ∈ texts, ∃ entry ∈ s.operations, ∃ arguments, entry.2 arguments = text := by
  obtain ⟨-, f, hf, hwritten⟩ := fragmentsOf_spec h
  obtain ⟨name, hmem⟩ := mem_of_operation hf
  intro text htext
  exact ⟨(name, f), hmem, hwritten text htext⟩

namespace Expr

/-- A fragment that is not empty means itself. -/
theorem means_atom {fragment : String} (h : fragment ≠ "") :
    (atom fragment).Means ⟨[fragment], fun assignment => some (assignment fragment)⟩ := by
  have hb : (atom fragment).isBlank = false := by
    rw [isBlank]
    exact Bool.eq_false_iff.mpr fun hempty => h (String.isEmpty_iff.mp hempty)
  refine ⟨?_, fun _ => .atom h, fun assignment => ?_⟩
  · rw [atoms, if_neg h]
  · rw [demand_of_not_blank assignment hb, value]

/-- The join of fragments that are not empty means what the fragments mean together. -/
theorem means_joined_fragments {c : Connective} (hc : c ≠ .not) {texts : List String}
    (h : ∀ text ∈ texts, text ≠ "") :
    (joined c (texts.map atom)).Means
      ⟨texts, fun assignment => c.demand (texts.map fun text => some (assignment text))⟩ := by
  have hparts : List.Forall₂ Means (texts.map atom)
      (texts.map fun text => ⟨[text], fun assignment => some (assignment text)⟩) := by
    rw [List.forall₂_map_left_iff, List.forall₂_map_right_iff, List.forall₂_same]
    exact fun text htext => means_atom (h text htext)
  have hall : demanding (texts.map atom) = texts.map atom := by
    refine List.filter_eq_self.mpr fun e he => ?_
    obtain ⟨text, htext, rfl⟩ := List.mem_map.mp he
    simpa [isBlank] using h text htext
  have hmeans := means_joinDemands hc hparts
  rw [joinDemands_eq, hall] at hmeans
  simpa [Connective.meaning, List.flatMap_map, List.map_map, Function.comp_def] using hmeans

end Expr

/-- The values of no operator are joined by negation. -/
theorem Operator.quantifier_ne_not (op : Operator) : op.quantifier ≠ .not := by
  cases op <;> decide

/-- A compiled criterion means what the criterion does. -/
theorem compileCriterion_means {s : Surface} (hs : s.Speaks) {name : String} {reference : Value}
    (href : s.referenceOf (.text name) = .ok reference) {op : Operator} {v : Value} {e : Expr}
    (h : compileCriterion s reference op v = .ok e) : e.Means (s.meaning name op v) := by
  rw [compileCriterion_eq] at h
  obtain ⟨texts, htexts, rfl⟩ := map_eq_ok_iff.mp h
  have hfragments : s.fragments name op v = texts := by
    rw [Surface.fragments, href, ok_bind, htexts]
  have hne : ∀ text ∈ texts, text ≠ "" := by
    intro text htext
    obtain ⟨entry, hentry, arguments, rfl⟩ := Surface.returned_of_mem_fragmentsOf htexts text htext
    exact hs entry hentry arguments
  have hmeans := Expr.means_joined_fragments op.quantifier_ne_not hne
  rw [Surface.meaning]
  simp only [Surface.holds, hfragments]
  exact hmeans

/-! ## Trees -/

/-- Criteria are compiled one by one. -/
theorem compileCriteria_eq_mapM (s : Surface) (reference : Value) (criteria : Criteria) :
    compileCriteria s reference criteria =
      criteria.mapM fun criterion => compileCriterion s reference criterion.1 criterion.2 := by
  induction criteria with
  | nil => rfl
  | cons criterion rest ih => rw [compileCriteria, ih, List.mapM_cons]

/-- The members of a branch are compiled one by one. -/
theorem compileMembers_eq_mapM (s : Surface) (ns : List Node) :
    compileMembers s ns = ns.mapM (compileNode s) := by
  induction ns with
  | nil => rfl
  | cons n rest ih => rw [compileMembers, ih, List.mapM_cons]

/-- A leaf is compiled when its attribute has a reference and every criterion is compiled; the
criteria are then joined. -/
theorem compileLeaf_eq_ok_iff {s : Surface} {name : String} {criteria : Criteria}
    {joiner : Connective} {e : Expr} :
    compileLeaf s name criteria joiner = .ok e ↔
      ∃ reference parts, s.referenceOf (.text name) = .ok reference ∧
        criteria.mapM (fun criterion => compileCriterion s reference criterion.1 criterion.2) =
          .ok parts ∧ Expr.joinDemands joiner parts = e := by
  simp only [compileLeaf, compileCriteria_eq_mapM, bind_eq_ok_iff, pure_eq_ok, Except.ok.injEq,
    exists_and_left]

/-- A group is compiled when every member is; its three branches are then joined. -/
theorem compileNode_group_eq_ok_iff {s : Surface} {ands ors nots : List Node} {id label : Value}
    {e : Expr} :
    compileNode s (.group ands ors nots id label) = .ok e ↔
      ∃ eands eors enots, ands.mapM (compileNode s) = .ok eands ∧
        ors.mapM (compileNode s) = .ok eors ∧ nots.mapM (compileNode s) = .ok enots ∧
        Expr.joinDemands .and
          [Expr.joinDemands .and eands, Expr.joinDemands .or eors, refuseAll enots] = e := by
  simp only [compileNode, compileMembers_eq_mapM, bind_eq_ok_iff, pure_eq_ok, Except.ok.injEq,
    exists_and_left]

/-- A compiled filter means what the filter does. -/
theorem compileNode_means {s : Surface} (hs : s.Speaks) (n : Node) :
    (∀ l ∈ n.leaves, l.joiner ≠ .not) → ∀ e, compileNode s n = .ok e → e.Means (n.meaning s) := by
  induction n using Node.memberInduction with
  | leaf name criteria joiner id label =>
      intro hjoin e h
      have hjoiner : joiner ≠ .not := hjoin _ List.mem_cons_self
      obtain ⟨reference, parts, href, hparts, rfl⟩ := compileLeaf_eq_ok_iff.mp h
      rw [Node.meaning_leaf]
      exact Expr.means_joinDemands hjoiner
        (forall₂_of_mapM (fun _ _ _ he => compileCriterion_means hs href he) hparts)
  | group ands ors nots id label hands hors hnots =>
      intro hjoin e h
      obtain ⟨jands, jors, jnots⟩ := Node.forall_leaves_group.mp hjoin
      obtain ⟨eands, eors, enots, ha, ho, hn, rfl⟩ := compileNode_group_eq_ok_iff.mp h
      have ma := forall₂_of_mapM (fun n hmem e he => hands n hmem (jands n hmem) e he) ha
      have mo := forall₂_of_mapM (fun n hmem e he => hors n hmem (jors n hmem) e he) ho
      have mn := forall₂_of_mapM (fun n hmem e he => hnots n hmem (jnots n hmem) e he) hn
      rw [Node.meaning_group]
      exact Expr.means_joinDemands (by decide)
        (.cons (Expr.means_joinDemands (by decide) ma)
          (.cons (Expr.means_joinDemands (by decide) mo) (.cons (Expr.means_refuseAll mn) .nil)))

/-- **Compiling preserves meaning.** On a surface whose functions return no empty text, a filter
whose leaves join by `and` or `or` is written as the empty text when it has no fragments, and asks
for nothing then. Otherwise its text is the written form of a proper expression with exactly the
fragments of the filter, which under every assignment is true when the filter is. -/
theorem compile_preserves_meaning {s : Surface} (hs : s.Speaks) {n : Node}
    (hn : ∀ l ∈ n.leaves, l.joiner ≠ .not) {output : String}
    (h : (compile s (.node n)).map Expr.render = .ok output) :
    (n.fragments s = [] →
      output = "" ∧ ∀ assignment, n.value (s.holds assignment) = none) ∧
    (n.fragments s ≠ [] →
      ∃ e : Expr, e.Proper ∧ e.render = output ∧ e.atoms = n.fragments s ∧
        ∀ assignment, n.value (s.holds assignment) = some (e.value assignment)) := by
  obtain ⟨e, he, rfl⟩ := map_eq_ok_iff.mp h
  have hm : e.Means (n.meaning s) := compileNode_means hs n hn e he
  have hdemand : ∀ assignment, n.value (s.holds assignment) = e.demand assignment :=
    fun assignment => (hm.demand assignment).symm
  have hatoms : e.atoms = n.fragments s := hm.atoms
  constructor
  · intro hnil
    have hb : e.isBlank = true := by
      by_contra hb
      exact (hm.proper (Bool.eq_false_iff.mpr hb)).atoms_ne_nil (hatoms.trans hnil)
    refine ⟨?_, fun assignment => ?_⟩
    · cases e with
      | atom fragment => exact String.isEmpty_iff.mp hb
      | negation operand => exact absurd hb (by simp [Expr.isBlank])
      | join c operands => exact absurd hb (by simp [Expr.isBlank])
    · rw [hdemand assignment, Expr.demand, if_pos hb]
  · intro hne
    have hb : e.isBlank = false := by
      refine Bool.eq_false_iff.mpr fun hb => hne ?_
      rw [← hatoms, Expr.atoms_of_isBlank hb]
    refine ⟨e, hm.proper hb, rfl, hatoms, fun assignment => ?_⟩
    rw [hdemand assignment, Expr.demand_of_not_blank assignment hb]

/-- A surface for one attribute, compared by order and by equality. -/
def ageSurface : Surface where
  attributes := [("age", .text "#age")]
  operations :=
    [("gt", fun _ => "adult"), ("eq", fun
      | [_, .int 30] => "thirty"
      | _ => "other")]
  renamed := []

/-- Adults whose age is not in a list; an empty group and an empty list stand beside. -/
def ageFilter : Node :=
  .group [.leaf "age" [(.greater, .int 18)] .and .null .null, .group [] [] [] .null .null] []
    [.leaf "age" [(.oneOf, .list [.int 30, .int 40])] .and .null .null,
      .leaf "age" [(.oneOf, .list [])] .and .null .null] .null .null

theorem ageSurface_speaks : ageSurface.Speaks := by
  intro entry hentry arguments
  rcases List.mem_pair.mp hentry with rfl | rfl
  · exact (by decide : "adult" ≠ "")
  · show (match arguments with | [_, Value.int 30] => "thirty" | _ => "other") ≠ ""
    split <;> decide

/-- The filter for ages is written as a proper expression over its three fragments. -/
theorem compile_ageFilter_preserves_meaning :
    ageSurface.Speaks ∧ (∀ l ∈ ageFilter.leaves, l.joiner ≠ .not) ∧
      (compile ageSurface (.node ageFilter)).map Expr.render =
        .ok "( adult AND NOT ( thirty OR other ) )" ∧
      ageFilter.fragments ageSurface = ["adult", "thirty", "other"] ∧
      ∃ e : Expr, e.Proper ∧ e.render = "( adult AND NOT ( thirty OR other ) )" ∧
        e.atoms = ["adult", "thirty", "other"] ∧
        ∀ assignment, ageFilter.value (ageSurface.holds assignment) = some (e.value assignment) := by
  have hleaves : ∀ l ∈ ageFilter.leaves, l.joiner ≠ .not := by decide
  have hcompile : (compile ageSurface (.node ageFilter)).map Expr.render =
      .ok "( adult AND NOT ( thirty OR other ) )" := rfl
  have hfragments : ageFilter.fragments ageSurface = ["adult", "thirty", "other"] := rfl
  obtain ⟨e, hproper, hrender, hatoms, hvalue⟩ :=
    (compile_preserves_meaning ageSurface_speaks hleaves hcompile).2 (by rw [hfragments]; simp)
  exact ⟨ageSurface_speaks, hleaves, hcompile, hfragments, e, hproper, hrender,
    hatoms.trans hfragments, hvalue⟩

end RecordQuery
