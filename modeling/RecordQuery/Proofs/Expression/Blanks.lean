import RecordQuery.Proofs.Expression.Trimming
/-!
# Blank fragments

A function of a surface may return the empty text for a comparison that makes no demand. Blank
fragments are left out where criteria, members and branches are joined, but not where an operator
joins its comparisons with several values. `blanks_vanish_iff` says for which filters the criteria of
functions that return nothing can be left out without a trace, and which expressions are without an
empty operand.
-/

namespace RecordQuery

/-! ## Functions that return nothing -/

namespace Surface

variable {s : Surface}

/-- The function for a role is the one under the name that the surface gives to the role. -/
theorem get?_of_operation {role : Role} {op : Operator} {f : Operation} {name : String}
    (h : s.operation role op = .ok f) (hname : (s.key role).text? = some name) :
    Fields.get? s.operations name = some f := by
  obtain ⟨found, hfound, h⟩ := bind_eq_ok_iff.mp h
  rw [find?, hname] at hfound
  obtain rfl := Except.ok.inj hfound
  cases hget : Fields.get? s.operations name with
  | none => rw [hget] at h; exact absurd h (by simp)
  | some g => rw [hget] at h; rw [Except.ok.inj h]

/-- The functions under these names return the empty text, whatever they are given. -/
def Mutes (s : Surface) (names : List String) : Prop :=
  ∀ name ∈ names, ∀ f, Fields.get? s.operations name = some f → ∀ arguments, f arguments = ""

/-- The criterion needs the function under one of these names. -/
def sends (s : Surface) (names : List String) (criterion : Operator × Value) : Bool :=
  (s.key (criterion.1.role criterion.2)).text?.any fun name => names.contains name

/-- The criterion makes at most one comparison if it needs the function under one of these names. -/
def SendsOne (s : Surface) (names : List String) (criterion : Operator × Value) : Prop :=
  s.sends names criterion = true → criterion.1.comparisons criterion.2 ≤ 1

/-- The fragments of a mute function are blank. -/
theorem fragmentsOf_muted {names : List String} (hs : s.Mutes names) {reference v : Value}
    {op : Operator} (hsends : s.sends names (op, v) = true) {texts : List String}
    (h : s.fragmentsOf reference op v = .ok texts) :
    texts = List.replicate (op.comparisons v) "" := by
  obtain ⟨hlength, f, hf, hwritten⟩ := fragmentsOf_spec h
  rw [sends] at hsends
  cases hname : (s.key (op.role v)).text? with
  | none => rw [hname] at hsends; exact absurd hsends (by simp)
  | some name =>
      rw [hname, Option.any_some, List.contains_iff_mem] at hsends
      refine List.eq_replicate_iff.mpr ⟨hlength, fun text htext => ?_⟩
      obtain ⟨arguments, rfl⟩ := hwritten text htext
      exact hs name hsends f (get?_of_operation hf hname) arguments

end Surface

/-! ## Leaving criteria out -/

namespace Node

mutual

/-- The filter without the criteria that pass a test. A leaf stays, even when no criterion is left. -/
def without (test : Operator × Value → Bool) : Node → Node
  | .leaf name criteria joiner id label =>
    .leaf name (criteria.filter fun criterion => !test criterion) joiner id label
  | .group ands ors nots id label =>
    .group (membersWithout test ands) (membersWithout test ors) (membersWithout test nots) id label
termination_by structural n => n

/-- The members of a branch without the criteria that pass a test. -/
def membersWithout (test : Operator × Value → Bool) : List Node → List Node
  | [] => []
  | n :: rest => n.without test :: membersWithout test rest
termination_by structural ns => ns

end

theorem membersWithout_eq_map (test : Operator × Value → Bool) (ns : List Node) :
    membersWithout test ns = ns.map (without test) := by
  induction ns with
  | nil => rfl
  | cons n rest ih => rw [membersWithout, ih, List.map_cons]

end Node

/-- The members of a branch are compiled without some criteria one by one. -/
theorem compileMembers_without (s : Surface) (test : Operator × Value → Bool) (ns : List Node) :
    compileMembers s (Node.membersWithout test ns) =
      ns.mapM fun n => compileNode s (n.without test) := by
  rw [compileMembers_eq_mapM, Node.membersWithout_eq_map, List.mapM_map]
  rfl

section

variable {s : Surface} {names : List String} (hs : s.Mutes names)

include hs

/-- A criterion that is sent to a mute function is written as nothing when it makes at most one
comparison, and as something otherwise. -/
theorem trimmed_compileCriterion {reference v : Value} {op : Operator}
    (hsends : s.sends names (op, v) = true) {e : Expr}
    (h : compileCriterion s reference op v = .ok e) :
    Expr.Trimmed (s.SendsOne names (op, v)) [e] [] := by
  rw [compileCriterion_eq] at h
  obtain ⟨texts, htexts, rfl⟩ := map_eq_ok_iff.mp h
  have hfew : op.comparisons v ≤ 1 ↔ s.SendsOne names (op, v) :=
    ⟨fun hone _ => hone, fun hone => hone hsends⟩
  refine Expr.Trimmed.congr ?_ hfew
  rw [Surface.fragmentsOf_muted hs hsends htexts, List.map_replicate]
  match op.comparisons v with
  | 0 => exact .dropped (fun _ => rfl) fun hnot => absurd (Nat.zero_le 1) hnot
  | 1 => exact .dropped (fun _ => rfl) fun hnot => absurd (Nat.le_refl 1) hnot
  | n + 2 =>
      refine .dropped (fun hone => absurd hone (by omega)) fun _ => ?_
      rw [Expr.length_render_joined, List.length_replicate, Expr.joinLength]
      omega

/-- The criteria that are sent to mute functions are left out of a leaf. -/
theorem trimmed_compileLeaf {name : String} {criteria : Criteria} {joiner : Connective} {e : Expr}
    (h : compileLeaf s name criteria joiner = .ok e) :
    ∃ e', compileLeaf s name (criteria.filter fun criterion => !s.sends names criterion) joiner =
        .ok e' ∧
      Expr.Trimmed (∀ criterion ∈ criteria, s.SendsOne names criterion) [e] [e'] := by
  obtain ⟨reference, parts, href, hparts, rfl⟩ := compileLeaf_eq_ok_iff.mp h
  have hkept : ∀ criterion ∈ criteria, (!s.sends names criterion) = true →
      s.SendsOne names criterion := by
    intro criterion _ hkeep hsends
    rw [hsends] at hkeep
    exact absurd hkeep (by decide)
  have hdropped : ∀ criterion ∈ criteria, (!s.sends names criterion) = false → ∀ e,
      compileCriterion s reference criterion.1 criterion.2 = .ok e →
      Expr.Trimmed (s.SendsOne names criterion) [e] [] := by
    intro criterion _ hkeep e he
    exact trimmed_compileCriterion hs ((Bool.not_eq_false' ..).mp hkeep) he
  obtain ⟨parts', hparts', htrimmed⟩ := Expr.Trimmed.filter hkept hdropped hparts
  exact ⟨_, compileLeaf_eq_ok_iff.mpr ⟨reference, parts', href, hparts', rfl⟩,
    htrimmed.joinDemands joiner⟩

/-- The criteria that are sent to mute functions are left out of a filter. -/
theorem trimmed_compileNode (n : Node) : ∀ e, compileNode s n = .ok e →
    ∃ e', compileNode s (n.without (s.sends names)) = .ok e' ∧
      Expr.Trimmed (∀ l ∈ n.leaves, ∀ criterion ∈ l.criteria, s.SendsOne names criterion) [e] [e'] := by
  induction n using Node.memberInduction with
  | leaf name criteria joiner id label =>
      intro e h
      obtain ⟨e', he', htrimmed⟩ := trimmed_compileLeaf hs h
      refine ⟨e', he', htrimmed.congr ?_⟩
      rw [Node.leaves_leaf, List.forall_mem_singleton]
  | group ands ors nots id label hands hors hnots =>
      intro e h
      obtain ⟨eands, eors, enots, ha, ho, hn, rfl⟩ := compileNode_group_eq_ok_iff.mp h
      obtain ⟨eands', ha', tands⟩ := Expr.Trimmed.mapM hands ha
      obtain ⟨eors', ho', tors⟩ := Expr.Trimmed.mapM hors ho
      obtain ⟨enots', hn', tnots⟩ := Expr.Trimmed.mapM hnots hn
      have hbranches := (tands.joinDemands .and).append
        ((tors.joinDemands .or).append tnots.refuseAll)
      refine ⟨_, ?_, (hbranches.joinDemands .and).congr Node.forall_leaves_group.symm⟩
      rw [Node.without, compileNode, compileMembers_without, compileMembers_without,
        compileMembers_without, ha', ok_bind, ho', ok_bind, hn', ok_bind, pure_eq_ok]
      rfl

end

/-! ## Empty operands -/

namespace Expr

/-- No operand of a join or of a negation is blank. -/
inductive Gapless : Expr → Prop
  | atom {fragment : String} : Gapless (.atom fragment)
  | negation {operand : Expr} : operand.isBlank = false → Gapless operand →
      Gapless (.negation operand)
  | join {c : Connective} {operands : List Expr} :
      (∀ operand ∈ operands, operand.isBlank = false) →
      (∀ operand ∈ operands, Gapless operand) → Gapless (.join c operands)

theorem gapless_of_isBlank {e : Expr} (h : e.isBlank = true) : e.Gapless := by
  cases e with
  | atom fragment => exact .atom
  | negation operand => exact absurd h (by simp [isBlank])
  | join c operands => exact absurd h (by simp [isBlank])

/-- Two or more operands are joined without a gap when none of them is blank. -/
theorem gapless_joined_iff {c : Connective} {operands : List Expr} :
    (joined c operands).Gapless ↔
      (2 ≤ operands.length → ∀ operand ∈ operands, operand.isBlank = false) ∧
        ∀ operand ∈ operands, operand.Gapless := by
  match operands with
  | [] => simp [joined, blank, Gapless.atom]
  | [operand] => simp [joined]
  | first :: second :: rest =>
      rw [forall_prop_of_true (by simp)]
      constructor
      · intro h
        cases h with
        | join hdemand hall => exact ⟨hdemand, hall⟩
      · rintro ⟨hdemand, hall⟩
        exact .join hdemand hall

/-- Blank expressions have no operands at all. -/
theorem forall_gapless_demanding_iff {operands : List Expr} :
    (∀ operand ∈ demanding operands, operand.Gapless) ↔ ∀ operand ∈ operands, operand.Gapless := by
  constructor
  · intro hall operand hmem
    cases hblank : operand.isBlank with
    | true => exact gapless_of_isBlank hblank
    | false => exact hall operand (List.mem_filter.mpr ⟨hmem, by rw [hblank]; rfl⟩)
  · exact fun hall operand hmem => hall operand (List.mem_of_mem_filter hmem)

/-- What makes a demand is joined without a gap. -/
theorem gapless_joinDemands_iff {c : Connective} {operands : List Expr} :
    (joinDemands c operands).Gapless ↔ ∀ operand ∈ operands, operand.Gapless := by
  rw [joinDemands_eq, gapless_joined_iff, forall_gapless_demanding_iff]
  exact and_iff_right fun _ _ hmem => (not_blank_of_mem_demanding hmem).2

/-- What makes a demand is refused without a gap. -/
theorem gapless_refuseAll_iff {operands : List Expr} :
    (refuseAll operands).Gapless ↔ ∀ operand ∈ operands, operand.Gapless := by
  have hnegation : ∀ operand ∈ demanding operands,
      ((negation operand).Gapless ↔ operand.Gapless) := by
    intro operand hmem
    refine ⟨fun h => ?_, .negation (not_blank_of_mem_demanding hmem).2⟩
    cases h with
    | negation _ hoperand => exact hoperand
  rw [refuseAll_eq, gapless_joined_iff, List.forall_mem_map, List.forall_mem_map,
    forall₂_congr hnegation, forall_gapless_demanding_iff]
  exact and_iff_right fun _ _ _ => rfl

end Expr

/-- A criterion is compiled without a gap unless it makes several comparisons of which one is
blank. -/
theorem gapless_compileCriterion_iff {s : Surface} {name : String} {reference v : Value}
    {op : Operator} (href : s.referenceOf (.text name) = .ok reference) {e : Expr}
    (h : compileCriterion s reference op v = .ok e) :
    e.Gapless ↔ (2 ≤ (s.fragments name op v).length → "" ∉ s.fragments name op v) := by
  rw [compileCriterion_eq] at h
  obtain ⟨texts, htexts, rfl⟩ := map_eq_ok_iff.mp h
  have hfragments : s.fragments name op v = texts := by
    rw [Surface.fragments, href, ok_bind, htexts]
  have hblank : ∀ text : String, (Expr.atom text).isBlank = false ↔ text ≠ "" := by
    intro text
    rw [← Bool.not_eq_true, Expr.isBlank, String.isEmpty_iff]
  rw [hfragments, Expr.gapless_joined_iff, List.length_map, List.forall_mem_map,
    List.forall_mem_map, and_iff_left fun _ _ => Expr.Gapless.atom]
  simp only [hblank, List.forall_mem_ne']

/-- A filter is compiled without a gap when every criterion of its leaves is. -/
theorem gapless_compileNode_iff (s : Surface) (n : Node) : ∀ e, compileNode s n = .ok e →
    (e.Gapless ↔ ∀ l ∈ n.leaves, ∀ criterion ∈ l.criteria,
      2 ≤ (s.fragments l.name criterion.1 criterion.2).length →
        "" ∉ s.fragments l.name criterion.1 criterion.2) := by
  induction n using Node.memberInduction with
  | leaf name criteria joiner id label =>
      intro e h
      obtain ⟨reference, parts, href, hparts, rfl⟩ := compileLeaf_eq_ok_iff.mp h
      rw [Node.leaves_leaf, List.forall_mem_singleton, Expr.gapless_joinDemands_iff]
      exact forall_mem_iff_of_mapM (fun _ _ _ he => gapless_compileCriterion_iff href he) hparts
  | group ands ors nots id label hands hors hnots =>
      intro e h
      obtain ⟨eands, eors, enots, ha, ho, hn, rfl⟩ := compileNode_group_eq_ok_iff.mp h
      rw [Node.forall_leaves_group, Expr.gapless_joinDemands_iff, List.forall_mem_cons,
        List.forall_mem_cons, List.forall_mem_singleton, Expr.gapless_joinDemands_iff,
        Expr.gapless_joinDemands_iff, Expr.gapless_refuseAll_iff, forall_mem_iff_of_mapM hands ha,
        forall_mem_iff_of_mapM hors ho, forall_mem_iff_of_mapM hnots hn]

/-! ## Compiled filters -/

/-- **Blank fragments vanish where an operator makes one comparison.** When some functions of a
surface return the empty text whatever they are given, the criteria that go to them can be left out of
a filter: it still compiles, and to the same text exactly when none of these criteria makes several
comparisons. And the expression of a filter is without an empty operand exactly when no criterion of
several comparisons has a blank fragment. -/
theorem blanks_vanish_iff {s : Surface} {names : List String} (hs : s.Mutes names) {n : Node}
    {e : Expr} (h : compile s (.node n) = .ok e) :
    (∃ e', compile s (.node (n.without (s.sends names))) = .ok e' ∧
      (e.render = e'.render ↔ ∀ l ∈ n.leaves, ∀ criterion ∈ l.criteria,
        s.sends names criterion = true → criterion.1.comparisons criterion.2 ≤ 1)) ∧
    (e.Gapless ↔ ∀ l ∈ n.leaves, ∀ criterion ∈ l.criteria,
      2 ≤ (s.fragments l.name criterion.1 criterion.2).length →
        "" ∉ s.fragments l.name criterion.1 criterion.2) := by
  obtain ⟨e', he', htrimmed⟩ := trimmed_compileNode hs n e h
  exact ⟨⟨e', he', htrimmed.render_eq_iff⟩, gapless_compileNode_iff s n e h⟩

/-- A surface on which equality makes no demand. -/
def muteSurface : Surface where
  attributes := [("age", .text "#age"), ("tags", .text "#tags")]
  operations := [("eq", fun _ => ""), ("gt", fun _ => "adult")]
  renamed := []

theorem muteSurface_mutes : muteSurface.Mutes ["eq"] := by
  intro name hname f hf arguments
  obtain rfl := List.mem_singleton.mp hname
  obtain rfl := Option.some.inj hf
  rfl

/-- Adults of an age out of a list, with given tags. -/
def taggedFilter (ages tags : List Value) : Node :=
  .group [.leaf "age" [(.greater, .int 18), (.oneOf, .list ages)] .and .null .null,
    .leaf "tags" [(.oneOf, .list tags)] .and .null .null] [] [] .null .null

/-- Lists of one item leave no trace. -/
theorem taggedFilter_trimmed :
    muteSurface.Mutes ["eq"] ∧
      compile muteSurface (.node (taggedFilter [.int 30] [.text "a"])) = .ok (.atom "adult") ∧
      ∃ e', compile muteSurface (.node
          ((taggedFilter [.int 30] [.text "a"]).without (muteSurface.sends ["eq"]))) = .ok e' ∧
        e'.render = "adult" := by
  have hcompile : compile muteSurface (.node (taggedFilter [.int 30] [.text "a"])) =
      .ok (.atom "adult") := rfl
  obtain ⟨⟨e', he', hrender⟩, -⟩ := blanks_vanish_iff muteSurface_mutes hcompile
  exact ⟨muteSurface_mutes, hcompile, e', he', (hrender.mpr (by decide)).symm⟩

/-- A list of two items leaves a join of two empty operands. -/
theorem taggedFilter_gap :
    muteSurface.Mutes ["eq"] ∧
      (compile muteSurface (.node (taggedFilter [] [.text "a", .text "b"]))).map Expr.render =
        .ok "( adult AND (  OR  ) )" ∧
      (compile muteSurface (.node ((taggedFilter [] [.text "a", .text "b"]).without
        (muteSurface.sends ["eq"])))).map Expr.render = .ok "adult" :=
  ⟨muteSurface_mutes, rfl, rfl⟩

end RecordQuery
