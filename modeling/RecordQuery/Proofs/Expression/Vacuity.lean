import RecordQuery.Proofs.Expression.Trimming
/-!
# Members that ask for nothing

A member of a group may compile to the empty text: an empty group, or conditions for which the surface
has no fragment. Such members can be deleted from a filter, any set of them at any depth, and the
filter compiles to the same expression as before; and a filter compiles to the empty text exactly when
all its leaves do (`vacuous_members_neutral`). The empty text is that of the blank expression alone,
because every other expression that the compiler makes is written with a fragment, a word or
parentheses.
-/

namespace RecordQuery

/-! ## Places in filters -/

namespace Node

/-- Where a filter stands inside another: the branches to go down, and the index of the member in each,
from the outermost group on. -/
abbrev Place := List (Connective × Nat)

/-- The members of a branch; a leaf has none. -/
def members : Node → Connective → List Node
  | .leaf .., _ => []
  | .group ands ors nots id label, branch => (Group.mk ands ors nots id label).branch branch

/-- The filter at a place inside a filter. -/
def at? (n : Node) : Place → Option Node
  | [] => some n
  | (branch, index) :: below => (n.members branch)[index]?.bind fun m => m.at? below

mutual

/-- The filter without the members at the places of a set. -/
def deleted (doomed : Place → Bool) : Node → Node
  | .leaf name criteria joiner id label => .leaf name criteria joiner id label
  | .group ands ors nots id label =>
    .group (membersDeleted doomed .and 0 ands) (membersDeleted doomed .or 0 ors)
      (membersDeleted doomed .not 0 nots) id label
termination_by structural n => n

/-- The members of a branch, of which the first has the given index, without those at the places of a
set. -/
def membersDeleted (doomed : Place → Bool) (branch : Connective) (index : Nat) :
    List Node → List Node
  | [] => []
  | n :: rest =>
    if doomed [(branch, index)] then membersDeleted doomed branch (index + 1) rest
    else
      -- inside a member that stays, places are told from there on
      n.deleted (fun below => doomed ((branch, index) :: below)) ::
        membersDeleted doomed branch (index + 1) rest
termination_by structural ns => ns

end

end Node

/-! ## Blank expressions -/

namespace Expr

/-- An expression that is written as the empty text is blank. -/
def Solid (e : Expr) : Prop :=
  e.render = "" → e.isBlank = true

theorem Solid.render_eq_empty_iff {e : Expr} (h : e.Solid) : e.render = "" ↔ e.isBlank = true :=
  ⟨h, render_of_isBlank⟩

theorem solid_atom (fragment : String) : (atom fragment).Solid := by
  intro h
  exact String.isEmpty_iff.mpr h

theorem solid_negation (operand : Expr) : (negation operand).Solid := by
  intro h
  have hlength := congrArg String.length h
  rw [render, String.length_append] at hlength
  exact absurd hlength (by simp)

/-- A join is solid when its operands are: two or more stand in parentheses. -/
theorem solid_joined {c : Connective} {operands : List Expr}
    (h : ∀ operand ∈ operands, operand.Solid) : (joined c operands).Solid := by
  match operands with
  | [] => exact fun _ => rfl
  | [operand] => exact h operand List.mem_cons_self
  | first :: second :: rest =>
      intro hempty
      have hlength := length_render_joined c (first :: second :: rest)
      rw [hempty, List.length_cons, List.length_cons, joinLength] at hlength
      exact absurd hlength (by simp)

theorem solid_joinDemands {c : Connective} {operands : List Expr}
    (h : ∀ operand ∈ operands, operand.Solid) : (joinDemands c operands).Solid :=
  solid_joined fun operand hmem => h operand (List.mem_of_mem_filter hmem)

theorem solid_refuseAll (operands : List Expr) : (refuseAll operands).Solid := by
  rw [refuseAll_eq]
  refine solid_joined fun e he => ?_
  obtain ⟨operand, -, rfl⟩ := List.mem_map.mp he
  exact solid_negation operand

/-- No operand makes a demand when all are blank. -/
theorem demanding_eq_nil_iff {operands : List Expr} :
    demanding operands = [] ↔ ∀ operand ∈ operands, operand.isBlank = true := by
  simp [demanding, List.filter_eq_nil_iff]

/-- A join of demands is blank when none of its operands makes a demand. -/
theorem isBlank_joinDemands_iff {c : Connective} {operands : List Expr} :
    (joinDemands c operands).isBlank = true ↔ ∀ operand ∈ operands, operand.isBlank = true := by
  rw [joinDemands_eq, ← demanding_eq_nil_iff]
  constructor
  · intro hblank
    by_contra hne
    have hnot := joined_not_blank c hne fun e he => (not_blank_of_mem_demanding he).2
    exact absurd hblank (by simp [hnot])
  · intro hnil
    rw [hnil]
    rfl

/-- So is their refusal. -/
theorem isBlank_refuseAll_iff {operands : List Expr} :
    (refuseAll operands).isBlank = true ↔ ∀ operand ∈ operands, operand.isBlank = true := by
  rw [refuseAll_eq, ← demanding_eq_nil_iff]
  constructor
  · intro hblank
    by_contra hne
    have hnot : (joined .and ((demanding operands).map negation)).isBlank = false := by
      refine joined_not_blank .and (by simp [hne]) fun e he => ?_
      obtain ⟨operand, -, rfl⟩ := List.mem_map.mp he
      rfl
    exact absurd hblank (by simp [hnot])
  · intro hnil
    rw [hnil]
    rfl

end Expr

/-! ## Compiled filters -/

/-- The filter compiles to the empty text. -/
def Surface.Vacuous (s : Surface) (n : Node) : Prop :=
  ∃ e, compile s (.node n) = .ok e ∧ e.render = ""

/-- A compiled criterion is solid. -/
theorem solid_of_compileCriterion {s : Surface} {reference v : Value} {op : Operator} {e : Expr}
    (h : compileCriterion s reference op v = .ok e) : e.Solid := by
  rw [compileCriterion_eq] at h
  obtain ⟨texts, -, rfl⟩ := map_eq_ok_iff.mp h
  exact Expr.solid_joined (List.forall_mem_map.mpr fun text _ => Expr.solid_atom text)

/-- A compiled filter is solid. -/
theorem solid_of_compileNode {s : Surface} (n : Node) :
    ∀ e, compileNode s n = .ok e → e.Solid := by
  induction n using Node.memberInduction with
  | leaf name criteria joiner id label =>
      intro e h
      obtain ⟨reference, parts, -, hparts, rfl⟩ := compileLeaf_eq_ok_iff.mp h
      exact Expr.solid_joinDemands
        (forall_mem_of_mapM (fun _ _ _ he => solid_of_compileCriterion he) hparts)
  | group ands ors nots id label hands hors hnots =>
      intro e h
      obtain ⟨eands, eors, enots, ha, ho, -, rfl⟩ := compileNode_group_eq_ok_iff.mp h
      have sands := Expr.solid_joinDemands (c := .and) (forall_mem_of_mapM hands ha)
      have sors := Expr.solid_joinDemands (c := .or) (forall_mem_of_mapM hors ho)
      refine Expr.solid_joinDemands (List.forall_mem_cons.mpr ⟨sands, ?_⟩)
      exact List.forall_mem_cons.mpr
        ⟨sors, List.forall_mem_singleton.mpr (Expr.solid_refuseAll enots)⟩

/-- A filter is vacuous when the expression that it compiles to is blank. -/
theorem vacuous_iff {s : Surface} {n : Node} {e : Expr} (h : compileNode s n = .ok e) :
    s.Vacuous n ↔ e.isBlank = true := by
  rw [← (solid_of_compileNode n e h).render_eq_empty_iff]
  constructor
  · rintro ⟨e', he', hempty⟩
    obtain rfl : e' = e := Except.ok.inj (he'.symm.trans h)
    exact hempty
  · exact fun hempty => ⟨e, h, hempty⟩

/-! ## Leaving members out -/

/-- The surface has nothing for the filters at the places of a set, the filter itself apart. -/
def Surface.Ignores (s : Surface) (n : Node) (doomed : Node.Place → Bool) : Prop :=
  ∀ place m, place ≠ [] → n.at? place = some m → doomed place = true → s.Vacuous m

/-- The same for the members of a branch, of which the first has the given index. -/
def Surface.IgnoresMembers (s : Surface) (doomed : Node.Place → Bool) (branch : Connective)
    (index : Nat) (ns : List Node) : Prop :=
  ∀ i below m, (ns[i]?.bind fun n => n.at? below) = some m →
    doomed ((branch, index + i) :: below) = true → s.Vacuous m

section

variable {s : Surface} {doomed : Node.Place → Bool} {branch : Connective}

theorem Surface.Ignores.members {ands ors nots : List Node} {id label : Value}
    (h : s.Ignores (.group ands ors nots id label) doomed) (branch : Connective) :
    s.IgnoresMembers doomed branch 0 ((Group.mk ands ors nots id label).branch branch) := by
  intro i below m hat hdoomed
  rw [Nat.zero_add] at hdoomed
  refine h ((branch, i) :: below) m (List.cons_ne_nil _ _) ?_ hdoomed
  rw [Node.at?]
  exact hat

/-- Of the first member of a branch, either the whole or what stands below it is ignored. -/
theorem Surface.IgnoresMembers.head {index : Nat} {n : Node} {rest : List Node}
    (h : s.IgnoresMembers doomed branch index (n :: rest)) :
    (doomed [(branch, index)] = true → s.Vacuous n) ∧
      s.Ignores n fun below => doomed ((branch, index) :: below) :=
  ⟨fun hdoomed => h 0 [] n rfl hdoomed, fun below m _ hat hdoomed => h 0 below m hat hdoomed⟩

theorem Surface.IgnoresMembers.tail {index : Nat} {n : Node} {rest : List Node}
    (h : s.IgnoresMembers doomed branch index (n :: rest)) :
    s.IgnoresMembers doomed branch (index + 1) rest := by
  intro i below m hat hdoomed
  refine h (i + 1) below m hat ?_
  rwa [Nat.add_comm i 1, ← Nat.add_assoc]

/-- What is left of a branch makes the demands of the whole branch. -/
theorem compileMembers_deleted {ns : List Node}
    (hmembers : ∀ n ∈ ns, ∀ doomed e, s.Ignores n doomed → compileNode s n = .ok e →
      compileNode s (n.deleted doomed) = .ok e) {es : List Expr}
    (h : ns.mapM (compileNode s) = .ok es) :
    ∀ index, s.IgnoresMembers doomed branch index ns →
      ∃ es', compileMembers s (Node.membersDeleted doomed branch index ns) = .ok es' ∧
        Expr.demanding es' = Expr.demanding es := by
  have hpairs := mapM_eq_ok_iff.mp h
  clear h
  induction hpairs with
  | nil => exact fun _ _ => ⟨[], rfl, rfl⟩
  | @cons n e rest es hn _ ih =>
      intro index hignored
      rw [List.forall_mem_cons] at hmembers
      obtain ⟨es', hes', hsame⟩ := ih hmembers.2 (index + 1) hignored.tail
      rw [Node.membersDeleted]
      cases hdoomed : doomed [(branch, index)] with
      | true =>
          have hblank := (vacuous_iff hn).mp (hignored.head.1 hdoomed)
          refine ⟨es', hes', hsame.trans ?_⟩
          rw [Expr.demanding, Expr.demanding, List.filter_cons_of_neg (by simp [hblank])]
      | false =>
          have hkept := hmembers.1 _ e hignored.head.2 hn
          refine ⟨e :: es', ?_, ?_⟩
          · rw [if_neg Bool.false_ne_true, compileMembers, hkept, ok_bind, hes', ok_bind,
              pure_eq_ok]
          · rw [Expr.demanding, Expr.demanding, List.filter_cons, List.filter_cons]
            exact congrArg (fun kept => if (!e.isBlank) = true then e :: kept else kept) hsame

end

/-- Without members that ask for nothing a filter is compiled to the same expression. -/
theorem compileNode_deleted {s : Surface} (n : Node) :
    ∀ doomed e, s.Ignores n doomed → compileNode s n = .ok e →
      compileNode s (n.deleted doomed) = .ok e := by
  induction n using Node.memberInduction with
  | leaf name criteria joiner id label => exact fun _ _ _ h => h
  | group ands ors nots id label hands hors hnots =>
      intro doomed e hignored h
      obtain ⟨eands, eors, enots, ha, ho, hn, rfl⟩ := compileNode_group_eq_ok_iff.mp h
      obtain ⟨eands', ha', sands⟩ := compileMembers_deleted hands ha 0 (hignored.members .and)
      obtain ⟨eors', ho', sors⟩ := compileMembers_deleted hors ho 0 (hignored.members .or)
      obtain ⟨enots', hn', snots⟩ := compileMembers_deleted hnots hn 0 (hignored.members .not)
      rw [compileMembers_eq_mapM] at ha' ho' hn'
      rw [Node.deleted]
      refine compileNode_group_eq_ok_iff.mpr ⟨eands', eors', enots', ha', ho', hn', ?_⟩
      rw [Expr.joinDemands_eq .and eands', sands, Expr.joinDemands_eq .or eors', sors,
        Expr.refuseAll_eq enots', snots]
      rfl

/-! ## Filters that ask for nothing -/

/-- A filter is compiled to a blank expression when every leaf is. -/
theorem isBlank_compileNode_iff {s : Surface} (n : Node) :
    ∀ e, compileNode s n = .ok e →
      (e.isBlank = true ↔ ∀ l ∈ n.leaves, s.Vacuous l.toNode) := by
  induction n using Node.memberInduction with
  | leaf name criteria joiner id label =>
      intro e h
      rw [Node.leaves_leaf, List.forall_mem_singleton]
      exact (vacuous_iff h).symm
  | group ands ors nots id label hands hors hnots =>
      intro e h
      obtain ⟨eands, eors, enots, ha, ho, hn, rfl⟩ := compileNode_group_eq_ok_iff.mp h
      rw [Node.forall_leaves_group, Expr.isBlank_joinDemands_iff, List.forall_mem_cons,
        List.forall_mem_cons, List.forall_mem_singleton, Expr.isBlank_joinDemands_iff,
        Expr.isBlank_joinDemands_iff, Expr.isBlank_refuseAll_iff, forall_mem_iff_of_mapM hands ha,
        forall_mem_iff_of_mapM hors ho, forall_mem_iff_of_mapM hnots hn]

/-- **Members that ask for nothing are neutral.** When a filter compiles, any set of members that
compile to the empty text, anywhere inside it, can be deleted, and the filter compiles to the same
expression; and the filter is written as the empty text exactly when all its leaves are. -/
theorem vacuous_members_neutral {s : Surface} {n : Node} {e : Expr}
    (h : compile s (.node n) = .ok e) :
    (∀ doomed : Node.Place → Bool,
      (∀ place m, place ≠ [] → n.at? place = some m → doomed place = true → s.Vacuous m) →
      compile s (.node (n.deleted doomed)) = .ok e) ∧
    (e.render = "" ↔ ∀ l ∈ n.leaves, s.Vacuous l.toNode) := by
  refine ⟨fun doomed hignored => compileNode_deleted n doomed e hignored h, ?_⟩
  rw [(solid_of_compileNode n e h).render_eq_empty_iff]
  exact isBlank_compileNode_iff n e h

/-- Where members that ask for nothing stand in the filter for ages: the empty group, and the empty
list below the negation. -/
def idlePlaces (place : Node.Place) : Bool :=
  [[(.and, 1)], [(.not, 1)]].contains place

/-- Both members go, and the text of the filter stays; it is not empty, as one of its leaves is not. -/
theorem ageFilter_without_idle_members :
    (compile ageSurface (.node ageFilter)).map Expr.render =
        .ok "( adult AND NOT ( thirty OR other ) )" ∧
      ageFilter.deleted idlePlaces =
        .group [.leaf "age" [(.greater, .int 18)] .and .null .null] []
          [.leaf "age" [(.oneOf, .list [.int 30, .int 40])] .and .null .null] .null .null ∧
      compile ageSurface (.node (ageFilter.deleted idlePlaces)) =
        compile ageSurface (.node ageFilter) ∧
      ¬∀ l ∈ ageFilter.leaves, ageSurface.Vacuous l.toNode := by
  have hcompile : compile ageSurface (.node ageFilter) = .ok (.join .and [.atom "adult",
      .negation (.join .or [.atom "thirty", .atom "other"])]) := rfl
  have hidle : ∀ place m, place ≠ [] → ageFilter.at? place = some m → idlePlaces place = true →
      ageSurface.Vacuous m := by
    intro place m _ hat hplace
    rw [idlePlaces, List.contains_iff_mem] at hplace
    rcases List.mem_pair.mp hplace with rfl | rfl
    · obtain rfl := Option.some.inj hat
      exact ⟨.blank, rfl, rfl⟩
    · obtain rfl := Option.some.inj hat
      exact ⟨.blank, rfl, rfl⟩
  obtain ⟨hdeleted, hempty⟩ := vacuous_members_neutral hcompile
  refine ⟨rfl, rfl, (hdeleted idlePlaces hidle).trans hcompile.symm, ?_⟩
  rw [← hempty]
  decide

end RecordQuery
