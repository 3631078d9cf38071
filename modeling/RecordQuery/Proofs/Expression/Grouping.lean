import Mathlib.Logic.Relation
import RecordQuery.Proofs.Expression.Preservation
/-!
# Groups of one member

A group that holds one member, in its `and` or its `or` branch, demands what the member demands.
`Node.GroupedOnce` puts one filter somewhere inside another into such a group, and the compiler makes
the same expression of both. The root of a built filter is such a group when the raw filter is on one
attribute, so it does not matter whether a filter is compiled raw, as a node or with its root
(`compile_regrouped`).
-/

namespace RecordQuery

/-! ## Putting filters into groups -/

/-- One filter, somewhere inside another, is put into a group of its own: as the only member of the
`and` or the `or` branch of a group without other members. -/
inductive Node.GroupedOnce : Node → Node → Prop
  | alone {n : Node} {branch : Connective} {tag : Tag} : branch ≠ .not →
      GroupedOnce n (Group.ofBranch branch [n] tag).toNode
  | member {g g' : Group} {branch : Connective} {before after : List Node} {n n' : Node} :
      GroupedOnce n n' → g.branch branch = before ++ n :: after →
      g'.branch branch = before ++ n' :: after →
      (∀ other, other ≠ branch → g'.branch other = g.branch other) → g'.id = g.id →
      g'.label = g.label → GroupedOnce g.toNode g'.toNode

/-- Filters are put into groups of their own, any number of them one after the other. -/
def Node.Regrouped : Node → Node → Prop :=
  Relation.ReflTransGen Node.GroupedOnce

/-! ## Joins of one expression -/

namespace Expr

/-- There is only one blank expression. -/
theorem eq_blank_of_isBlank {e : Expr} (h : e.isBlank = true) : e = blank := by
  cases e with
  | atom fragment =>
      obtain rfl := String.isEmpty_iff.mp h
      rfl
  | negation operand => exact absurd h (by simp [isBlank])
  | join c operands => exact absurd h (by simp [isBlank])

/-- An expression alone is joined to itself, whether it makes a demand or not. -/
theorem joinDemands_singleton (c : Connective) (e : Expr) : joinDemands c [e] = e := by
  rw [joinDemands_eq, demanding, List.filter_singleton]
  cases hblank : e.isBlank with
  | true => exact (eq_blank_of_isBlank hblank).symm
  | false => rfl

/-- A blank operand is left out of a join, in front of the others or behind them. -/
theorem joinDemands_blank_cons (c : Connective) (es : List Expr) :
    joinDemands c (blank :: es) = joinDemands c es := rfl

theorem joinDemands_concat_blank (c : Connective) (es : List Expr) :
    joinDemands c (es ++ [blank]) = joinDemands c es := by
  rw [joinDemands_eq, demanding, List.filter_append]
  exact congrArg (joined c) (List.append_nil _)

end Expr

/-! ## Compiling groups of one -/

section

variable {s : Surface}

/-- A group with one member in its `and` or `or` branch is compiled like the member. -/
theorem compileNode_ofBranch {branch : Connective} (hbranch : branch ≠ .not) (n : Node) (tag : Tag) :
    compileNode s (Group.ofBranch branch [n] tag).toNode = compileNode s n := by
  cases branch with
  | not => exact absurd rfl hbranch
  | and =>
      rw [Group.ofBranch, Group.toNode, compileNode, compileMembers, compileMembers]
      cases compileNode s n with
      | error e => rfl
      | ok e =>
          have hfirst : Expr.joinDemands .and [Expr.joinDemands .and [e], Expr.blank, Expr.blank] = e :=
            calc Expr.joinDemands .and [Expr.joinDemands .and [e], Expr.blank, Expr.blank]
              _ = Expr.joinDemands .and [e, Expr.blank, Expr.blank] := by
                  rw [Expr.joinDemands_singleton]
              _ = Expr.joinDemands .and [e, Expr.blank] := Expr.joinDemands_concat_blank .and [e, _]
              _ = Expr.joinDemands .and [e] := Expr.joinDemands_concat_blank .and [e]
              _ = e := Expr.joinDemands_singleton .and e
          exact congrArg Except.ok hfirst
  | or =>
      rw [Group.ofBranch, Group.toNode, compileNode, compileMembers, compileMembers]
      cases compileNode s n with
      | error e => rfl
      | ok e =>
          have hsecond : Expr.joinDemands .and [Expr.blank, Expr.joinDemands .or [e], Expr.blank] = e :=
            calc Expr.joinDemands .and [Expr.blank, Expr.joinDemands .or [e], Expr.blank]
              _ = Expr.joinDemands .and [e, Expr.blank] := by
                  rw [Expr.joinDemands_blank_cons, Expr.joinDemands_singleton]
              _ = Expr.joinDemands .and [e] := Expr.joinDemands_concat_blank .and [e]
              _ = e := Expr.joinDemands_singleton .and e
          exact congrArg Except.ok hsecond

/-- A filter is compiled like the group that it stands for. -/
theorem compileNode_ofNode (n : Node) : compileNode s (Group.ofNode n).toNode = compileNode s n := by
  cases n with
  | group ands ors nots id label => rfl
  | leaf name criteria joiner id label =>
      have hand : Connective.and ≠ .not := by decide
      exact compileNode_ofBranch hand _ ⟨.null, .null⟩

/-- Members are compiled alike when one of them is replaced by one that is. -/
theorem compileMembers_replace {n n' : Node} (h : compileNode s n' = compileNode s n)
    (before after : List Node) :
    compileMembers s (before ++ n' :: after) = compileMembers s (before ++ n :: after) := by
  simp only [compileMembers_eq_mapM, List.mapM_append, List.mapM_cons, h]

/-- Groups are compiled alike when their branches are. -/
theorem compileNode_toNode_congr {g g' : Group}
    (h : ∀ branch, compileMembers s (g'.branch branch) = compileMembers s (g.branch branch)) :
    compileNode s g'.toNode = compileNode s g.toNode := by
  have hands : compileMembers s g'.ands = compileMembers s g.ands := h .and
  have hors : compileMembers s g'.ors = compileMembers s g.ors := h .or
  have hnots : compileMembers s g'.nots = compileMembers s g.nots := h .not
  rw [Group.toNode, Group.toNode, compileNode, compileNode, hands, hors, hnots]

/-- A step changes nothing for the compiler. -/
theorem Node.GroupedOnce.compileNode_eq {n m : Node} (h : n.GroupedOnce m) :
    compileNode s m = compileNode s n := by
  induction h with
  | alone hbranch => exact compileNode_ofBranch hbranch _ _
  | @member g g' branch before after n n' _ hmembers hmembers' hothers _ _ ih =>
      refine compileNode_toNode_congr fun other => ?_
      by_cases hother : other = branch
      · rw [hother, hmembers, hmembers']
        exact compileMembers_replace ih before after
      · rw [hothers other hother]

end

/-! ## Compiled filters -/

/-- **Roots and groups of one are transparent.** A raw filter or a ready one, the node that is built
from it and its root are compiled to the same expression or with the same error; and so are filters
of which one has any number of the filters inside the other put into groups of their own. -/
theorem compile_regrouped (s : Surface) :
    (∀ v, (liftFilter (buildNode none v) >>= fun n => compile s (.node n)) = compile s v ∧
      (liftFilter (buildFilter none v) >>= fun g => compile s (.node g.toNode)) = compile s v) ∧
    ∀ n m, Node.Regrouped n m → compile s (.node m) = compile s (.node n) := by
  refine ⟨fun v => ⟨rfl, ?_⟩, ?_⟩
  · rw [buildFilter, compile]
    cases buildNode none v with
    | error e => rfl
    | ok n => exact compileNode_ofNode n
  · intro n m h
    induction h with
    | refl => rfl
    | tail _ hstep ih => exact (hstep.compileNode_eq : compileNode s _ = _).trans ih

/-- Everyone who is not above an age. -/
def minorsFilter : Node :=
  .group [] [] [.leaf "age" [(.greater, .int 18)] .and .null .null] .null .null

/-- The same filter with its condition two groups further down. -/
def groupedMinorsFilter : Node :=
  .group [] [] [.group [] [.group [.leaf "age" [(.greater, .int 18)] .and .null .null] [] [] .null
    (.text "adults")] [] .null .null] .null .null

theorem minorsFilter_regrouped : Node.Regrouped minorsFilter groupedMinorsFilter := by
  have hstep : ∀ {n n' : Node}, n.GroupedOnce n' → Node.GroupedOnce
      (.group [] [] [n] .null .null) (.group [] [] [n'] .null .null) := by
    intro n n' h
    refine @Node.GroupedOnce.member ⟨[], [], [n], .null, .null⟩ ⟨[], [], [n'], .null, .null⟩ .not
      [] [] n n' h rfl rfl ?_ rfl rfl
    intro other hother
    cases other with
    | and | or => rfl
    | not => exact absurd rfl hother
  have hand : Connective.and ≠ .not := by decide
  have hor : Connective.or ≠ .not := by decide
  have hinner := @Node.GroupedOnce.alone (.leaf "age" [(.greater, .int 18)] .and .null .null) .and
    ⟨.null, .text "adults"⟩ hand
  have houter := fun n => @Node.GroupedOnce.alone n .or ⟨.null, .null⟩ hor
  exact .tail (.single (hstep hinner)) (hstep (houter _))

/-- Below a negation the condition stands alone in two groups, and the text stays as it was. -/
theorem groupedMinorsFilter_written :
    Node.Regrouped minorsFilter groupedMinorsFilter ∧
      (compile ageSurface (.node minorsFilter)).map Expr.render = .ok "NOT adult" ∧
      compile ageSurface (.node groupedMinorsFilter) = compile ageSurface (.node minorsFilter) :=
  ⟨minorsFilter_regrouped, rfl, (compile_regrouped ageSurface).2 _ _ minorsFilter_regrouped⟩

end RecordQuery
