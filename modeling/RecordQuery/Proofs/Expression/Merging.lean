import RecordQuery.Filter.Merge
import RecordQuery.Proofs.Expression.Preservation
import RecordQuery.Proofs.Filter.Building
/-!
# Merging is conjunction

Merging a filter into others gives a filter that asks for all of them, in any of the three shapes in
which the others may come and over any number of merges. What a filter asks for can be read off the
filter or off the expression it compiles to; `IsReading` is what both have in common, and the facts
about merging are proved for every reading.
-/

namespace RecordQuery

/-! ## Conjunction of demands -/

namespace Connective

/-- One more demand is joined to the others, of which each may ask for nothing. -/
theorem and_demand_cons (d : Option Bool) (demands : List (Option Bool)) :
    and.demand (d :: demands) = Option.merge (· && ·) d (and.demand demands) := by
  cases d with
  | none =>
      rw [demand_none_cons, Option.merge_none_left]
  | some b =>
      unfold demand
      rw [List.reduceOption_cons_of_some]
      cases demands.reduceOption with
      | nil => simp [combine, Option.merge]
      | cons c rest => simp [combine, Option.merge]

/-- A single demand is joined to itself. -/
theorem and_demand_singleton (d : Option Bool) : and.demand [d] = d := by
  rw [and_demand_cons, demand_nil, Option.merge_none_right]

/-- What the members of a branch ask for together, when each is read by itself. -/
def Joins (c : Connective) (R : Node → Option Bool → Prop) (ns : List Node) (d : Option Bool) :
    Prop :=
  ∃ demands, List.Forall₂ R ns demands ∧ c.demand demands = d

section

variable {R : Node → Option Bool → Prop} {d : Option Bool}

theorem joins_nil {c : Connective} : c.Joins R [] d ↔ d = none := by
  constructor
  · rintro ⟨demands, hdemands, rfl⟩
    rw [List.forall₂_nil_left_iff.mp hdemands, demand_nil]
  · rintro rfl
    exact ⟨[], .nil, rfl⟩

theorem and_joins_cons {n : Node} {ns : List Node} :
    and.Joins R (n :: ns) d ↔ ∃ e f, R n e ∧ and.Joins R ns f ∧ Option.merge (· && ·) e f = d := by
  constructor
  · rintro ⟨demands, hdemands, rfl⟩
    obtain ⟨e, rest, he, hrest, rfl⟩ := List.forall₂_cons_left_iff.mp hdemands
    exact ⟨e, and.demand rest, he, ⟨rest, hrest, rfl⟩, (and_demand_cons e rest).symm⟩
  · rintro ⟨e, f, he, ⟨rest, hrest, rfl⟩, rfl⟩
    exact ⟨e :: rest, .cons he hrest, and_demand_cons e rest⟩

theorem and_joins_singleton {n : Node} : and.Joins R [n] d ↔ R n d := by
  rw [and_joins_cons]
  constructor
  · rintro ⟨e, f, he, hf, rfl⟩
    rw [joins_nil.mp hf, Option.merge_none_right]
    exact he
  · intro h
    exact ⟨d, none, h, joins_nil.mpr rfl, Option.merge_none_right⟩

theorem and_joins_append {ns ms : List Node} :
    and.Joins R (ns ++ ms) d ↔
      ∃ e f, and.Joins R ns e ∧ and.Joins R ms f ∧ Option.merge (· && ·) e f = d := by
  induction ns generalizing d with
  | nil =>
      constructor
      · intro h
        exact ⟨none, d, joins_nil.mpr rfl, h, Option.merge_none_left⟩
      · rintro ⟨e, f, he, hf, rfl⟩
        rw [joins_nil.mp he, Option.merge_none_left]
        exact hf
  | cons n ns ih =>
      rw [List.cons_append, and_joins_cons]
      constructor
      · rintro ⟨e, f, he, hf, rfl⟩
        obtain ⟨g, h, hg, hh, rfl⟩ := ih.mp hf
        refine ⟨_, h, and_joins_cons.mpr ⟨e, g, he, hg, rfl⟩, hh, ?_⟩
        exact Std.Associative.assoc e g h
      · rintro ⟨e, f, he, hf, rfl⟩
        obtain ⟨g, h, hg, hh, rfl⟩ := and_joins_cons.mp he
        refine ⟨g, _, hg, ih.mpr ⟨h, f, hh, hf, rfl⟩, ?_⟩
        exact (Std.Associative.assoc g h f).symm

/-- The order of conditions does not matter. -/
theorem and_joins_of_perm {ns ms : List Node} (hperm : ns.Perm ms) :
    ∀ {d : Option Bool}, and.Joins R ns d → and.Joins R ms d := by
  induction hperm with
  | nil => exact fun h => h
  | cons n _ ih =>
      intro d h
      obtain ⟨e, f, he, hf, rfl⟩ := and_joins_cons.mp h
      exact and_joins_cons.mpr ⟨e, f, he, ih hf, rfl⟩
  | swap n m ns =>
      intro d h
      obtain ⟨e, f, he, hf, rfl⟩ := and_joins_cons.mp h
      obtain ⟨g, rest, hg, hrest, rfl⟩ := and_joins_cons.mp hf
      exact and_joins_cons.mpr ⟨g, _, hg, and_joins_cons.mpr ⟨e, rest, he, hrest, rfl⟩, by ac_rfl⟩
  | trans _ _ ih₁ ih₂ => exact fun h => ih₂ (ih₁ h)

end

end Connective

/-! ## Readings -/

/-- A reading of filters: what a group asks for is made up of what its members ask for. -/
def IsReading (R : Node → Option Bool → Prop) : Prop :=
  ∀ ands ors nots id label d, R (.group ands ors nots id label) d ↔
    ∃ e f g, Connective.and.Joins R ands e ∧ Connective.or.Joins R ors f ∧
      Connective.not.Joins R nots g ∧ Connective.and.demand [e, f, g] = d

theorem joins_eq_iff (c : Connective) (f : Node → Option Bool) (ns : List Node) (d : Option Bool) :
    c.Joins (fun n e => f n = e) ns d ↔ c.demand (ns.map f) = d := by
  have hmap : ∀ demands, List.Forall₂ (fun n e => f n = e) ns demands ↔ ns.map f = demands := by
    intro demands
    rw [← List.forall₂_map_left_iff (f := f), List.forall₂_eq_eq_eq]
  simp [Connective.Joins, hmap]

/-- The truth of filters, when it is known what criteria ask for, is a reading. -/
theorem isReading_value (holds : String → Operator → Value → Option Bool) :
    IsReading fun n d => n.value holds = d := by
  intro ands ors nots id label d
  simp only [joins_eq_iff, Node.value_group]
  constructor
  · rintro rfl
    exact ⟨_, _, _, rfl, rfl, rfl, rfl⟩
  · rintro ⟨_, _, _, rfl, rfl, rfl, rfl⟩
    rfl

/-- The filter compiles on the surface and its text asks for `d` under the assignment: for nothing
when it is empty, and else for the truth of the expression it is written from. -/
def Node.AsksFor (s : Surface) (assignment : String → Bool) (n : Node) (d : Option Bool) : Prop :=
  ∃ e, compileNode s n = .ok e ∧
    (if e.render = "" then none else some (e.value assignment)) = d

namespace Expr

/-- What is not blank is not written as the empty text. -/
def Written (e : Expr) : Prop :=
  e.isBlank = false → e.render ≠ ""

theorem written_atom (fragment : String) : (atom fragment).Written := by
  intro hb hempty
  rw [render] at hempty
  rw [hempty] at hb
  exact absurd hb (by decide)

theorem written_negation (operand : Expr) : (negation operand).Written := by
  intro _ hempty
  rw [render, String.append_eq_empty_iff] at hempty
  exact absurd hempty.1 (by decide)

theorem written_joined (c : Connective) {es : List Expr} (h : ∀ e ∈ es, e.Written) :
    (joined c es).Written := by
  match es with
  | [] => exact written_atom ""
  | [e] => exact h e List.mem_cons_self
  | a :: b :: rest =>
      intro _ hempty
      rw [render_joined] at hempty
      simp only [List.map_cons, parenthesize, String.append_eq_empty_iff] at hempty
      exact absurd hempty.1.1 (by decide)

theorem written_joinDemands (c : Connective) {es : List Expr} (h : ∀ e ∈ es, e.Written) :
    (joinDemands c es).Written :=
  written_joined c fun e he => h e (List.mem_of_mem_filter he)

theorem written_refuseAll (es : List Expr) : (refuseAll es).Written := by
  apply written_joined
  intro e he
  obtain ⟨operand, -, rfl⟩ := List.mem_map.mp he
  exact written_negation operand

/-- A written expression is written as the empty text when it asks for nothing. -/
theorem Written.demand_eq {e : Expr} (h : e.Written) (assignment : String → Bool) :
    (if e.render = "" then none else some (e.value assignment)) = e.demand assignment := by
  rw [demand]
  cases hb : e.isBlank with
  | false => rw [if_neg (h hb), if_neg (by simp)]
  | true =>
      have hrender : e.render = "" := by
        cases e with
        | atom fragment => exact String.isEmpty_iff.mp hb
        | negation operand => exact absurd hb (by simp [isBlank])
        | join c operands => exact absurd hb (by simp [isBlank])
      rw [if_pos hrender, if_pos rfl]

end Expr

/-- The expression for a criterion is written. -/
theorem written_of_compileCriterion {s : Surface} {reference v : Value} {op : Operator} {e : Expr}
    (h : compileCriterion s reference op v = .ok e) : e.Written := by
  rw [compileCriterion_eq] at h
  obtain ⟨texts, -, rfl⟩ := map_eq_ok_iff.mp h
  apply Expr.written_joined
  intro fragment hfragment
  obtain ⟨text, -, rfl⟩ := List.mem_map.mp hfragment
  exact Expr.written_atom text

/-- The expression for a filter is written. -/
theorem written_of_compileNode {s : Surface} {n : Node} :
    ∀ e, compileNode s n = .ok e → e.Written := by
  induction n using Node.memberInduction with
  | leaf name criteria joiner id label =>
      intro e h
      obtain ⟨reference, parts, -, hparts, rfl⟩ := compileLeaf_eq_ok_iff.mp h
      exact Expr.written_joinDemands _
        (forall_mem_of_mapM (fun _ _ _ he => written_of_compileCriterion he) hparts)
  | group ands ors nots id label hands hors hnots =>
      intro e h
      obtain ⟨eands, eors, enots, ha, ho, -, rfl⟩ := compileNode_group_eq_ok_iff.mp h
      apply Expr.written_joinDemands
      intro part hpart
      simp only [List.mem_cons, List.not_mem_nil, or_false] at hpart
      rcases hpart with rfl | rfl | rfl
      · exact Expr.written_joinDemands _ (forall_mem_of_mapM hands ha)
      · exact Expr.written_joinDemands _ (forall_mem_of_mapM hors ho)
      · exact Expr.written_refuseAll enots

theorem Node.asksFor_iff {s : Surface} {assignment : String → Bool} {n : Node} {d : Option Bool} :
    n.AsksFor s assignment d ↔ ∃ e, compileNode s n = .ok e ∧ e.demand assignment = d := by
  constructor
  · rintro ⟨e, he, rfl⟩
    exact ⟨e, he, ((written_of_compileNode e he).demand_eq assignment).symm⟩
  · rintro ⟨e, he, rfl⟩
    exact ⟨e, he, (written_of_compileNode e he).demand_eq assignment⟩

/-- The members of a branch compile when each does, and their expressions ask for what they ask for. -/
theorem joins_asksFor_iff {s : Surface} {assignment : String → Bool} {c : Connective}
    {ns : List Node} {d : Option Bool} :
    c.Joins (fun n => n.AsksFor s assignment) ns d ↔
      ∃ es, compileMembers s ns = .ok es ∧ c.demand (es.map (Expr.demand assignment)) = d := by
  have hmembers : ∀ demands, List.Forall₂ (fun n => Node.AsksFor s assignment n) ns demands ↔
      ∃ es, compileMembers s ns = .ok es ∧ es.map (Expr.demand assignment) = demands := by
    intro demands
    have hasks : (fun n => Node.AsksFor s assignment n) = fun n d =>
        ∃ e, compileNode s n = .ok e ∧ e.demand assignment = d :=
      funext₂ fun n d => propext Node.asksFor_iff
    simp only [compileMembers_eq_mapM, mapM_eq_ok_iff, hasks]
    exact forall₂_exists_iff
  unfold Connective.Joins
  simp only [hmembers]
  constructor
  · rintro ⟨demands, ⟨es, hes, rfl⟩, hd⟩
    exact ⟨es, hes, hd⟩
  · rintro ⟨es, hes, hd⟩
    exact ⟨_, ⟨es, hes, rfl⟩, hd⟩

/-- What compiled filters ask for is a reading. -/
theorem isReading_asksFor (s : Surface) (assignment : String → Bool) :
    IsReading fun n => n.AsksFor s assignment := by
  intro ands ors nots id label d
  simp only [joins_asksFor_iff, Node.asksFor_iff, compileNode]
  constructor
  · rintro ⟨e, he, rfl⟩
    obtain ⟨eands, hands, he⟩ := bind_eq_ok_iff.mp he
    obtain ⟨eors, hors, he⟩ := bind_eq_ok_iff.mp he
    obtain ⟨enots, hnots, he⟩ := bind_eq_ok_iff.mp he
    obtain rfl := Except.ok.inj he
    refine ⟨_, _, _, ⟨eands, hands, rfl⟩, ⟨eors, hors, rfl⟩, ⟨enots, hnots, rfl⟩, ?_⟩
    simp only [Expr.demand_joinDemands assignment (by decide : Connective.and ≠ .not),
      Expr.demand_joinDemands assignment (by decide : Connective.or ≠ .not),
      Expr.demand_refuseAll, List.map_cons, List.map_nil]
  · rintro ⟨_, _, _, ⟨eands, hands, rfl⟩, ⟨eors, hors, rfl⟩, ⟨enots, hnots, rfl⟩, rfl⟩
    refine ⟨_, by rw [hands, ok_bind, hors, ok_bind, hnots, ok_bind, pure_eq_ok], ?_⟩
    simp only [Expr.demand_joinDemands assignment (by decide : Connective.and ≠ .not),
      Expr.demand_joinDemands assignment (by decide : Connective.or ≠ .not),
      Expr.demand_refuseAll, List.map_cons, List.map_nil]

/-! ## One merge -/

/-- The filter that criteria stand for; absent ones stand for none. -/
def existingFilter? (criteria : Value) : Except FilterError (Option Node) :=
  match criteria with
  | .null => .ok none
  | v => (buildNode none v).map some

theorem existingFilter?_of_ne_null {criteria : Value} (h : criteria ≠ .null) :
    existingFilter? criteria = (buildNode none criteria).map some := by
  cases criteria with
  | null => exact absurd rfl h
  | bool | int | float | text | list | tuple | record | moment | connective | node | deferred => rfl

theorem mergeFilters_of_ne_null {added criteria : Value} {new existing : Node}
    (hadded : buildNode none added = .ok new) (hcriteria : buildNode none criteria = .ok existing)
    (h : criteria ≠ .null) :
    mergeFilters added criteria =
      .ok (if criteria.isEntityFilter then mergedGroup [existing, new] else existing.merge new) := by
  unfold mergeFilters
  rw [hadded, ok_bind]
  cases criteria with
  | null => exact absurd rfl h
  | bool | int | float | text | list | tuple | record | moment | connective | node | deferred =>
      dsimp only
      rw [hcriteria, ok_bind]
      split <;> rfl

section

variable {R : Node → Option Bool → Prop}

/-- A group with one more condition asks for both. -/
theorem IsReading.add (hR : IsReading R) (g : Group) (new : Node) (d : Option Bool) :
    R (g.add new).toNode d ↔ Connective.and.Joins R [g.toNode, new] d := by
  rw [Connective.and_joins_cons]
  constructor
  · intro h
    obtain ⟨e, f, x, he, hf, hx, rfl⟩ := (hR _ _ _ _ _ _).mp h
    obtain ⟨old, last, hold, hlast, rfl⟩ := Connective.and_joins_append.mp he
    refine ⟨_, last, (hR _ _ _ _ _ _).mpr ⟨old, f, x, hold, hf, hx, rfl⟩, hlast, ?_⟩
    simp only [Connective.and_demand_cons, Connective.demand_nil, Option.merge_none_right]
    ac_rfl
  · rintro ⟨e, last, he, hlast, rfl⟩
    obtain ⟨old, f, x, hold, hf, hx, rfl⟩ := (hR _ _ _ _ _ _).mp he
    refine (hR _ _ _ _ _ _).mpr
      ⟨_, f, x, Connective.and_joins_append.mpr ⟨old, last, hold, hlast, rfl⟩, hf, hx, ?_⟩
    simp only [Connective.and_demand_cons, Connective.demand_nil, Option.merge_none_right]
    ac_rfl

/-- A new group of conditions asks for all of them. -/
theorem IsReading.mergedGroup (hR : IsReading R) (conditions : List Node) (d : Option Bool) :
    R (mergedGroup conditions).toNode d ↔ Connective.and.Joins R conditions d := by
  have hdemand : ∀ e, Connective.and.demand [e, none, none] = e := by
    intro e
    simp only [Connective.and_demand_cons, Connective.demand_nil, Option.merge_none_right]
  constructor
  · intro h
    obtain ⟨e, f, x, he, hf, hx, rfl⟩ := (hR _ _ _ _ _ _).mp h
    rw [Connective.joins_nil.mp hf, Connective.joins_nil.mp hx, hdemand]
    exact he
  · intro h
    exact (hR _ _ _ _ _ _).mpr
      ⟨d, none, none, h, Connective.joins_nil.mpr rfl, Connective.joins_nil.mpr rfl, hdemand d⟩

/-- A filter with one more condition asks for both. -/
theorem IsReading.merge (hR : IsReading R) (existing new : Node) (d : Option Bool) :
    R (existing.merge new).toNode d ↔ Connective.and.Joins R [existing, new] d := by
  cases existing with
  | leaf => exact hR.mergedGroup _ d
  | group ands ors nots id label => exact hR.add ⟨ands, ors, nots, id, label⟩ new d

/-- Merging asks for what there was and for what was added. -/
theorem exists_mergeFilters {added criteria : Value} {new : Node} {existing : Option Node}
    (hadded : buildNode none added = .ok new) (hcriteria : existingFilter? criteria = .ok existing) :
    ∃ g, mergeFilters added criteria = .ok g ∧
      ∀ {R : Node → Option Bool → Prop}, IsReading R → ∀ d,
        R g.toNode d ↔ Connective.and.Joins R (existing.toList ++ [new]) d := by
  by_cases hnull : criteria = .null
  · subst hnull
    obtain rfl : none = existing := Except.ok.inj hcriteria
    refine ⟨_, by rw [mergeFilters, hadded, ok_bind]; rfl, ?_⟩
    exact fun hR d => hR.mergedGroup _ d
  · rw [existingFilter?_of_ne_null hnull] at hcriteria
    obtain ⟨node, hnode, rfl⟩ := map_eq_ok_iff.mp hcriteria
    refine ⟨_, mergeFilters_of_ne_null hadded hnode hnull, ?_⟩
    intro R hR d
    split
    · exact hR.mergedGroup _ d
    · exact hR.merge node new d

end

/-! ## Runs of merges -/

/-- Filters merged one after the other into criteria: the first one, and then the later ones into
what has been merged so far. -/
def mergeAll : (criteria first : Value) → (later : List Value) → Except FilterError Group
  | criteria, first, [] => mergeFilters first criteria
  | criteria, first, next :: later => do
    let g ← mergeFilters first criteria
    mergeAll (.node g.toNode) next later

/-- The value builds to the filter. -/
def Value.Builds (v : Value) (n : Node) : Prop :=
  buildNode none v = .ok n

/-- A run of merges asks for what there was and for all that was added. -/
theorem exists_mergeAll {later : List Value} {others : List Node}
    (hlater : List.Forall₂ Value.Builds later others) :
    ∀ {criteria first : Value} {existing : Option Node} {new : Node},
      existingFilter? criteria = .ok existing → first.Builds new →
      ∃ g, mergeAll criteria first later = .ok g ∧
        ∀ {R : Node → Option Bool → Prop}, IsReading R → ∀ d,
          R g.toNode d ↔ Connective.and.Joins R (existing.toList ++ new :: others) d := by
  induction hlater with
  | nil =>
      intro criteria first existing new hcriteria hfirst
      exact exists_mergeFilters hfirst hcriteria
  | @cons next other later others hnext _ ih =>
      intro criteria first existing new hcriteria hfirst
      obtain ⟨merged, hmerged, hreads⟩ := exists_mergeFilters hfirst hcriteria
      have hready : existingFilter? (.node merged.toNode) = .ok (some merged.toNode) := rfl
      obtain ⟨g, hg, hrest⟩ := ih hready hnext
      refine ⟨g, by rw [mergeAll, hmerged, ok_bind, hg], ?_⟩
      intro R hR d
      have hsplit : existing.toList ++ new :: other :: others =
          (existing.toList ++ [new]) ++ other :: others := by simp
      rw [hrest hR, hsplit, Connective.and_joins_append, Connective.and_joins_append]
      simp only [Option.toList_some, Connective.and_joins_singleton, hreads hR]

/-- A run of merges into a group extends its `and` branch and keeps all else. -/
theorem mergeAll_group {later : List Value} {others : List Node}
    (hlater : List.Forall₂ Value.Builds later others) :
    ∀ {criteria first : Value} {c : Group} {new : Node}, criteria ≠ .null →
      ¬criteria.isEntityFilter = true → criteria.Builds c.toNode → first.Builds new →
      mergeAll criteria first later = .ok { c with ands := c.ands ++ new :: others } := by
  induction hlater with
  | nil =>
      intro criteria first c new hnull hentity hcriteria hfirst
      rw [mergeAll, mergeFilters_of_ne_null hfirst hcriteria hnull, if_neg hentity]
      rfl
  | @cons next other later others hnext _ ih =>
      intro criteria first c new hnull hentity hcriteria hfirst
      have hmerged : mergeFilters first criteria = .ok (c.add new) := by
        rw [mergeFilters_of_ne_null hfirst hcriteria hnull, if_neg hentity, Node.merge_group]
      have hready : (Value.node (c.add new).toNode).Builds (c.add new).toNode := rfl
      have hrest := ih (by simp) (by simp [Value.isEntityFilter]) hready hnext
      rw [mergeAll, hmerged, ok_bind, hrest, Group.add, List.append_assoc]
      rfl

/-- Raw groups are records. -/
theorem Value.exists_record_of_isGroupFilter {v : Value} (h : v.isGroupFilter = true) :
    ∃ fields, v = .record fields := by
  cases v with
  | record fields => exact ⟨fields, rfl⟩
  | null | bool | int | float | text | list | tuple | moment | connective | node | deferred =>
      exact absurd h Bool.false_ne_true

/-- A raw group builds to a group. -/
theorem builds_of_isGroupFilter {v : Value} {n : Node} (hgroup : v.isGroupFilter = true)
    (h : v.Builds n) : ∃ c : Group, n = c.toNode := by
  obtain ⟨fields, rfl⟩ := Value.exists_record_of_isGroupFilter hgroup
  obtain ⟨c, -, -, -, rfl⟩ := (buildAt_eq_ok_iff_of_isGroupFilter hgroup).mp h
  exact ⟨c, rfl⟩

/-- **Merging is conjunction.** Filters that are merged one after the other into criteria, absent or
in any shape, give a group. Whatever the criteria on attributes ask for, it asks for all that was
merged, in any order; and so does the text it compiles to, on every surface and under every
assignment, where an empty text asks for nothing. When the criteria are a group, ready or raw, the
new conditions stand at the end of its `and` branch and all else is kept. -/
theorem merging_is_conjunction {criteria first : Value} {later : List Value}
    {existing : Option Node} {new : Node} {others : List Node}
    (hcriteria : existingFilter? criteria = .ok existing) (hfirst : first.Builds new)
    (hlater : List.Forall₂ Value.Builds later others) :
    ∃ g, mergeAll criteria first later = .ok g ∧
      (∀ conditions : List Node, conditions.Perm (existing.toList ++ new :: others) →
        (∀ holds, g.toNode.value holds =
          Connective.and.demand (conditions.map (Node.value holds))) ∧
        ∀ s assignment d, g.toNode.AsksFor s assignment d ↔
          ∃ demands, List.Forall₂ (Node.AsksFor s assignment) conditions demands ∧
            Connective.and.demand demands = d) ∧
      ((criteria.isGroupFilter = true ∨ ∃ c : Group, criteria = .node c.toNode) →
        ∃ c : Group, existing = some c.toNode ∧
          g = { c with ands := c.ands ++ new :: others }) := by
  obtain ⟨g, hg, hreads⟩ := exists_mergeAll hlater hcriteria hfirst
  refine ⟨g, hg, fun conditions hperm => ?_, fun hshape => ?_⟩
  · -- the two readings are the truth of the filter and the demand of its text
    have hjoins : ∀ {R : Node → Option Bool → Prop}, IsReading R → ∀ d,
        R g.toNode d ↔ Connective.and.Joins R conditions d := by
      intro R hR d
      rw [hreads hR]
      exact ⟨Connective.and_joins_of_perm hperm.symm, Connective.and_joins_of_perm hperm⟩
    constructor
    · intro holds
      have hvalue := (hjoins (isReading_value holds) (g.toNode.value holds)).mp rfl
      exact ((joins_eq_iff _ _ _ _).mp hvalue).symm
    · intro s assignment d
      exact hjoins (isReading_asksFor s assignment) d
  · have hnull : criteria ≠ .null := by
      rintro rfl
      rcases hshape with hgroup | ⟨c, hc⟩
      · exact absurd hgroup Bool.false_ne_true
      · exact absurd hc (by simp)
    rw [existingFilter?_of_ne_null hnull] at hcriteria
    obtain ⟨node, hnode, rfl⟩ := map_eq_ok_iff.mp hcriteria
    have hgroup : ∃ c : Group, node = c.toNode ∧ ¬criteria.isEntityFilter = true := by
      rcases hshape with hgroup | ⟨c, rfl⟩
      · obtain ⟨c, rfl⟩ := builds_of_isGroupFilter hgroup hnode
        obtain ⟨fields, rfl⟩ := Value.exists_record_of_isGroupFilter hgroup
        exact ⟨c, rfl, Value.not_isEntityFilter_of_isGroupFilter hgroup⟩
      · exact ⟨c, (Except.ok.inj hnode).symm, Bool.false_ne_true⟩
    obtain ⟨c, rfl, hentity⟩ := hgroup
    rw [mergeAll_group hlater hnull hentity hnode hfirst] at hg
    exact ⟨c, rfl, (Except.ok.inj hg).symm⟩

/-- A group that asks for a name in its `or` branch and refuses another in its `not` branch. -/
def namesFilter : Group where
  ors := [.leaf "name" [(.equals, .text "Ada")] .and .null .null]
  nots := [.leaf "name" [(.equals, .text "Bob")] .and .null .null]
  label := .text "names"

/-- A map of attributes for one age. -/
def ageMap : Value :=
  .record [("age", .record [("gt", .int 18)])]

/-- What the map of attributes for one age builds to. -/
def ageMapFilter : Node :=
  .group [.leaf "age" [(.greater, .int 18)] .and .null .null] [] [] .null .null

/-- Two maps of attributes and an empty group, merged into a group, stand at the end of its `and`
branch, and the group asks for all of them in another order too. -/
theorem namesFilter_merged :
    existingFilter? (.node namesFilter.toNode) = .ok (some namesFilter.toNode) ∧
      ageMap.Builds ageMapFilter ∧ (Value.node Group.empty.toNode).Builds Group.empty.toNode ∧
      mergeAll (.node namesFilter.toNode) ageMap [.node Group.empty.toNode, ageMap] =
        .ok { namesFilter with ands := [ageMapFilter, Group.empty.toNode, ageMapFilter] } ∧
      ∀ holds,
        Node.value holds (Group.toNode
            { namesFilter with ands := [ageMapFilter, Group.empty.toNode, ageMapFilter] }) =
          Connective.and.demand ([ageMapFilter, namesFilter.toNode, Group.empty.toNode,
            ageMapFilter].map (Node.value holds)) := by
  have hage : ageMap.Builds ageMapFilter := rfl
  have hempty : (Value.node Group.empty.toNode).Builds Group.empty.toNode := rfl
  have hready : existingFilter? (.node namesFilter.toNode) = .ok (some namesFilter.toNode) := rfl
  obtain ⟨g, hg, hvalue, hshape⟩ :=
    merging_is_conjunction hready hage (.cons hempty (.cons hage .nil))
  obtain ⟨c, hc, rfl⟩ := hshape (.inr ⟨namesFilter, rfl⟩)
  obtain rfl : namesFilter = c := congrArg Group.ofNode (Option.some.inj hc)
  exact ⟨rfl, hage, hempty, hg, (hvalue _ (List.Perm.swap namesFilter.toNode ageMapFilter _)).1⟩

end RecordQuery
