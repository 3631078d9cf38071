import RecordQuery.Proofs.Filter.Building
import RecordQuery.Proofs.Filter.Leaves
/-!
# Building under a whitelist

Building under a whitelist is compared with building without one, step by step. `Guards` relates two
such runs: where the free run succeeds, the guarded run does what checking the uses of operators one
after the other does, and gives the same result when all are allowed; where the free run fails, the
guarded run fails with the same error or because of a use that is not allowed. It holds of every step
of the builder, and `whitelist_exact` is what it says of whole filters.
-/

namespace RecordQuery

/-! ## Checking uses -/

namespace Whitelist

variable (w : Whitelist)

/-- The check of several uses of operators, one after the other. -/
def checkAll : List (String × Operator) → Except FilterError Unit
  | [] => .ok ()
  | use :: rest => do
    w.check use.1 use.2.name
    checkAll rest

theorem checkAll_append (first second : List (String × Operator)) :
    w.checkAll (first ++ second) = w.checkAll first >>= fun _ => w.checkAll second := by
  induction first with
  | nil => rfl
  | cons use rest ih =>
      rw [List.cons_append, checkAll, checkAll, ih]
      cases w.check use.1 use.2.name with
      | error e => rfl
      | ok _ => rfl

/-- A check that fails names the attribute. -/
theorem check_of_not_allows {name spelling : String} (h : ¬w.Allows name spelling) :
    ∃ operator, w.check name spelling = .error (.notAllowed (.text name) operator) := by
  rw [← check_ok_iff] at h
  cases hlisted : w.operators? name with
  | none => exact ⟨.null, by rw [check, hlisted]⟩
  | some operators =>
      refine ⟨.text spelling, ?_⟩
      simp only [check, hlisted] at h ⊢
      by_cases hlists : (operators.isEmpty || operators.contains (Operator.normalize spelling)) = true
      · exact absurd (if_pos hlists) h
      · exact if_neg hlists

/-- The uses are checked with success when all are allowed, and otherwise the first one that is not is
named. -/
theorem checkAll_cases (uses : List (String × Operator)) :
    ((∀ use ∈ uses, w.Allows use.1 use.2.name) ∧ w.checkAll uses = .ok ()) ∨
      ∃ before use after operator, uses = before ++ use :: after ∧
        (∀ earlier ∈ before, w.Allows earlier.1 earlier.2.name) ∧ ¬w.Allows use.1 use.2.name ∧
        w.checkAll uses = .error (.notAllowed (.text use.1) operator) := by
  induction uses with
  | nil => exact .inl ⟨by simp, rfl⟩
  | cons use rest ih =>
      by_cases hallows : w.Allows use.1 use.2.name
      · rw [checkAll, (w.check_ok_iff _ _).mpr hallows, ok_bind]
        rcases ih with ⟨hall, hok⟩ | ⟨before, first, after, operator, rfl, hbefore, hfirst, herror⟩
        · exact .inl ⟨List.forall_mem_cons.mpr ⟨hallows, hall⟩, hok⟩
        · exact .inr ⟨use :: before, first, after, operator, rfl,
            List.forall_mem_cons.mpr ⟨hallows, hbefore⟩, hfirst, herror⟩
      · obtain ⟨operator, herror⟩ := w.check_of_not_allows hallows
        refine .inr ⟨[], use, rest, operator, rfl, by simp, hallows, ?_⟩
        rw [checkAll, herror, error_bind]

end Whitelist

/-! ## Guarded runs -/

/-- The guarded run does what the free run does as far as the uses of operators in the result are
allowed. -/
def Guards (w : Whitelist) {α : Type} (uses : α → List (String × Operator))
    (free guarded : Except FilterError α) : Prop :=
  (∀ a, free = .ok a → guarded = (w.checkAll (uses a)).map fun _ => a) ∧
    ∀ e, free = .error e →
      guarded = .error e ∨ ∃ name operator, guarded = .error (.notAllowed name operator)

namespace Guards

variable {w : Whitelist} {α β : Type}

/-- A run that uses no operator need not be guarded. -/
theorem refl {uses : α → List (String × Operator)} {x : Except FilterError α}
    (h : ∀ a, x = .ok a → uses a = []) : Guards w uses x x := by
  constructor
  · intro a ha
    rw [h a ha, ha]
    rfl
  · intro e he
    exact .inl he

/-- The check of a use guards it. -/
theorem check (name : String) (op : Operator) :
    Guards w (fun _ => [(name, op)]) (.ok ()) (w.check name op.name) := by
  constructor
  · rintro ⟨⟩ -
    rw [Whitelist.checkAll]
    cases w.check name op.name with
    | error e => rfl
    | ok _ => rfl
  · intro e he
    exact absurd he (by simp)

/-- Two steps are guarded when both are, and the result uses what the first step uses and then what the
second does. -/
theorem bind {first : α → List (String × Operator)} {uses : β → List (String × Operator)}
    {x x' : Except FilterError α} {f f' : α → Except FilterError β}
    (second : β → List (String × Operator)) (hx : Guards w first x x')
    (hf : ∀ a, x = .ok a → Guards w second (f a) (f' a))
    (huses : ∀ a b, f a = .ok b → uses b = first a ++ second b) :
    Guards w uses (x >>= f) (x' >>= f') := by
  constructor
  · intro b hb
    obtain ⟨a, ha, hb⟩ := bind_eq_ok_iff.mp hb
    rw [hx.1 a ha, huses a b hb, Whitelist.checkAll_append]
    cases w.checkAll (first a) with
    | error e => rfl
    | ok _ => exact (hf a ha).1 b hb
  · intro e he
    cases hfree : x with
    | error e' =>
        rw [hfree, error_bind] at he
        obtain rfl : e' = e := Except.error.inj he
        rcases hx.2 e' hfree with hsame | ⟨name, operator, hrefused⟩
        · exact .inl (by rw [hsame, error_bind])
        · exact .inr ⟨name, operator, by rw [hrefused, error_bind]⟩
    | ok a =>
        rw [hfree, ok_bind] at he
        rw [hx.1 a hfree]
        rcases w.checkAll_cases (first a) with ⟨-, hok⟩ | ⟨_, use, _, operator, -, -, -, hrefused⟩
        · rw [hok]
          exact (hf a hfree).2 e he
        · exact .inr ⟨.text use.1, operator, by rw [hrefused]; rfl⟩

/-- A result that is turned into one with the same uses is guarded as before. -/
theorem map {first : α → List (String × Operator)} {uses : β → List (String × Operator)}
    {x x' : Except FilterError α} {f : α → β} (hx : Guards w first x x')
    (huses : ∀ a, uses (f a) = first a) : Guards w uses (x.map f) (x'.map f) := by
  constructor
  · intro b hb
    obtain ⟨a, ha, rfl⟩ := map_eq_ok_iff.mp hb
    rw [hx.1 a ha, huses]
    cases w.checkAll (first a) with
    | error e => rfl
    | ok _ => rfl
  · intro e he
    cases hfree : x with
    | ok a =>
        rw [hfree] at he
        exact absurd he (by simp [Except.map])
    | error e' =>
        rw [hfree] at he
        obtain rfl : e' = e := Except.error.inj he
        rcases hx.2 e' hfree with hsame | ⟨name, operator, hrefused⟩
        · exact .inl (by rw [hsame]; rfl)
        · exact .inr ⟨name, operator, by rw [hrefused]; rfl⟩

/-- Two steps of which neither needs the other are guarded when both are. -/
theorem seq {γ : Type} {first : α → List (String × Operator)} {second : β → List (String × Operator)}
    {uses : γ → List (String × Operator)} {x x' : Except FilterError α} {y y' : Except FilterError β}
    (hx : Guards w first x x') (hy : Guards w second y y') (f : α → β → γ)
    (huses : ∀ a b, uses (f a b) = first a ++ second b) :
    Guards w uses (x >>= fun a => y >>= fun b => Except.ok (f a b))
      (x' >>= fun a => y' >>= fun b => Except.ok (f a b)) := by
  have hpair : Guards w (fun pair : α × β => first pair.1 ++ second pair.2)
      (x >>= fun a => y.map (Prod.mk a)) (x' >>= fun a => y'.map (Prod.mk a)) := by
    refine hx.bind (fun pair => second pair.2) (fun a _ => hy.map fun b => rfl) ?_
    intro a pair hresult
    obtain ⟨b, -, rfl⟩ := map_eq_ok_iff.mp hresult
    rfl
  have hjoin : ∀ (x : Except FilterError α) (y : Except FilterError β),
      (x >>= fun a => y.map (Prod.mk a)).map (fun pair => f pair.1 pair.2) =
        x >>= fun a => y >>= fun b => Except.ok (f a b) := by
    intro x y
    cases x with
    | error e => rfl
    | ok a =>
        cases y with
        | error e => rfl
        | ok b => rfl
  rw [← hjoin, ← hjoin]
  exact hpair.map fun pair => huses pair.1 pair.2

/-- What a guarded run gives uses only what is allowed. -/
theorem allows_of_ok {uses : α → List (String × Operator)} {x x' : Except FilterError α}
    (h : Guards w uses x x') {a : α} (ha : x' = .ok a) :
    ∀ use ∈ uses a, w.Allows use.1 use.2.name := by
  cases hfree : x with
  | error e =>
      rcases h.2 e hfree with hsame | ⟨name, operator, hrefused⟩
      · exact absurd (ha.symm.trans hsame) (by simp)
      · exact absurd (ha.symm.trans hrefused) (by simp)
  | ok built =>
      rw [h.1 built hfree] at ha
      obtain ⟨⟨⟩, hok, rfl⟩ := map_eq_ok_iff.mp ha
      rcases w.checkAll_cases (uses built) with ⟨hall, -⟩ | ⟨_, _, _, _, -, -, -, herror⟩
      · exact hall
      · exact absurd (hok.symm.trans herror) (by simp)

/-- A pass over a list is guarded when every item is. -/
theorem mapM {γ : Type} {uses : β → List (String × Operator)} {f f' : γ → Except FilterError β}
    (h : ∀ x, Guards w uses (f x) (f' x)) (xs : List γ) :
    Guards w (fun ys => ys.flatMap uses) (xs.mapM f) (xs.mapM f') := by
  induction xs with
  | nil => exact refl fun ys hys => by rw [← Except.ok.inj hys]; rfl
  | cons x rest ih =>
      rw [List.mapM_cons, List.mapM_cons]
      exact (h x).seq ih List.cons fun y ys => List.flatMap_cons

end Guards

/-! ## Leaves -/

section

variable {w : Whitelist}

/-- The operators that criteria on an attribute use. -/
def Criteria.uses (name : String) (criteria : Criteria) : List (String × Operator) :=
  criteria.map fun criterion => (name, criterion.1)

theorem guards_criteriaAfter (name path : String) (seen : List (Operator × String)) (fields : Fields) :
    Guards w (Criteria.uses name) (criteriaAfter none name path seen fields)
      (criteriaAfter (some w) name path seen fields) := by
  induction fields generalizing seen with
  | nil => exact .refl fun criteria h => by rw [← Except.ok.inj h]; rfl
  | cons field rest ih =>
      obtain ⟨key, value⟩ := field
      rw [criteriaAfter, criteriaAfter]
      cases FilterKey.isCriterion key with
      | false => exact ih seen
      | true =>
          simp only [if_true]
          cases Operator.ofKey key (.text s!"{path}.{key}") with
          | error e => exact .refl fun criteria h => absurd h (by simp)
          | ok op =>
              rw [ok_bind, ok_bind]
              cases hseen : seen.lookup op with
              | some first =>
                  exact .refl fun criteria h => absurd h (by simp)
              | none =>
                  -- the check comes first, then the value is shaped, then the others are read
                  have hlater := ih ((op, key) :: seen)
                  have hvalue : Guards w (fun _ => []) (shapeValue op value) (shapeValue op value) :=
                    .refl fun _ _ => rfl
                  refine (Guards.check name op).bind (fun found => Criteria.uses name found.tail)
                    (fun _ _ => hvalue.seq hlater (fun shaped later => (op, shaped) :: later)
                      fun shaped later => rfl) ?_
                  rintro ⟨⟩ found hfound
                  obtain ⟨shaped, -, hfound⟩ := bind_eq_ok_iff.mp hfound
                  obtain ⟨later, -, hfound⟩ := bind_eq_ok_iff.mp hfound
                  obtain rfl := Except.ok.inj hfound
                  rfl

theorem guards_criteriaOf (name path : String) (fields : Fields) :
    Guards w (Criteria.uses name) (criteriaOf none name path fields)
      (criteriaOf (some w) name path fields) := by
  rw [criteriaOf, criteriaOf]
  have hread := guards_criteriaAfter (w := w) name path [] fields
  refine hread.bind (fun _ => []) (fun criteria _ => .refl fun _ _ => rfl) ?_
  intro criteria found hfound
  by_cases hempty : criteria.isEmpty = true
  · rw [if_pos hempty] at hfound
    exact absurd hfound (by simp)
  · rw [if_neg hempty] at hfound
    rw [← Except.ok.inj hfound, List.append_nil]

theorem guards_leafOf (name path : String) (fields : Fields) :
    Guards w Node.uses (leafOf none name path fields) (leafOf (some w) name path fields) := by
  have hjoiner : Guards w (fun _ => []) (joinerOf fields path leafJoiners)
      (joinerOf fields path leafJoiners) := .refl fun _ _ => rfl
  refine (guards_criteriaOf name path fields).seq hjoiner (fun criteria joiner =>
    Node.leaf name criteria joiner (Tag.ofFields fields).id (Tag.ofFields fields).label) ?_
  intro criteria joiner
  simp [Node.uses, Leaf.uses, Criteria.uses]

theorem guards_attributeLeaf (path : String) (fields : Fields) :
    Guards w Node.uses (attributeLeaf none path fields) (attributeLeaf (some w) path fields) := by
  rw [attributeLeaf, attributeLeaf]
  cases ((Fields.get? fields FilterKey.name).getD .null).text? with
  | none => exact .refl fun n h => absurd h (by simp)
  | some name =>
      by_cases hname : name = ""
      · simp only [if_pos hname]
        exact .refl fun n h => absurd h (by simp)
      · simp only [if_neg hname]
        exact guards_leafOf name path fields

/-! ## Trees -/

/-- The operators that the members of a branch use. -/
def membersUses (ns : List Node) : List (String × Operator) :=
  ns.flatMap Node.uses

/-- A group uses what the members of its branches use. -/
theorem Node.uses_group (ands ors nots : List Node) (id label : Value) :
    (Node.group ands ors nots id label).uses =
      membersUses ands ++ (membersUses ors ++ membersUses nots) := by
  simp only [uses, membersUses, leaves_group, List.flatMap_append, List.flatMap_assoc,
    List.append_assoc]
  rfl

theorem Node.uses_ofBranch (branch : Connective) (members : List Node) (tag : Tag) :
    (Group.ofBranch branch members tag).toNode.uses = membersUses members := by
  cases branch <;> simp [Group.ofBranch, Group.toNode, uses_group, membersUses]

theorem guards_mapGroup (path : String) (fields : Fields) :
    Guards w (fun g : Group => g.toNode.uses) (mapGroup none path fields)
      (mapGroup (some w) path fields) := by
  have hjoiner : Guards w (fun _ => []) (joinerOf fields path Connective.all)
      (joinerOf fields path Connective.all) := .refl fun _ _ => rfl
  have hleaves : Guards w membersUses (mapLeaves none path fields)
      (mapLeaves (some w) path fields) := by
    rw [mapLeaves_eq_mapM, mapLeaves_eq_mapM]
    exact Guards.mapM (fun entry : String × Value => guards_leafOf entry.1 _ (operatorMap entry.2)) _
  refine hjoiner.seq hleaves (fun branch leaves => Group.ofBranch branch leaves (Tag.ofMap fields)) ?_
  intro branch leaves
  exact Node.uses_ofBranch branch leaves (Tag.ofMap fields)

theorem guards_buildMembers {items : List Value}
    (h : ∀ item ∈ items, ∀ place, Guards w Node.uses (buildAt none place item)
      (buildAt (some w) place item)) (path : String) (index : Nat) :
    Guards w membersUses (buildMembers none path index items)
      (buildMembers (some w) path index items) := by
  induction items generalizing index with
  | nil => exact .refl fun ns hns => by rw [← Except.ok.inj hns]; rfl
  | cons item rest ih =>
      rw [List.forall_mem_cons] at h
      exact (h.1 _).seq (ih h.2 (index + 1)) List.cons fun n ns => List.flatMap_cons

/-- Building under a whitelist is guarded building. -/
theorem guards_buildAt {v : Value} (hfree : v.isNodeFree = true) (path : String) :
    Guards w Node.uses (buildAt none path v) (buildAt (some w) path v) := by
  induction v using Value.memberInduction generalizing path with
  | other v hrecord =>
      have hnode := Value.ne_node_of_isNodeFree hfree
      rw [buildAt_of_not_record hrecord hnode, buildAt_of_not_record hrecord hnode]
      exact .refl fun n h => absurd h (by simp)
  | record fields ih =>
      rcases Value.shape_cases fields with hattribute | hgroup | hmap | ⟨hattribute, hgroup, hmap⟩
      · rw [buildAt_of_isAttributeFilter hattribute, buildAt_of_isAttributeFilter hattribute]
        exact guards_attributeLeaf path fields
      · have hbranch : ∀ branch, Guards w membersUses (buildBranch none path branch fields)
            (buildBranch (some w) path branch fields) := by
          intro branch
          rw [buildBranch_eq, buildBranch_eq]
          cases hitems : branchItems? fields branch with
          | none => exact .refl fun ns h => absurd h (by simp)
          | some items =>
              refine guards_buildMembers (fun item hitem place => ?_) _ 0
              exact ih branch items hitems item hitem
                (Value.everywhere_of_branchItems? hfree hitems item hitem) place
        rw [buildAt_of_isGroupFilter hgroup, buildAt_of_isGroupFilter hgroup]
        -- after the first branch, a result uses what its other branches use
        refine (hbranch .and).bind
          (fun n => membersUses (Group.ofNode n).ors ++ membersUses (Group.ofNode n).nots)
          (fun ands _ => (hbranch .or).seq (hbranch .not) (fun ors nots => Node.group ands ors nots
            (Tag.ofFields fields).id (Tag.ofFields fields).label) fun ors nots => rfl) ?_
        intro ands n hn
        obtain ⟨ors, -, hn⟩ := bind_eq_ok_iff.mp hn
        obtain ⟨nots, -, hn⟩ := bind_eq_ok_iff.mp hn
        obtain rfl := Except.ok.inj hn
        exact Node.uses_group _ _ _ _ _
      · rw [buildAt_of_isEntityFilter hmap, buildAt_of_isEntityFilter hmap]
        exact (guards_mapGroup path fields).map fun g => rfl
      · rw [buildAt_of_no_shape hattribute hgroup hmap, buildAt_of_no_shape hattribute hgroup hmap]
        exact .refl fun n h => absurd h (by simp)

end

/-! ## Filters -/

/-- A whitelist decides exactly about the uses of operators in what would be built without it: when it
allows all of them, the same filter is built; otherwise the first use that it does not allow is
refused, by the name of its attribute; and where nothing would be built without it, nothing is built
with it, for the same error or because of a use that it does not allow. So every use of an operator in
a filter that is built under a whitelist is allowed. -/
theorem whitelist_exact {raw : Value} (hfree : raw.isNodeFree = true) (w : Whitelist) :
    (∀ g, buildFilter none raw = .ok g →
      (∀ use ∈ g.uses, w.Allows use.1 use.2.name) → buildFilter (some w) raw = .ok g) ∧
    (∀ g, buildFilter none raw = .ok g → (∃ use ∈ g.uses, ¬w.Allows use.1 use.2.name) →
      ∃ before use after operator, g.uses = before ++ use :: after ∧
        (∀ earlier ∈ before, w.Allows earlier.1 earlier.2.name) ∧ ¬w.Allows use.1 use.2.name ∧
        buildFilter (some w) raw = .error (.notAllowed (.text use.1) operator)) ∧
    (∀ e, buildFilter none raw = .error e → buildFilter (some w) raw = .error e ∨
      ∃ name operator, buildFilter (some w) raw = .error (.notAllowed name operator)) ∧
    (∀ g, buildFilter (some w) raw = .ok g → ∀ use ∈ g.uses, w.Allows use.1 use.2.name) := by
  have hguards : Guards w Group.uses (buildFilter none raw) (buildFilter (some w) raw) :=
    (guards_buildAt hfree rootPath).map Group.uses_ofNode
  refine ⟨?_, ?_, hguards.2, ?_⟩
  · intro g hg hall
    rcases w.checkAll_cases g.uses with ⟨-, hok⟩ | ⟨before, use, after, _, huses, -, hnot, -⟩
    · rw [hguards.1 g hg, hok]
      rfl
    · refine absurd (hall use ?_) hnot
      rw [huses]
      simp
  · rintro g hg ⟨use, huse, hnot⟩
    rcases w.checkAll_cases g.uses with ⟨hall, -⟩ | ⟨before, first, after, operator, huses, hbefore,
      hfirst, herror⟩
    · exact absurd (hall use huse) hnot
    · refine ⟨before, first, after, operator, huses, hbefore, hfirst, ?_⟩
      rw [hguards.1 g hg, herror]
      rfl
  · intro g hg
    cases hbuilt : buildFilter none raw with
    | error e =>
        rcases hguards.2 e hbuilt with hsame | ⟨name, operator, hrefused⟩
        · exact absurd (hg.symm.trans hsame) (by simp)
        · exact absurd (hg.symm.trans hrefused) (by simp)
    | ok built =>
        rw [hguards.1 built hbuilt] at hg
        obtain ⟨⟨⟩, hok, rfl⟩ := map_eq_ok_iff.mp hg
        rcases w.checkAll_cases built.uses with ⟨hall, -⟩ | ⟨_, _, _, _, -, -, -, herror⟩
        · exact hall
        · exact absurd (hok.symm.trans herror) (by simp)

/-- People of a name and above an age. -/
def peopleFilter : Value :=
  .record [("and", .list [.record [("attribute", .text "name"), ("equal", .text "Ada")]]),
    ("or", .list [.record [("age", .record [("greaterThan", .int 18)])]])]

theorem peopleFilter_allowed :
    peopleFilter.isNodeFree = true ∧ ∃ g, buildFilter none peopleFilter = .ok g ∧
      g.uses = [("name", .equals), ("age", .greater)] ∧
      buildFilter (some (.ofList [("name", ["=="]), ("age", [])])) peopleFilter = .ok g := by
  have hfree : peopleFilter.isNodeFree = true := by decide
  refine ⟨hfree, _, rfl, rfl, (whitelist_exact hfree _).1 _ rfl ?_⟩
  show ∀ use ∈ [("name", Operator.equals), ("age", Operator.greater)], _
  rw [List.forall_mem_cons, List.forall_mem_singleton]
  exact ⟨⟨_, rfl, .inr (by decide)⟩, ⟨_, rfl, .inl rfl⟩⟩

end RecordQuery
