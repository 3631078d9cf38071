import RecordQuery.Proofs.Filter.Agreement
/-!
# What reports list

A tree of groups is gone through twice: reporting goes on after a fault, and building stops at the
first one. Reporting reports on each raw leaf alone, and the error of building is that of the first
faulty one (`reports_list_faults`). There is a list of reports only if the messages of all errors can be
written: a single one that cannot be ends reporting, wherever it stands.
-/

namespace RecordQuery

/-! ## Faults -/

/-- The error of a computation that fails. -/
def fault? {ε α : Type} : Except ε α → Option ε
  | .ok _ => none
  | .error e => some e

theorem fault?_eq_some_iff {ε α : Type} {x : Except ε α} {e : ε} :
    fault? x = some e ↔ x = .error e := by
  cases x with
  | ok a => simp [fault?]
  | error e' => simp [fault?]

theorem fault?_eq_none_iff {ε α : Type} {x : Except ε α} :
    fault? x = none ↔ ∃ a, x = .ok a := by
  cases x with
  | ok a => simp [fault?]
  | error e => simp [fault?]

@[simp] theorem fault?_map {ε α β : Type} (x : Except ε α) (f : α → β) :
    fault? (x.map f) = fault? x := by
  cases x <;> rfl

theorem fault?_liftFilter {α : Type} (x : Except FilterError α) :
    fault? (liftFilter x) = (fault? x).map FilterError.raised := by
  cases x <;> rfl

/-- Of two steps the first error counts, when that of the second does not hang on the result of the
first. -/
theorem fault?_bind {ε α β : Type} {x : Except ε α} {f : α → Except ε β} {later : Option ε}
    (h : ∀ a, fault? (f a) = later) : fault? (x >>= f) = (fault? x).or later := by
  cases x with
  | ok a => exact h a
  | error e => rfl

/-- What is put together from a result cannot fail. -/
theorem fault?_bind_pure {ε α β : Type} (x : Except ε α) (f : α → β) :
    fault? (x >>= fun a => pure (f a)) = fault? x := by
  cases x <;> rfl

section

variable (w : Option Whitelist)

/-- The errors of those filters that cannot be built at their places, each with the place of its
filter. -/
def faultsAmong (leaves : List (String × Value)) : List (String × FilterError) :=
  leaves.filterMap fun leaf => (fault? (buildAt w leaf.1 leaf.2)).map fun e => (leaf.1, e)

/-- The first error among those of several filters. -/
def firstFault? (leaves : List (String × Value)) : Option FilterError :=
  (faultsAmong w leaves).head?.map Prod.snd

/-- The faults of a tree of groups: those of its raw leaves. -/
def Value.faults (v : Value) : List (String × FilterError) :=
  faultsAmong w (v.rawLeaves rootPath)

theorem faultsAmong_append (first second : List (String × Value)) :
    faultsAmong w (first ++ second) = faultsAmong w first ++ faultsAmong w second :=
  List.filterMap_append

theorem firstFault?_append (first second : List (String × Value)) :
    firstFault? w (first ++ second) = (firstFault? w first).or (firstFault? w second) := by
  rw [firstFault?, faultsAmong_append, List.head?_append, Option.map_or]
  rfl

theorem firstFault?_singleton (path : String) (v : Value) :
    firstFault? w [(path, v)] = fault? (buildAt w path v) := by
  rw [firstFault?, faultsAmong]
  cases hbuild : buildAt w path v with
  | ok n => simp [fault?, hbuild]
  | error e => simp [fault?, hbuild]

end

/-! ## Reporting -/

variable {w : Option Whitelist}

/-- What is neither a group nor a map of attributes is reported on as a whole. -/
theorem reportsAt_of_leaf {path : String} {v : Value} (hgroup : ¬v.isGroupFilter = true)
    (hmap : ¬v.isEntityFilter = true) : reportsAt w path v = leafReports w path v := by
  cases v with
  | record fields => rw [reportsAt, if_neg hgroup, if_neg hmap]
  | null | bool | int | float | text | list | tuple | moment | connective | node | deferred => rfl

/-- The report of a filter that is built as a whole is that of its error. -/
theorem leafReports_eq_map_faultsAmong (path : String) (v : Value) :
    leafReports w path v =
      (faultsAmong w [(path, v)]).map fun fault => reported fault.1 fault.2 := by
  rw [leafReports, faultsAmong]
  cases hbuild : buildAt w path v with
  | ok n => simp [fault?, hbuild]
  | error e => simp [fault?, hbuild]

/-- Members whose faults are reported are reported on one after the other. -/
theorem memberReports_eq_map_faultsAmong {items : List Value}
    (h : ∀ item ∈ items, ∀ place, reportsAt w place item =
      (faultsAmong w (item.rawLeaves place)).map fun fault => reported fault.1 fault.2)
    (path : String) (index : Nat) :
    memberReports w path index items =
      (faultsAmong w (Value.memberRawLeaves path index items)).map fun fault =>
        reported fault.1 fault.2 := by
  induction items generalizing index with
  | nil => rfl
  | cons item rest ih =>
      obtain ⟨hitem, hrest⟩ := List.forall_mem_cons.mp h
      rw [memberReports, Value.memberRawLeaves, faultsAmong_append, List.map_append, hitem, ih hrest]

/-- Reporting on a tree of groups reports the faults of its raw leaves. -/
theorem reportsAt_eq_map_faultsAmong {v : Value} (h : v.IsGroupTree) (path : String) :
    reportsAt w path v =
      (faultsAmong w (v.rawLeaves path)).map fun fault => reported fault.1 fault.2 := by
  induction h generalizing path with
  | leaf hgroup hmap =>
      rw [reportsAt_of_leaf hgroup hmap, Value.rawLeaves_of_not_isGroupFilter hgroup]
      exact leafReports_eq_map_faultsAmong path _
  | @group fields hgroup hlists _ ih =>
      have hbranch : ∀ branch, branchReports w path branch fields =
          (faultsAmong w (Value.branchRawLeaves path branch fields)).map fun fault =>
            reported fault.1 fault.2 := by
        intro branch
        obtain ⟨items, hitems⟩ := Option.isSome_iff_exists.mp (hlists branch)
        rw [branchReports_eq, Value.branchRawLeaves_eq, hitems]
        exact memberReports_eq_map_faultsAmong (ih branch items hitems) _ 0
      rw [reportsAt, if_pos hgroup, Value.rawLeaves_of_isGroupFilter hgroup, faultsAmong_append,
        faultsAmong_append, List.map_append, List.map_append, hbranch .and, hbranch .or,
        hbranch .not]

/-! ## Writing the reports -/

theorem reported_eq_ok_iff {path s : String} {e : FilterError} :
    reported path e = .ok s ↔ e.isWritable = true ∧ s = report path e := by
  rw [reported]
  cases e.isWritable <;> simp [eq_comm]

theorem reported_eq_error_iff {path : String} {e : FilterError} {f : Fault} :
    reported path e = .error f ↔ e.isWritable = false ∧ f = .badValue := by
  rw [reported]
  cases e.isWritable <;> simp [eq_comm]

/-- There are reports of several errors when there is one of each. -/
theorem mapM_reported_eq_ok_iff {faults : List (String × FilterError)} {reports : List String} :
    (faults.map fun fault => reported fault.1 fault.2).mapM id = .ok reports ↔
      (∀ fault ∈ faults, fault.2.isWritable = true) ∧
        reports = faults.map fun fault => report fault.1 fault.2 := by
  rw [mapM_eq_ok_iff, List.forall₂_map_left_iff]
  induction faults generalizing reports with
  | nil => simp
  | cons fault rest ih =>
      rw [List.forall₂_cons_left_iff, List.forall_mem_cons, List.map_cons]
      constructor
      · rintro ⟨s, later, hs, hlater, rfl⟩
        obtain ⟨hwritable, rfl⟩ := reported_eq_ok_iff.mp hs
        obtain ⟨hrest, rfl⟩ := ih.mp hlater
        exact ⟨⟨hwritable, hrest⟩, rfl⟩
      · rintro ⟨⟨hwritable, hrest⟩, rfl⟩
        exact ⟨_, _, reported_eq_ok_iff.mpr ⟨hwritable, rfl⟩, ih.mpr ⟨hrest, rfl⟩, rfl⟩

/-- There are no reports of several errors when the message of one of them cannot be written. -/
theorem mapM_reported_eq_error_iff {faults : List (String × FilterError)} {f : Fault} :
    (faults.map fun fault => reported fault.1 fault.2).mapM id = .error f ↔
      (∃ fault ∈ faults, fault.2.isWritable = false) ∧ f = .badValue := by
  constructor
  · intro h
    obtain ⟨attempt, hattempt, hfails⟩ := exists_mem_of_mapM_eq_error h
    obtain ⟨fault, hfault, rfl⟩ := List.mem_map.mp hattempt
    obtain ⟨hunwritable, rfl⟩ := reported_eq_error_iff.mp hfails
    exact ⟨⟨fault, hfault, hunwritable⟩, rfl⟩
  · rintro ⟨⟨fault, hfault, hunwritable⟩, rfl⟩
    cases hreports : (faults.map fun fault => reported fault.1 fault.2).mapM id with
    | ok reports =>
        have hwritable := (mapM_reported_eq_ok_iff.mp hreports).1 fault hfault
        exact absurd (hwritable.symm.trans hunwritable) (by simp)
    | error f =>
        obtain ⟨attempt, hattempt, hfails⟩ := exists_mem_of_mapM_eq_error hreports
        obtain ⟨other, -, rfl⟩ := List.mem_map.mp hattempt
        rw [(reported_eq_error_iff.mp hfails).2]

/-! ## Building -/

/-- Members fail with the first fault of one of them. -/
theorem fault?_buildMembers {items : List Value}
    (h : ∀ item ∈ items, ∀ place,
      fault? (buildAt w place item) = firstFault? w (item.rawLeaves place))
    (path : String) (index : Nat) :
    fault? (buildMembers w path index items) =
      firstFault? w (Value.memberRawLeaves path index items) := by
  induction items generalizing index with
  | nil => rfl
  | cons item rest ih =>
      obtain ⟨hitem, hrest⟩ := List.forall_mem_cons.mp h
      rw [buildMembers, Value.memberRawLeaves, firstFault?_append, ← hitem, ← ih hrest]
      apply fault?_bind
      intro member
      exact fault?_bind_pure _ _

/-- Building a tree of groups stops at its first faulty raw leaf. -/
theorem fault?_buildAt {v : Value} (h : v.IsGroupTree) (path : String) :
    fault? (buildAt w path v) = firstFault? w (v.rawLeaves path) := by
  induction h generalizing path with
  | leaf hgroup hmap =>
      rw [Value.rawLeaves_of_not_isGroupFilter hgroup, firstFault?_singleton]
  | @group fields hgroup hlists _ ih =>
      have hbranch : ∀ branch, fault? (buildBranch w path branch fields) =
          firstFault? w (Value.branchRawLeaves path branch fields) := by
        intro branch
        obtain ⟨items, hitems⟩ := Option.isSome_iff_exists.mp (hlists branch)
        rw [buildBranch_eq, Value.branchRawLeaves_eq, hitems]
        exact fault?_buildMembers (ih branch items hitems) _ 0
      rw [buildAt_of_isGroupFilter hgroup, Value.rawLeaves_of_isGroupFilter hgroup,
        firstFault?_append, firstFault?_append, ← hbranch, ← hbranch, ← hbranch, Option.or_assoc]
      apply fault?_bind
      intro ands
      apply fault?_bind
      intro ors
      exact fault?_bind_pure _ _

/-- **Reports list every fault, and building stops at the first.** On a tree of groups reporting gives
the report of each raw leaf that cannot be built where it stands, in order, unless the message of one of
their errors cannot be written; then it fails with the fault of writing it. Building fails with the
error of the first of these leaves, for which the fault of writing is raised in the same way, and
succeeds when there is none. -/
theorem reports_list_faults {raw : Value} (h : raw.IsGroupTree) :
    (∀ reports, validate w raw = .ok reports ↔
      (∀ fault ∈ raw.faults w, fault.2.isWritable = true) ∧
        reports = (raw.faults w).map fun fault => report fault.1 fault.2) ∧
    (∀ f, validate w raw = .error f ↔
      (∃ fault ∈ raw.faults w, fault.2.isWritable = false) ∧ f = .badValue) ∧
    (∀ e, buildFilter w raw = .error e ↔ (raw.faults w).head?.map Prod.snd = some e) ∧
    (∀ e, liftFilter (buildFilter w raw) = .error e ↔
      (raw.faults w).head?.map (fun fault => fault.2.raised) = some e) ∧
    ((∃ g, buildFilter w raw = .ok g) ↔ raw.faults w = []) := by
  have hfault : fault? (buildFilter w raw) = (raw.faults w).head?.map Prod.snd := by
    rw [buildFilter, fault?_map]
    exact fault?_buildAt h rootPath
  have hreports : validate w raw =
      ((raw.faults w).map fun fault => reported fault.1 fault.2).mapM id := by
    rw [validate, reportsAt_eq_map_faultsAmong h rootPath]
    rfl
  refine ⟨fun reports => ?_, fun f => ?_, fun e => ?_, fun e => ?_, ?_⟩
  · rw [hreports, mapM_reported_eq_ok_iff]
  · rw [hreports, mapM_reported_eq_error_iff]
  · rw [← fault?_eq_some_iff, hfault]
  · rw [← fault?_eq_some_iff, fault?_liftFilter, hfault, Option.map_map]
    rfl
  · rw [← fault?_eq_none_iff, hfault, Option.map_eq_none_iff, List.head?_eq_none_iff]

/-- Adults, with a nameless attribute further down and a number in place of a filter. -/
def adultTree : Value :=
  .record [("not", .list [.int 5]), ("or", .null),
    ("and", .list [.record [("attribute", .text "age"), ("gte", .int 18)],
      .record [("label", .text "named"),
        ("or", .list [.record [("attribute", .text ""), ("eq", .int 1)]])]])]

theorem adultTree_isGroupTree : adultTree.IsGroupTree := by
  refine .group rfl (by intro branch; cases branch <;> rfl) ?_
  intro branch items hitems item hitem
  cases branch with
  | or =>
      obtain rfl := Option.some.inj hitems
      exact absurd hitem List.not_mem_nil
  | not =>
      obtain rfl := Option.some.inj hitems
      obtain rfl := List.mem_singleton.mp hitem
      exact .leaf (by decide) (by decide)
  | and =>
      obtain rfl := Option.some.inj hitems
      rcases List.mem_pair.mp hitem with rfl | rfl
      · exact .leaf (by decide) (by decide)
      · refine .group rfl (by intro branch; cases branch <;> rfl) ?_
        intro branch items hitems item hitem
        cases branch with
        | and | not =>
            obtain rfl := Option.some.inj hitems
            exact absurd hitem List.not_mem_nil
        | or =>
            obtain rfl := Option.some.inj hitems
            obtain rfl := List.mem_singleton.mp hitem
            exact .leaf (by decide) (by decide)

/-- Both faults of the tree are reported, and building stops at the nameless attribute. -/
theorem adultTree_reported :
    adultTree.IsGroupTree ∧
      validate none adultTree =
        .ok ["<root>.and[1].or[0].attribute: 'attribute' must be a non-empty string, got ''",
          "<root>.not[0]: Expected a filter mapping, got int"] ∧
      buildFilter none adultTree =
        .error (.shape (.badName (.text "")) (.text "<root>.and[1].or[0].attribute")) := by
  obtain ⟨hreports, -, herror, -⟩ := reports_list_faults (w := none) adultTree_isGroupTree
  refine ⟨adultTree_isGroupTree, (hreports _).mpr ⟨?_, ?_⟩, (herror _).mpr rfl⟩
  · decide +kernel
  · decide +kernel

/-- A filter on an attribute whose name is an integer of more digits than can be written. -/
def overlongFilter : Value :=
  .record [("attribute", .int (pow10 5000)), ("eq", .int 1)]

/-- The filter with the overlong name, and behind it a number in place of operators. -/
def overlongTree : Value :=
  .record [("and", .list [overlongFilter, .record [("zzz", .int 1)]])]

theorem overlongTree_isGroupTree : overlongTree.IsGroupTree := by
  refine .group rfl (by intro branch; cases branch <;> rfl) ?_
  intro branch items hitems item hitem
  cases branch with
  | or | not =>
      obtain rfl := Option.some.inj hitems
      exact absurd hitem List.not_mem_nil
  | and =>
      obtain rfl := Option.some.inj hitems
      rcases List.mem_pair.mp hitem with rfl | rfl
      · exact .leaf (by decide) (by decide)
      · exact .leaf (by decide) (by decide)

/-- The number in place of operators is refused where it stands, but not reported behind the name that
cannot be written. -/
theorem overlongTree_not_reported :
    overlongTree.IsGroupTree ∧
      liftFilter (buildAt none "<root>.and[0]" overlongFilter) = .error (.fault .badValue) ∧
      liftFilter (buildAt none "<root>.and[1]" (.record [("zzz", .int 1)])) =
        .error (.filter (.shape (.notOperatorMap "zzz" (.int 1)) (.text "<root>.and[1].zzz"))) ∧
      validate none overlongTree = .error .badValue ∧
      liftFilter (buildFilter none overlongTree) = .error (.fault .badValue) := by
  refine ⟨overlongTree_isGroupTree, ?_, ?_, ?_, ?_⟩
  · decide +kernel
  · decide +kernel
  · decide +kernel
  · decide +kernel

end RecordQuery
