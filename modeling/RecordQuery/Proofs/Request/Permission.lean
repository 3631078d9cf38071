import RecordQuery.Proofs.Filter.Guarding
import RecordQuery.Proofs.Params.Fragments
import RecordQuery.Proofs.Request.Conjunction
/-!
# What a whitelist covers in a list request

A whitelist is asked about every use of an operator that a list request builds from its parameters.
It is not asked about two others: ready filters inside the filter parameter are taken over as they
are, and the attributes that a client names for the keyword search are searched as they are.
`request_allowed_iff` says that these two alone decide whether the filters of a request are allowed.
-/

namespace RecordQuery

/-! ## Allowed filters -/

/-- The whitelist allows every use of an operator in the filter. -/
def Node.AllowedBy (n : Node) (w : Whitelist) : Prop :=
  ∀ use ∈ n.uses, w.Allows use.1 use.2.name

section

variable {w : Whitelist}

/-- A group is allowed when the members of its branches are. -/
theorem Group.allowedBy_iff {g : Group} :
    g.toNode.AllowedBy w ↔ ∀ branch, ∀ n ∈ g.branch branch, n.AllowedBy w := by
  have huses : ∀ n : Node, n.AllowedBy w ↔
      ∀ l ∈ n.leaves, ∀ use ∈ l.uses, w.Allows use.1 use.2.name := fun n =>
    List.forall_mem_flatMap
  simp only [huses, Group.forall_leaves_toNode]

theorem Group.allowedBy_ofNode {n : Node} : (Group.ofNode n).toNode.AllowedBy w ↔ n.AllowedBy w := by
  have huses : (Group.ofNode n).toNode.uses = n.uses := Group.uses_ofNode n
  rw [Node.AllowedBy, huses, Node.AllowedBy]

theorem Group.allowedBy_of_isEmpty {g : Group} (h : g.isEmpty = true) : g.toNode.AllowedBy w := by
  obtain ⟨ands, ors, nots, id, label⟩ := g
  simp only [isEmpty, Bool.and_eq_true, List.isEmpty_iff] at h
  obtain ⟨⟨rfl, rfl⟩, rfl⟩ := h
  rw [allowedBy_iff]
  intro branch n hn
  cases branch <;> exact absurd hn List.not_mem_nil

/-- A group with one more condition is allowed when both are. -/
theorem Group.allowedBy_add {g : Group} {n : Node} :
    (g.add n).toNode.AllowedBy w ↔ g.toNode.AllowedBy w ∧ n.AllowedBy w := by
  rw [allowedBy_iff, allowedBy_iff]
  constructor
  · intro h
    refine ⟨fun branch m hm => h branch m ?_, h .and n (List.mem_append_right _ (by simp))⟩
    cases branch with
    | and => exact List.mem_append_left _ hm
    | or => exact hm
    | not => exact hm
  · rintro ⟨hg, hn⟩ branch m hm
    cases branch with
    | and =>
        rcases List.mem_append.mp hm with hm | hm
        · exact hg .and m hm
        · exact List.mem_singleton.mp hm ▸ hn
    | or => exact hg .or m hm
    | not => exact hg .not m hm

/-- Two groups that both have to hold are allowed when both are. -/
theorem Group.allowedBy_both {current extra : Group} :
    (current.both extra).toNode.AllowedBy w ↔
      current.toNode.AllowedBy w ∧ extra.toNode.AllowedBy w := by
  rw [both]
  by_cases hextra : extra.isEmpty = true
  · rw [if_pos hextra, and_iff_left (allowedBy_of_isEmpty hextra)]
  · rw [if_neg hextra]
    by_cases hcurrent : current.isEmpty = true
    · rw [if_pos hcurrent, and_iff_right (allowedBy_of_isEmpty hcurrent)]
    · rw [if_neg hcurrent, allowedBy_add]

/-- A keyword search is allowed when all its attributes may be searched. -/
theorem allowedBy_keywordGroup {keywords : List Value} {names : List String} :
    (keywordGroup keywords names).toNode.AllowedBy w ↔
      ∀ name ∈ names, w.Allows name Operator.contains.name := by
  rw [Group.allowedBy_iff]
  constructor
  · intro h name hname
    exact h .or _ (List.mem_map_of_mem hname) (name, .contains) List.mem_cons_self
  · intro h branch n hn use huse
    cases branch with
    | and => exact absurd hn List.not_mem_nil
    | or =>
        obtain ⟨name, hname, rfl⟩ := List.mem_map.mp hn
        obtain rfl : use = (name, .contains) := List.mem_singleton.mp huse
        exact h name hname
    | not => exact absurd hn List.not_mem_nil

end

/-! ## Ready filters -/

/-- A raw filter has a ready filter inside: it is one, or a member of its branches has. -/
inductive Value.HasReady : Value → Node → Prop
  | self (n : Node) : HasReady (.node n) n
  | member {fields : Fields} {branch : Connective} {items : List Value} {item : Value} {n : Node} :
      (record fields).isGroupFilter = true → branchItems? fields branch = some items →
      item ∈ items → HasReady item n → HasReady (record fields) n

section

variable {w : Whitelist} {path : String} {fields : Fields}

/-- Ready filters stand in groups. -/
theorem Value.not_hasReady_of_not_isGroupFilter (h : ¬(record fields).isGroupFilter = true)
    (n : Node) : ¬(record fields).HasReady n := by
  intro hready
  cases hready with
  | member hgroup => exact h hgroup

/-- Under a whitelist a filter is built whose uses of operators are allowed, if those in the ready
filters are. -/
theorem allowedBy_iff_of_buildAt {v : Value} {n : Node} (h : buildAt (some w) path v = .ok n) :
    n.AllowedBy w ↔ ∀ ready, v.HasReady ready → ready.AllowedBy w := by
  induction v using Value.memberInduction generalizing path n with
  | other v hrecord =>
      cases v with
      | node ready =>
          obtain rfl : ready = n := Except.ok.inj h
          constructor
          · intro hn m hm
            cases hm
            exact hn
          · intro hall
            exact hall _ (.self _)
      | record => exact absurd hrecord (by simp [Value.record?])
      | null | bool | int | float | text | list | tuple | moment | connective | deferred =>
          exact absurd h (by simp [buildAt])
  | record fields ih =>
      have hnone : ¬(Value.record fields).isGroupFilter = true → n.AllowedBy w →
          (n.AllowedBy w ↔ ∀ ready, (Value.record fields).HasReady ready → ready.AllowedBy w) :=
        fun hgroup hn => iff_of_true hn fun ready hready =>
          absurd hready (Value.not_hasReady_of_not_isGroupFilter hgroup ready)
      rcases Value.shape_cases fields with hattribute | hgroup | hmap | ⟨hattribute, hgroup, hmap⟩
      · rw [buildAt_of_isAttributeFilter hattribute] at h
        exact hnone (Value.not_isGroupFilter_of_isAttributeFilter hattribute)
          ((guards_attributeLeaf path fields).allows_of_ok h)
      · obtain ⟨g, hbranch, -, -, rfl⟩ := (buildAt_eq_ok_iff_of_isGroupFilter hgroup).mp h
        have hmembers : ∀ branch, ∃ items, branchItems? fields branch = some items ∧
            ((∀ n ∈ g.branch branch, n.AllowedBy w) ↔
              ∀ item ∈ items, ∀ ready, item.HasReady ready → ready.AllowedBy w) := by
          intro branch
          obtain ⟨items, hitems, hbuilt⟩ := forall₂_of_buildBranch (hbranch branch)
          refine ⟨items, hitems, forall_mem_iff_of_forall₂ ?_⟩
          refine ((List.forall₂_and_left _ _).mpr ⟨fun item hitem => hitem, hbuilt⟩).imp ?_
          rintro item n ⟨hitem, place, hn⟩
          exact ih branch items hitems item hitem hn
        rw [Group.allowedBy_iff]
        constructor
        · intro hall ready hready
          cases hready with
          | @member _ branch _ item _ _ hitems' hitem hinner =>
              obtain ⟨items, hitems, hiff⟩ := hmembers branch
              obtain rfl := Option.some.inj (hitems.symm.trans hitems')
              exact hiff.mp (hall branch) item hitem ready hinner
        · intro hall branch
          obtain ⟨items, hitems, hiff⟩ := hmembers branch
          exact hiff.mpr fun item hitem ready hready =>
            hall ready (.member hgroup hitems hitem hready)
      · have hgroup := fun hgroup => Value.not_isEntityFilter_of_isGroupFilter hgroup hmap
        rw [buildAt_of_isEntityFilter hmap] at h
        obtain ⟨g, hg, rfl⟩ := map_eq_ok_iff.mp h
        exact hnone hgroup ((guards_mapGroup path fields).allows_of_ok hg)
      · rw [buildAt_of_no_shape hattribute hgroup hmap] at h
        exact absurd h (by simp)

end

/-! ## Filters of parameters -/

namespace Params

/-- The raw group of parameters has no ready filter inside. -/
theorem not_hasReady_of_rawGroup {parsed : Fields} {raw : Value} (h : rawGroup parsed = .ok raw)
    (n : Node) : ¬raw.HasReady n := by
  obtain ⟨placed, hplaced, h⟩ := bind_eq_ok_iff.mp h
  obtain rfl := Except.ok.inj h
  have hfragments : ∀ entry ∈ placed, ∀ n, ¬entry.2.HasReady n := by
    refine forall_placedFragments (P := fun f => ∀ n, ¬f.HasReady n) ?_ ?_ hplaced
    · intro name v f hf
      obtain ⟨fields, rfl, hname⟩ := has_of_attributeFragment hf
      exact Value.not_hasReady_of_not_isGroupFilter (Value.not_isGroupFilter_of_has hname)
    · intro key members hkey hmembers n hready
      cases hready with
      | member _ hitems hitem hinner =>
          have hfield := List.mem_singleton.mp (mem_of_branchItems? hitems hitem)
          obtain ⟨-, hlist⟩ := Prod.mk.inj hfield
          exact hmembers _ (Value.list.inj hlist ▸ hitem) n hinner
  intro hready
  cases hready with
  | @member _ branch items item _ _ hitems hitem hinner =>
      have hmem : ∀ branch, item ∈ (placed.filter (·.1 = branch)).map (·.2) → False := by
        intro branch hitem
        obtain ⟨entry, hentry, rfl⟩ := List.mem_map.mp hitem
        exact hfragments entry (List.mem_of_mem_filter hentry) n hinner
      have hfield := mem_of_branchItems? hitems hitem
      simp only [List.mem_cons, List.not_mem_nil, or_false, Prod.mk.injEq, membersOf,
        Value.list.injEq, reduceCtorEq, and_false, false_or] at hfield
      rcases hfield with ⟨-, rfl⟩ | ⟨-, rfl⟩ | ⟨-, rfl⟩
      · exact hmem .and hitem
      · exact hmem .or hitem
      · exact hmem .not hitem

end Params

/-! ## Requests -/

namespace Request

variable {w : Whitelist} {params : Fields}

/-- The filter parameter holds a ready filter. -/
def HoldsReady (params : Fields) (n : Node) : Prop :=
  ∃ raw, readFilters ((Fields.get? params "filters").getD .null) = .ok raw ∧ raw.HasReady n

/-- The empty text is no filter. -/
theorem readFilters_empty :
    readFilters (.text "") = .error (badFilters (.badJson .missingValue)) := by
  have hjson : Json.read "" = .error (.malformed .missingValue) := by
    have hvalue : Json.readValue [] = .error (.malformed .missingValue) := by
      rw [Json.readValue.eq_def]
      rfl
    show (Json.readValue [] >>= _) = _
    rw [hvalue]
    rfl
  rw [readFilters.eq_def]
  simp only [Value.text?, hjson]

/-- The group of the filter parameter is allowed when the ready filters that it holds are. -/
theorem allowedBy_iff_of_filterSource {g : Group}
    (h : FilterSource (some w) ((Fields.get? params "filters").getD .null) g) :
    g.toNode.AllowedBy w ↔ ∀ n, HoldsReady params n → n.AllowedBy w := by
  generalize hvalue : (Fields.get? params "filters").getD .null = v at h
  have hempty : Group.empty.toNode.AllowedBy w := Group.allowedBy_of_isEmpty rfl
  unfold HoldsReady
  rw [hvalue]
  cases h with
  | absent =>
      refine iff_of_true hempty ?_
      rintro n ⟨raw, hraw, hready⟩
      obtain rfl : Value.null = raw := Except.ok.inj hraw
      cases hready
  | empty =>
      refine iff_of_true hempty ?_
      rintro n ⟨raw, hraw, -⟩
      exact absurd (hraw.symm.trans readFilters_empty) (by simp)
  | @built _ raw _ hraw _ hbuild =>
      obtain ⟨n, hn, rfl⟩ := map_eq_ok_iff.mp hbuild
      rw [Group.allowedBy_ofNode, allowedBy_iff_of_buildAt hn]
      constructor
      · rintro hall ready ⟨raw', hraw', hready⟩
        obtain rfl := Except.ok.inj (hraw.symm.trans hraw')
        exact hall ready hready
      · intro hall ready hready
        exact hall ready ⟨raw, hraw, hready⟩

/-- The group of the parameters that are not reserved is allowed. -/
theorem allowedBy_of_paramSource {g : Group} (h : ParamSource (some w) params g) :
    g.toNode.AllowedBy w := by
  obtain ⟨parsed, -, hgroup⟩ := h
  obtain ⟨raw, hraw, hgroup⟩ := bind_eq_ok_iff.mp hgroup
  obtain ⟨n, hn, rfl⟩ := map_eq_ok_iff.mp (liftFilter_eq_ok_iff.mp hgroup)
  rw [Group.allowedBy_ofNode, allowedBy_iff_of_buildAt hn]
  exact fun ready hready => absurd hready (Params.not_hasReady_of_rawGroup hraw ready)

/-- The searched attributes may be searched when those that were asked for may, where the default ones
may. -/
theorem allows_searchedNames_iff {r : Request} {defaults : List String}
    (hdefaults : ∀ name ∈ defaults, w.Allows name Operator.contains.name) :
    (∀ name ∈ r.searchedNames defaults, w.Allows name Operator.contains.name) ↔
      ∀ name ∈ r.searchAttributes.getD [], w.Allows name Operator.contains.name := by
  rw [searchedNames]
  split
  · next hnames =>
      rw [hnames]
      rfl
  · next hnone =>
      have hnames : r.searchAttributes.getD [] = [] := by
        cases hasked : r.searchAttributes with
        | none => rfl
        | some names =>
            cases names with
            | nil => rfl
            | cons name names => exact absurd hasked (hnone name names)
      rw [hnames]
      exact iff_of_true hdefaults (by simp)

/-- **What a whitelist covers in a list request.** When a list request is read under a whitelist that
allows the default attributes to be searched, the filters with the keyword search are allowed in all
their uses of operators exactly when the ready filters inside the filter parameter are allowed and,
if there are keywords, all attributes that the client asks to search may be searched. -/
theorem request_allowed_iff {d : Pagination.Defaults} {r : Request}
    (h : ofParams (some w) d params = .ok r) {defaults : List String}
    (hdefaults : ∀ name ∈ defaults, w.Allows name Operator.contains.name) :
    (r.withSearch defaults).filters.toNode.AllowedBy w ↔
      (∀ n, HoldsReady params n → n.AllowedBy w) ∧
        (r.search ≠ [] → ∀ name ∈ r.searchAttributes.getD [],
          w.Allows name Operator.contains.name) := by
  obtain ⟨filter, group, hfilter, hgroup, hfilters⟩ := sources_of_ofParams h
  have hbefore : r.filters.toNode.AllowedBy w ↔ ∀ n, HoldsReady params n → n.AllowedBy w := by
    rw [hfilters, Group.allowedBy_both, and_iff_left (allowedBy_of_paramSource hgroup),
      allowedBy_iff_of_filterSource hfilter]
  rw [filters_withSearch, ← allows_searchedNames_iff hdefaults, ← hbefore]
  by_cases hsearch : r.search = []
  · simp [hsearch]
  · by_cases hnames : r.searchedNames defaults = []
    · simp [hnames]
    · rw [if_neg (not_or.mpr ⟨hsearch, hnames⟩), Group.allowedBy_add, allowedBy_keywordGroup]
      exact and_congr_right fun _ => (imp_iff_right hsearch).symm

/-- A whitelist of the name alone. -/
def nameOnly : Whitelist :=
  .ofList [("name", [])]

theorem nameOnly_allows : nameOnly.Allows "name" Operator.contains.name :=
  ⟨[], rfl, .inl rfl⟩

/-- Parameters with a filter on the name, and a search in an attribute. -/
def searchParams (searched : String) : Fields :=
  [("filters", .record [("name", .record [("like", .text "A")])]), ("search", .text "x"),
    ("searchAttributes", .text searched)]

/-- The request of such parameters. -/
def searchRequest (searched : String) : Request where
  attributes := none
  filters := { ands := [.leaf "name" [(.like, .text "A")] .and .null .null] }
  search := [.text "x"]
  searchAttributes := some [searched]
  page := ⟨250, 12, .some 1, .ascending, none⟩

/-- A search in an attribute that may be searched is allowed. -/
theorem searchRequest_allowed :
    ofParams (some nameOnly) Pagination.defaults (searchParams "name") =
        .ok (searchRequest "name") ∧
      (∀ name ∈ ["name"], nameOnly.Allows name Operator.contains.name) ∧
      ((searchRequest "name").withSearch ["name"]).filters.toNode.AllowedBy nameOnly := by
  have hrequest : ofParams (some nameOnly) Pagination.defaults (searchParams "name") =
      .ok (searchRequest "name") := by rfl
  have hnames : ∀ name ∈ ["name"], nameOnly.Allows name Operator.contains.name := by
    rw [List.forall_mem_singleton]
    exact nameOnly_allows
  refine ⟨hrequest, hnames, (request_allowed_iff hrequest hnames).mpr ⟨?_, fun _ => hnames⟩⟩
  rintro n ⟨raw, hraw, hready⟩
  obtain rfl := Except.ok.inj hraw
  exact absurd hready (Value.not_hasReady_of_not_isGroupFilter (by decide) n)

/-- A client can search an attribute that the whitelist does not list. -/
theorem searchRequest_escapes :
    ofParams (some nameOnly) Pagination.defaults (searchParams "secret") =
        .ok (searchRequest "secret") ∧
      (∀ name ∈ ["name"], nameOnly.Allows name Operator.contains.name) ∧
      ("secret", .contains) ∈ ((searchRequest "secret").withSearch ["name"]).filters.toNode.uses ∧
      ¬nameOnly.Allows "secret" Operator.contains.name := by
  refine ⟨by rfl, ?_, ?_, ?_⟩
  · rw [List.forall_mem_singleton]
    exact nameOnly_allows
  · exact List.mem_cons_of_mem _ List.mem_cons_self
  · rintro ⟨operators, hlisted, -⟩
    have hnone : nameOnly.operators? "secret" = none := by decide
    exact absurd (hlisted.symm.trans hnone) (by simp)

end Request

end RecordQuery
