import Mathlib.Algebra.Order.BigOperators.Group.List
import Mathlib.Algebra.Order.Group.Nat
import RecordQuery.Proofs.Params.Grammar
import RecordQuery.Proofs.Params.Growth
/-!
# What query parameters collect

The nested form of query parameters holds all that the parameters give and nothing else. Its leaves
are those that the parameters ask for, each with the values of its path in the order of the
parameters, and its groups have one element for each index in use (`parse_collects`). The one
parameter without a leaf is a group that is given no elements.
-/

namespace RecordQuery.Params

/-! ## Groups of the result -/

theorem map_given_inside (element : Connective × Nat) (ps : List Param) :
    (ps.filterMap (Param.inside? element)).map Param.given =
      Given.under element (ps.map Param.given) := by
  rw [Given.under, List.filterMap_map, List.map_filterMap]
  congr 1
  funext p
  exact (Param.given_inside? element p).symm

namespace GrownGroup

variable {ps : List Param} {c : Connective} {slots : Slots}

/-- The elements of a group have the indices in use. -/
theorem indices_eq (h : GrownGroup ps c slots) :
    Given.indices c (ps.map Param.given) = slots.map Prod.fst :=
  (Given.sortedLT_indices c _).eq_of_mem_iff h.sorted fun index =>
    Given.mem_indices_iff.trans (h.used index).symm

/-- The element at a position has grown from what leads to its index. -/
theorem grown_getElem? (h : GrownGroup ps c slots) {position index : Nat} {element : Entries}
    (hget : slots[position]? = some (index, element)) :
    Grown (ps.filterMap (Param.inside? (c, index))) element := by
  have hinside := h.inside index
  rwa [Slots.element_of_mem h.sorted.nodup (List.mem_of_getElem? hget)] at hinside

/-- The elements of a group are those at the indices in use. -/
theorem map_toFields_eq (h : GrownGroup ps c slots) :
    (slots.map fun slot => Tree.toFields slot.2) =
      (slots.map Prod.fst).map fun index => Tree.toFields (Slots.element slots index) := by
  rw [List.map_map]
  refine List.map_congr_left fun slot hslot => ?_
  rw [Function.comp_apply, Slots.element_of_mem h.sorted.nodup hslot]

/-- Something leads into an element in use, so parameters have segments to spare. -/
theorem pos_of_mem (h : GrownGroup ps c slots) {index : Nat}
    (hindex : index ∈ slots.map Prod.fst) {bound : Nat}
    (hbound : ∀ p ∈ ps, p.segments.length < bound) : 0 < bound := by
  obtain ⟨q, hq, -⟩ := (h.used index).mp hindex
  obtain ⟨p, hp, -⟩ := List.mem_map.mp hq
  exact (Nat.zero_le _).trans_lt (hbound p hp)

end GrownGroup

/-- Inside an element parameters have fewer segments. -/
theorem length_inside_lt {ps : List Param} {bound : Nat}
    (hbound : ∀ p ∈ ps, p.segments.length < bound) (element : Connective × Nat) :
    ∀ q ∈ ps.filterMap (Param.inside? element), q.segments.length < bound - 1 := by
  intro q hq
  obtain ⟨p, hp, hinside⟩ := List.mem_filterMap.mp hq
  obtain ⟨inner, henter, rfl⟩ := Param.inside?_eq_some_iff.mp hinside
  have hshorter := (inner_of_enter? henter).2
  have hlong := hbound p hp
  show inner.length < bound - 1
  omega

theorem toElements_eq_map (slots : Slots) :
    Tree.toElements slots = (slots.map fun slot => Tree.toFields slot.2).map .record := by
  induction slots with
  | nil => rfl
  | cons slot rest ih =>
      obtain ⟨index, entries⟩ := slot
      rw [Tree.toElements, ih]
      rfl

/-- A group of the result is the list of its elements; one that is not there has none. -/
theorem get?_toFields_word {entries : Entries} {c : Connective} {slots : Slots}
    (h : slotsOf entries c.word = .ok slots) :
    Fields.get? (Tree.toFields entries) c.word =
        some (.list ((slots.map fun slot => Tree.toFields slot.2).map .record)) ∨
      Fields.get? (Tree.toFields entries) c.word = none ∧ slots = [] := by
  rw [slotsOf] at h
  rw [get?_toFields]
  cases hget : Fields.get? entries c.word with
  | none =>
      rw [hget] at h
      exact .inr ⟨rfl, (Except.ok.inj h).symm⟩
  | some tree =>
      rw [hget] at h
      cases tree with
      | slots elements =>
          obtain rfl := Except.ok.inj h
          exact .inl (by rw [Option.map_some, Tree.toValue, toElements_eq_map])
      | leaf u => exact absurd h (by simp)
      | branch below => exact absurd h (by simp)

/-! ## Leaves of the result -/

/-- The leaves of the result are those that the parameters ask for. -/
theorem leafAt?_of_grown {names : List String} {v : Value} :
    ∀ (elements : List (Connective × Nat)) {ps : List Param} {entries : Entries},
      Grown ps entries → (leafAt? names elements (Tree.toFields entries) = some v ↔
        (⟨elements, names⟩, v) ∈ Given.leaves (ps.map Param.given)) := by
  intro elements
  induction elements with
  | nil =>
      intro ps entries h
      cases names with
      | nil => exact iff_of_false (by simp [leafAt?]) fun hmem => Given.ne_nil_of_mem_leaves hmem rfl
      | cons name rest =>
          rw [leafAt?]
          by_cases hname : FilterKey.isBranch name = true
          · rw [if_pos hname, Given.mem_leaves_attribute_iff]
            refine iff_of_false (by simp) ?_
            rintro ⟨⟨below, u⟩, hmem, -⟩
            obtain ⟨p, -, hp⟩ := List.mem_map.mp (Given.mem_below_iff.mp hmem)
            rw [not_isBranch_of_pathOf (congrArg Prod.fst hp)] at hname
            exact Bool.false_ne_true hname
          · rw [if_neg hname, get?_toFields, Given.mem_leaves_attribute_iff,
              ← (h.attribute (Bool.eq_false_iff.mpr hname)).leaf_iff]
            cases Fields.get? entries name <;> rfl
  | cons first rest ih =>
      intro ps entries h
      obtain ⟨c, position⟩ := first
      obtain ⟨slots, hslots, hgroup⟩ := h.group c
      rw [leafAt?, Given.mem_leaves_within_iff, hgroup.indices_eq]
      rcases get?_toFields_word hslots with hget | ⟨hget, rfl⟩
      · rw [hget]
        simp only [List.getElem?_map]
        cases hslot : slots[position]? with
        | none => simp
        | some slot =>
            obtain ⟨index, element⟩ := slot
            have hinside := ih (hgroup.grown_getElem? hslot)
            rw [map_given_inside] at hinside
            simpa using hinside
      · rw [hget]
        simp

/-! ## Groups with all their elements -/

/-- The groups of the result have one element for each index in use. -/
theorem grouped_of_grown (bound : Nat) :
    ∀ {ps : List Param} {entries : Entries}, Grown ps entries →
      (∀ p ∈ ps, p.segments.length < bound) →
      Grouped (ps.map Param.given) (Tree.toFields entries) := by
  induction bound using Nat.strong_induction_on with
  | _ bound ih =>
      intro ps entries h hbound
      choose slots hslots hgroup using h.group
      refine .intro (fun c => (slots c).map fun slot => Tree.toFields slot.2) (fun c => ?_)
        (fun c => ?_) (fun c position index element hindex helement => ?_)
      · rcases get?_toFields_word (hslots c) with hget | ⟨hget, hnone⟩
        · exact .inl hget
        · exact .inr ⟨hget, by rw [hnone]; rfl⟩
      · rw [(hgroup c).indices_eq, List.length_map, List.length_map]
      · rw [List.getElem?_map] at helement
        obtain ⟨⟨i, entries'⟩, hslot, rfl⟩ := Option.map_eq_some_iff.mp helement
        rw [(hgroup c).indices_eq] at hindex
        have hpos := (hgroup c).pos_of_mem (List.mem_of_getElem? hindex) hbound
        rw [List.getElem?_map, hslot] at hindex
        obtain rfl : i = index := Option.some.inj hindex
        rw [← map_given_inside]
        exact ih (bound - 1) (by omega) ((hgroup c).grown_getElem? hslot)
          (length_inside_lt hbound (c, i))

/-! ## Reading parameters -/

/-- A parameter without a leaf gives no texts to a group as a whole. -/
theorem eq_nil_of_names_eq_nil {key : String} {v : Value} (hv : isTexts v = true) (bound : Nat) :
    ∀ {segments : List String} {entries entries' : Entries}, segments.length < bound →
      segments ≠ [] → assign key v segments entries = .ok entries' →
      (pathOf segments).names = [] → v = .list [] := by
  induction bound with
  | zero => exact fun hlt => absurd hlt (Nat.not_lt_zero _)
  | succ bound ih =>
      intro segments entries entries' hlt hne hassign hnames
      have hchange : Change ⟨key, segments, v⟩ entries entries' := change_of_assign hv hne hassign
      cases hchange with
      | @element c index inner slots element henter hslots helement =>
          rw [pathOf_of_enter? henter] at hnames
          obtain ⟨hinner, hshorter⟩ := inner_of_enter? henter
          have hlt' : inner.length < bound := by
            simp only at hshorter
            omega
          exact ih hlt' hinner helement hnames
      | whole hnil => exact hnil
      | @named name below tree hbranch hpath =>
          have hpath : pathOf segments = ⟨[], name :: below⟩ := hpath
          rw [hpath] at hnames
          exact absurd hnames (by simp)

theorem Grown.eq_nil_of_names {ps : List Param} {entries : Entries} (h : Grown ps entries) :
    ∀ q ∈ ps.map Param.given, q.1.names = [] → q.2 = .list [] := by
  induction h with
  | nil => exact fun q hq => absurd hq List.not_mem_nil
  | @concat ps p entries entries' _ hv hne hassign ih =>
      rw [List.map_append, List.forall_mem_append, List.map_singleton, List.forall_mem_singleton]
      exact ⟨ih, eq_nil_of_names_eq_nil hv _ (Nat.lt_succ_self _) hne hassign⟩

/-- A well-formed parameter name has segments. -/
theorem ne_nil_of_segments? {key : String} {segments : List String}
    (h : segments? key = .ok segments) : segments ≠ [] := by
  obtain ⟨sp, -, rfl⟩ := exists_spelling_of_segments? h
  simp [Spelling.segments]

/-- A parameter name is taken apart into its segments when it is well-formed. -/
theorem splitKey_eq_ok_iff {key : String} {segments : List String} :
    splitKey key = .ok segments ↔ segmentsOf key = segments ∧ segments ≠ [] := by
  rw [splitKey, segmentsOf]
  cases hkey : segments? key with
  | error fault =>
      refine iff_of_false (by simp) ?_
      rintro ⟨rfl, hne⟩
      exact hne rfl
  | ok found =>
      constructor
      · intro h
        obtain rfl := Except.ok.inj h
        exact ⟨rfl, ne_nil_of_segments? hkey⟩
      · rintro ⟨rfl, -⟩
        rfl

/-- The parameters that have a value, with their names taken apart. -/
def paramsOf (params : Fields) : List Param :=
  (params.filter fun param => !param.2.isNull).map fun param =>
    ⟨param.1, segmentsOf param.1, param.2⟩

theorem map_given_paramsOf (params : Fields) : (paramsOf params).map Param.given = given params := by
  rw [paramsOf, List.map_map]
  rfl

theorem paramsOf_cons_of_isTexts {key : String} {v : Value} (hv : isTexts v = true) (rest : Fields) :
    paramsOf ((key, v) :: rest) = ⟨key, segmentsOf key, v⟩ :: paramsOf rest := by
  rcases text_or_list_of_isTexts hv with ⟨s, rfl⟩ | ⟨items, rfl⟩ <;> rfl

/-- Texts among parameters are put at the end of their path before what follows. -/
theorem growFrom_cons_of_isTexts {key : String} {v : Value} (hv : isTexts v = true) (rest : Fields)
    (entries : Entries) :
    growFrom entries ((key, v) :: rest) = (do
      let segments ← liftFilter (splitKey key)
      let entries ← assign key v segments entries
      growFrom entries rest) := by
  rcases text_or_list_of_isTexts hv with ⟨s, rfl⟩ | ⟨items, rfl⟩ <;> rfl

theorem growFrom_cons_eq_ok_iff {key : String} {v : Value} (hv : isTexts v = true) {rest : Fields}
    {entries entries' : Entries} :
    growFrom entries ((key, v) :: rest) = .ok entries' ↔ segmentsOf key ≠ [] ∧
      ∃ next, assign key v (segmentsOf key) entries = .ok next ∧ growFrom next rest = .ok entries' := by
  rw [growFrom_cons_of_isTexts hv, bind_eq_ok_iff]
  constructor
  · rintro ⟨segments, hsplit, h⟩
    obtain ⟨rfl, hne⟩ := splitKey_eq_ok_iff.mp (liftFilter_eq_ok_iff.mp hsplit)
    exact ⟨hne, bind_eq_ok_iff.mp h⟩
  · rintro ⟨hne, h⟩
    exact ⟨segmentsOf key, liftFilter_eq_ok_iff.mpr (splitKey_eq_ok_iff.mpr ⟨rfl, hne⟩),
      bind_eq_ok_iff.mpr h⟩

/-- What the parameters of a query grow into has grown from them. -/
theorem Grown.growFrom {params : Fields} :
    ∀ {ps : List Param} {entries entries' : Entries}, Grown ps entries →
      (∀ param ∈ params, param.2.isNull = true ∨ isTexts param.2 = true) →
      growFrom entries params = .ok entries' → Grown (ps ++ paramsOf params) entries' := by
  induction params with
  | nil =>
      intro ps entries entries' h _ hgrow
      obtain rfl := Except.ok.inj hgrow
      rwa [paramsOf, List.filter_nil, List.map_nil, List.append_nil]
  | cons param rest ih =>
      intro ps entries entries' h hvalues hgrow
      rw [List.forall_mem_cons] at hvalues
      obtain ⟨hv, hrest⟩ := hvalues
      obtain ⟨key, v⟩ := param
      rcases hv with hnull | hv
      · obtain rfl : v = .null := Value.isNull_iff.mp hnull
        exact ih h hrest hgrow
      · obtain ⟨hne, next, hassign, hgrow⟩ := (growFrom_cons_eq_ok_iff hv).mp hgrow
        have hnext : Grown (ps ++ [⟨key, segmentsOf key, v⟩]) next := .concat h hv hne hassign
        rw [paramsOf_cons_of_isTexts hv, List.append_cons]
        exact ih hnext hrest hgrow

/-- What the parameters of a query grow into has grown from what they give. -/
theorem grown_of_growFrom {params : Fields} {ps : List Param} {entries entries' : Entries}
    (h : Grown ps entries)
    (hvalues : ∀ param ∈ params, param.2.isNull = true ∨ isTexts param.2 = true)
    (hgrow : growFrom entries params = .ok entries') :
    ∃ qs, Grown (ps ++ qs) entries' ∧ qs.map Param.given = given params :=
  ⟨paramsOf params, h.growFrom hvalues hgrow, map_given_paramsOf params⟩

/-- **Query parameters are collected.** When texts, lists of texts and absent values are nested, the
leaves of the result are those that the parameters ask for, each with the values of its path, and
every group has one element for each index in use, in ascending order. A parameter asks for no leaf
only if it gives no elements to a group. -/
theorem parse_collects {params fields : Fields}
    (hvalues : ∀ param ∈ params, param.2.isNull = true ∨ isTexts param.2 = true)
    (h : parse params = .ok fields) :
    (∀ q ∈ given params, q.1.names = [] → q.2 = .list []) ∧
      (∀ elements names v, leafAt? names elements fields = some v ↔
        (⟨elements, names⟩, v) ∈ Given.leaves (given params)) ∧
      Grouped (given params) fields := by
  rw [parse] at h
  obtain ⟨entries, hgrow, rfl⟩ := map_eq_ok_iff.mp h
  obtain ⟨ps, hgrown, hgiven⟩ := grown_of_growFrom .nil hvalues hgrow
  rw [List.nil_append] at hgrown
  rw [← hgiven]
  refine ⟨hgrown.eq_nil_of_names, fun elements names v => leafAt?_of_grown elements hgrown, ?_⟩
  refine grouped_of_grown ((ps.map fun p => p.segments.length).sum + 1) hgrown fun p hp => ?_
  exact Nat.lt_succ_of_le (List.le_sum_of_mem (List.mem_map_of_mem hp))

/-- Parameters for two elements of a group, of which one gives a path in two spellings, and for an
attribute that has a plain value and an operator. -/
def peopleParams : Fields :=
  [("or.5.name.eq", .text "Ada"), ("or[2].name[contains]", .text "B"),
    ("or.2.name[contains][]", .list [.text "C"]), ("age", .text "7"), ("age[gt]", .text "3"),
    ("city", .null)]

/-- The nested form of the parameters for people. -/
def peopleNested : Fields :=
  [("or", .list [.record [("name", .record [("contains", .list [.text "B", .text "C"])])],
      .record [("name", .record [("eq", .text "Ada")])]]),
    ("age", .record [("eq", .text "7"), ("gt", .text "3")])]

/-- The parameters for people are collected, two of them in one list. -/
theorem peopleParams_collected :
    (∀ param ∈ peopleParams, param.2.isNull = true ∨ isTexts param.2 = true) ∧
      parse peopleParams = .ok peopleNested ∧
      (∀ elements names v, leafAt? names elements peopleNested = some v ↔
        (⟨elements, names⟩, v) ∈ ([(⟨[(.or, 1)], ["name", "eq"]⟩, .text "Ada"),
          (⟨[(.or, 0)], ["name", "contains"]⟩, .list [.text "B", .text "C"]),
          (⟨[(.or, 0)], ["name", "contains"]⟩, .list [.text "B", .text "C"]),
          (⟨[], ["age", "eq"]⟩, .text "7"), (⟨[], ["age", "gt"]⟩, .text "3")] :
            List (Path × Value))) ∧
      Grouped (given peopleParams) peopleNested := by
  have hvalues : ∀ param ∈ peopleParams, param.2.isNull = true ∨ isTexts param.2 = true := by
    decide
  have hparse : parse peopleParams = .ok peopleNested := by decide +kernel
  have hleaves : Given.leaves (given peopleParams) =
      [(⟨[(.or, 1)], ["name", "eq"]⟩, .text "Ada"),
        (⟨[(.or, 0)], ["name", "contains"]⟩, .list [.text "B", .text "C"]),
        (⟨[(.or, 0)], ["name", "contains"]⟩, .list [.text "B", .text "C"]),
        (⟨[], ["age", "eq"]⟩, .text "7"), (⟨[], ["age", "gt"]⟩, .text "3")] := by
    decide +kernel
  obtain ⟨-, hcollected, hgrouped⟩ := parse_collects hvalues hparse
  rw [hleaves] at hcollected
  exact ⟨hvalues, hparse, hcollected, hgrouped⟩

/-- A group that is given no elements has none, and there is no leaf in it. -/
theorem emptyGroup_collected :
    parse [("or", .list [])] = .ok [("or", .list [])] ∧
      ∀ elements names, leafAt? names elements [("or", .list [])] = none := by
  refine ⟨by decide +kernel, fun elements names => ?_⟩
  cases elements with
  | cons first rest =>
      obtain ⟨c, position⟩ := first
      cases c <;> rfl
  | nil =>
      cases names with
      | nil => rfl
      | cons name rest =>
          rw [leafAt?]
          by_cases hname : FilterKey.isBranch name = true
          · rw [if_pos hname]
          · have hne : name ≠ "or" := by
              rintro rfl
              exact hname (by decide)
            rw [if_neg hname, Fields.get?_cons, if_neg hne]
            rfl

end RecordQuery.Params
