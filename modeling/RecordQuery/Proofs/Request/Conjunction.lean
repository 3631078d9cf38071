import RecordQuery.Proofs.Expression.Merging
import RecordQuery.Request
/-!
# A list request asks for all its sources

The filters of a list request come from three sources: the filter parameter, the parameters that are
not reserved, and the keyword search. `sources_of_ofParams` tells the first two apart, and
`request_is_conjunction` says that the request asks for what all three ask for, where a source that
is absent or empty asks for nothing.
-/

namespace RecordQuery

/-! ## Sources -/

namespace Request

/-- The group that a filter parameter stands for. An absent or empty one stands for the empty group,
and any other one for what its raw filter is built to. -/
inductive FilterSource (w : Option Whitelist) : Value → Group → Prop
  | absent : FilterSource w .null .empty
  | empty : FilterSource w (.text "") .empty
  | built {v raw : Value} {g : Group} : readFilters v = .ok raw → raw.isRecord = true →
      buildFilter w raw = .ok g → FilterSource w v g

/-- The parameters that are filters of their own. -/
def filterParams (params : Fields) : Fields :=
  params.filter fun param => !reservedKeys.contains param.1

/-- The group that the parameters that are not reserved stand for. -/
def ParamSource (w : Option Whitelist) (params : Fields) (g : Group) : Prop :=
  ∃ parsed, Params.parse (filterParams params) = .ok parsed ∧ Params.toGroup w parsed = .ok g

section

variable {w : Option Whitelist} {d : Pagination.Defaults} {params : Fields} {r : Request}

theorem filterSource_of_parseFilters {v : Value} {g : Group} (h : parseFilters w v = .ok g) :
    FilterSource w v g := by
  unfold parseFilters at h
  split at h
  · obtain rfl := Except.ok.inj h
    exact .absent
  · obtain rfl := Except.ok.inj h
    exact .empty
  · obtain ⟨raw, hraw, h⟩ := bind_eq_ok_iff.mp h
    split at h
    · next hrecord => exact .built hraw hrecord (liftFilter_eq_ok_iff.mp h)
    · exact absurd h (by simp)

/-- No parameters stand for a group without members. -/
theorem toGroup_nil (w : Option Whitelist) :
    Params.toGroup w [] = .ok { id := .text Params.groupId } := by
  cases w with
  | none => rfl
  | some w => rfl

theorem paramSource_of_addParams {filter merged : Group} (h : addParams w filter params = .ok merged) :
    ∃ group, ParamSource w params group ∧ merged = filter.both group := by
  rw [addParams] at h
  split at h
  · next hempty =>
      obtain rfl := Except.ok.inj h
      refine ⟨_, ⟨[], ?_, toGroup_nil w⟩, rfl⟩
      rw [filterParams, List.isEmpty_iff.mp hempty]
      rfl
  · obtain ⟨parsed, hparsed, h⟩ := bind_eq_ok_iff.mp h
    obtain ⟨group, hgroup, h⟩ := bind_eq_ok_iff.mp h
    exact ⟨group, ⟨parsed, hparsed, hgroup⟩, (Except.ok.inj h).symm⟩

/-- The filters of a list request join the filter parameter and the parameters that are not
reserved. -/
theorem sources_of_ofParams (h : ofParams w d params = .ok r) :
    ∃ filter group : Group, FilterSource w ((Fields.get? params "filters").getD .null) filter ∧
      ParamSource w params group ∧ r.filters = filter.both group := by
  obtain ⟨filter, hfilter, h⟩ := bind_eq_ok_iff.mp h
  obtain ⟨merged, hmerged, h⟩ := bind_eq_ok_iff.mp h
  obtain ⟨text, -, h⟩ := bind_eq_ok_iff.mp h
  obtain ⟨attributes, -, h⟩ := bind_eq_ok_iff.mp h
  obtain ⟨search, -, h⟩ := bind_eq_ok_iff.mp h
  obtain ⟨searchAttributes, -, h⟩ := bind_eq_ok_iff.mp h
  obtain ⟨page, -, h⟩ := bind_eq_ok_iff.mp h
  obtain ⟨group, hgroup, rfl⟩ := paramSource_of_addParams hmerged
  obtain rfl := Except.ok.inj h
  exact ⟨filter, group, filterSource_of_parseFilters hfilter, hgroup, rfl⟩

end

/-! ## Keyword search -/

/-- The condition that an attribute contains all keywords. -/
def searchLeaf (keywords : List Value) (name : String) : Node :=
  .leaf name [(.contains, .list keywords)] .and .null .null

/-- The search adds its condition when there are keywords and attributes, and changes no filters
otherwise. -/
theorem filters_withSearch (r : Request) (defaults : List String) :
    (r.withSearch defaults).filters =
      if r.search = [] ∨ r.searchedNames defaults = [] then r.filters
      else r.filters.add (keywordGroup r.search (r.searchedNames defaults)).toNode := by
  rw [withSearch, searched?]
  simp only [Bool.or_eq_true, List.isEmpty_iff]
  split
  · rfl
  · rfl

/-- The search keeps everything but the filters and the attributes to search. -/
theorem withSearch_keeps (r : Request) (defaults : List String) :
    (r.withSearch defaults).attributes = r.attributes ∧
      (r.withSearch defaults).search = r.search ∧ (r.withSearch defaults).page = r.page := by
  rw [withSearch, searched?]
  split
  · exact ⟨rfl, rfl, rfl⟩
  · exact ⟨rfl, rfl, rfl⟩

end Request

/-! ## Reading the sources -/

theorem Connective.and_joins_pair {R : Node → Option Bool → Prop} {n m : Node} {d : Option Bool} :
    and.Joins R [n, m] d ↔ ∃ e f, R n e ∧ R m f ∧ Option.merge (· && ·) e f = d := by
  rw [and_joins_cons]
  simp only [and_joins_singleton]

namespace IsReading

variable {R : Node → Option Bool → Prop}

/-- A group without members asks for nothing. -/
theorem of_isEmpty (hR : IsReading R) {g : Group} (h : g.isEmpty = true) (d : Option Bool) :
    R g.toNode d ↔ d = none := by
  obtain ⟨ands, ors, nots, id, label⟩ := g
  simp only [Group.isEmpty, Bool.and_eq_true, List.isEmpty_iff] at h
  obtain ⟨⟨rfl, rfl⟩, rfl⟩ := h
  refine (hR _ _ _ _ _ _).trans ?_
  simp only [Connective.joins_nil]
  constructor
  · rintro ⟨_, _, _, rfl, rfl, rfl, rfl⟩
    rfl
  · rintro rfl
    exact ⟨none, none, none, rfl, rfl, rfl, rfl⟩

/-- Two groups that both have to hold are joined, also where one of them is left out because it has
no members. -/
theorem both (hR : IsReading R) (current extra : Group) (d : Option Bool) :
    R (current.both extra).toNode d ↔
      Connective.and.Joins R [current.toNode, extra.toNode] d := by
  rw [Connective.and_joins_pair, Group.both]
  by_cases hextra : extra.isEmpty = true
  · rw [if_pos hextra]
    simp only [hR.of_isEmpty hextra]
    constructor
    · intro h
      exact ⟨d, none, h, rfl, Option.merge_none_right⟩
    · rintro ⟨e, _, he, rfl, rfl⟩
      rwa [Option.merge_none_right]
  · rw [if_neg hextra]
    by_cases hcurrent : current.isEmpty = true
    · rw [if_pos hcurrent]
      simp only [hR.of_isEmpty hcurrent]
      constructor
      · intro h
        exact ⟨none, d, rfl, h, Option.merge_none_left⟩
      · rintro ⟨_, f, rfl, hf, rfl⟩
        rwa [Option.merge_none_left]
    · rw [if_neg hcurrent, hR.add, Connective.and_joins_pair]

/-- The group of a keyword search asks for any of its attributes. -/
theorem keywordGroup (hR : IsReading R) (keywords : List Value) (names : List String)
    (d : Option Bool) :
    R (keywordGroup keywords names).toNode d ↔
      Connective.or.Joins R (names.map (Request.searchLeaf keywords)) d := by
  have hdemand : ∀ e, Connective.and.demand [none, e, none] = e := by
    intro e
    simp only [Connective.and_demand_cons, Connective.demand_nil, Option.merge_none_left,
      Option.merge_none_right]
  refine (hR _ _ _ _ _ _).trans ?_
  constructor
  · rintro ⟨e, f, g, he, hf, hg, rfl⟩
    rw [Connective.joins_nil.mp he, Connective.joins_nil.mp hg, hdemand]
    exact hf
  · intro h
    exact ⟨none, d, none, Connective.joins_nil.mpr rfl, h, Connective.joins_nil.mpr rfl, hdemand d⟩

end IsReading

namespace Request

/-- What the keyword search asks for, when each condition is read by itself: nothing without
keywords, and otherwise that one of the attributes contains all of them. -/
def SearchJoins (R : Node → Option Bool → Prop) (r : Request) (defaults : List String)
    (d : Option Bool) : Prop :=
  if r.search = [] then d = none
  else Connective.or.Joins R ((r.searchedNames defaults).map (searchLeaf r.search)) d

/-- A request with its keyword search asks for what it asked for before, and for what the search asks
for. -/
theorem reads_withSearch {R : Node → Option Bool → Prop} (hR : IsReading R) (r : Request)
    (defaults : List String) (d : Option Bool) :
    R (r.withSearch defaults).filters.toNode d ↔
      ∃ e f, R r.filters.toNode e ∧ r.SearchJoins R defaults f ∧ Option.merge (· && ·) e f = d := by
  rw [filters_withSearch]
  unfold SearchJoins
  by_cases hsearch : r.search = []
  · simp [hsearch, Option.merge_none_right]
  · by_cases hnames : r.searchedNames defaults = []
    · simp [hsearch, hnames, Connective.joins_nil, Option.merge_none_right]
    · simp only [if_neg hsearch, if_neg (not_or.mpr ⟨hsearch, hnames⟩), hR.add,
        Connective.and_joins_pair, hR.keywordGroup]

/-- The filters of a list request are read off its three sources. -/
theorem reads_request {R : Node → Option Bool → Prop} (hR : IsReading R) {r : Request}
    {filter group : Group} (h : r.filters = filter.both group) (defaults : List String)
    (d : Option Bool) :
    R (r.withSearch defaults).filters.toNode d ↔
      ∃ e f g, R filter.toNode e ∧ R group.toNode f ∧ r.SearchJoins R defaults g ∧
        Connective.and.demand [e, f, g] = d := by
  rw [reads_withSearch hR, h]
  simp only [hR.both, Connective.and_joins_pair, Connective.and_demand_cons, Connective.demand_nil,
    Option.merge_none_right]
  constructor
  · rintro ⟨_, g, ⟨e, f, he, hf, rfl⟩, hg, rfl⟩
    exact ⟨e, f, g, he, hf, hg, (Std.Associative.assoc e f g).symm⟩
  · rintro ⟨e, f, g, he, hf, hg, rfl⟩
    exact ⟨_, g, ⟨e, f, he, hf, rfl⟩, hg, Std.Associative.assoc e f g⟩

/-! ## What the search asks for -/

/-- The truth of a keyword search when it is known what each criterion on an attribute asks for:
that one of the attributes contains all keywords. -/
def searchValue (holds : String → Operator → Value → Option Bool) (r : Request)
    (defaults : List String) : Option Bool :=
  if r.search = [] then none
  else Connective.or.demand
    ((r.searchedNames defaults).map fun name => holds name .contains (.list r.search))

theorem searchJoins_value_iff {holds : String → Operator → Value → Option Bool} {r : Request}
    {defaults : List String} {d : Option Bool} :
    r.SearchJoins (fun n d => n.value holds = d) defaults d ↔ r.searchValue holds defaults = d := by
  unfold SearchJoins searchValue
  by_cases hsearch : r.search = []
  · rw [if_pos hsearch, if_pos hsearch, eq_comm]
  · have hleaf : ∀ name, (searchLeaf r.search name).value holds =
        holds name .contains (.list r.search) := by
      intro name
      rw [searchLeaf, Node.value_leaf, List.map_singleton, Connective.and_demand_singleton]
    rw [if_neg hsearch, if_neg hsearch, joins_eq_iff, List.map_map]
    simp only [Function.comp_def, hleaf]

end Request

/-- The texts in which a surface compares an attribute with each of the keywords. -/
def Surface.containsEach (s : Surface) (keywords : List Value) (name : String) :
    Except Error (List String) := do
  let reference ← s.referenceOf (.text name)
  let contains ← s.operation .contains .contains
  let values ← keywords.mapM (operand s .contains)
  return values.map fun value => contains [reference, value]

/-- What texts ask for together under an assignment: nothing when nothing is written, and otherwise
that all of them hold. -/
def allHold (assignment : String → Bool) (texts : List String) : Option Bool :=
  if texts = [] ∨ texts = [""] then none else some (texts.all assignment)

/-- A join of texts asks for all of them. -/
theorem demand_joined_atoms (assignment : String → Bool) (texts : List String) :
    (Expr.joined .and (texts.map .atom)).demand assignment = allHold assignment texts := by
  match texts with
  | [] => rfl
  | [text] =>
      by_cases htext : text = ""
      · rw [htext]
        rfl
      · simp [Expr.demand, Expr.isBlank, Expr.value, allHold, htext]
  | a :: b :: rest =>
      have hne : ¬(a :: b :: rest = [] ∨ a :: b :: rest = [""]) := by simp
      rw [allHold, if_neg hne, Expr.demand, if_neg (by simp [Expr.joined, Expr.isBlank]),
        Expr.value_joined assignment (by decide) (by simp), Connective.combine, List.map_map,
        List.all_map]
      rfl

/-- The condition that an attribute contains all keywords is written from a text for each. -/
theorem compileNode_searchLeaf (s : Surface) (keywords : List Value) (name : String) :
    compileNode s (Request.searchLeaf keywords name) =
      (s.containsEach keywords name).map fun texts =>
        Expr.joinDemands .and [Expr.joined .and (texts.map .atom)] := by
  rw [Request.searchLeaf, compileNode, compileLeaf, Surface.containsEach, map_bind]
  congr 1
  funext reference
  have hfragments : s.fragmentsOf reference .contains (.list keywords) = (do
      let contains ← s.operation .contains .contains
      let values ← keywords.mapM (operand s .contains)
      return values.map fun value => contains [reference, value]) := rfl
  rw [compileCriteria, compileCriterion_eq, hfragments]
  generalize (do
    let contains ← s.operation .contains .contains
    let values ← keywords.mapM (operand s .contains)
    return values.map fun value => contains [reference, value] : Except Error (List String)) = x
  cases x with
  | error e => rfl
  | ok texts => rfl

/-- The condition that an attribute contains all keywords asks for the texts of all of them. -/
theorem asksFor_searchLeaf_iff {s : Surface} {assignment : String → Bool} {keywords : List Value}
    {name : String} {d : Option Bool} :
    (Request.searchLeaf keywords name).AsksFor s assignment d ↔
      ∃ texts, s.containsEach keywords name = .ok texts ∧ allHold assignment texts = d := by
  have hdemand : ∀ texts : List String,
      (Expr.joinDemands .and [Expr.joined .and (texts.map .atom)]).demand assignment =
        allHold assignment texts := by
    intro texts
    rw [Expr.demand_joinDemands assignment (by decide), List.map_singleton,
      Connective.and_demand_singleton, demand_joined_atoms]
  rw [Node.asksFor_iff, compileNode_searchLeaf]
  constructor
  · rintro ⟨e, he, rfl⟩
    obtain ⟨texts, htexts, rfl⟩ := map_eq_ok_iff.mp he
    exact ⟨texts, htexts, (hdemand texts).symm⟩
  · rintro ⟨texts, htexts, rfl⟩
    exact ⟨_, map_eq_ok_iff.mpr ⟨texts, htexts, rfl⟩, hdemand texts⟩

namespace Request

/-- What the keyword search asks for on a surface: nothing without keywords, and otherwise that for
one of the attributes the texts of all keywords hold. -/
def SearchAsksFor (s : Surface) (assignment : String → Bool) (r : Request) (defaults : List String)
    (d : Option Bool) : Prop :=
  if r.search = [] then d = none
  else ∃ found, (r.searchedNames defaults).mapM (s.containsEach r.search) = .ok found ∧
    Connective.or.demand (found.map (allHold assignment)) = d

theorem searchJoins_asksFor_iff {s : Surface} {assignment : String → Bool} {r : Request}
    {defaults : List String} {d : Option Bool} :
    r.SearchJoins (fun n => n.AsksFor s assignment) defaults d ↔
      r.SearchAsksFor s assignment defaults d := by
  unfold SearchJoins SearchAsksFor
  by_cases hsearch : r.search = []
  · rw [if_pos hsearch, if_pos hsearch]
  · rw [if_neg hsearch, if_neg hsearch]
    simp only [Connective.Joins, List.forall₂_map_left_iff, asksFor_searchLeaf_iff,
      forall₂_exists_iff, mapM_eq_ok_iff]
    constructor
    · rintro ⟨_, ⟨found, hfound, rfl⟩, hd⟩
      exact ⟨found, hfound, hd⟩
    · rintro ⟨found, hfound, hd⟩
      exact ⟨_, ⟨found, hfound, rfl⟩, hd⟩

/-- **A list request asks for all its sources.** Whenever a list request is read from parameters, its
filters ask, with the keyword search added, for what the filter parameter asks for, what the
parameters that are not reserved ask for, and that one of the searched attributes contains all
keywords. A source that is absent or empty asks for nothing. It is so whatever the criteria on
attributes ask for, and of the text that the filters compile to, on every surface and under every
assignment. The keyword search keeps the attributes, the keywords and the paging options. -/
theorem request_is_conjunction {w : Option Whitelist} {d : Pagination.Defaults} {params : Fields}
    {r : Request} (h : ofParams w d params = .ok r) (defaults : List String) :
    ∃ filter group : Group, FilterSource w ((Fields.get? params "filters").getD .null) filter ∧
      ParamSource w params group ∧
      (∀ holds, (r.withSearch defaults).filters.toNode.value holds =
        Connective.and.demand [filter.toNode.value holds, group.toNode.value holds,
          r.searchValue holds defaults]) ∧
      (∀ s assignment d, (r.withSearch defaults).filters.toNode.AsksFor s assignment d ↔
        ∃ e f g, filter.toNode.AsksFor s assignment e ∧ group.toNode.AsksFor s assignment f ∧
          r.SearchAsksFor s assignment defaults g ∧ Connective.and.demand [e, f, g] = d) ∧
      (r.withSearch defaults).attributes = r.attributes ∧
      (r.withSearch defaults).search = r.search ∧ (r.withSearch defaults).page = r.page := by
  obtain ⟨filter, group, hfilter, hgroup, hfilters⟩ := sources_of_ofParams h
  refine ⟨filter, group, hfilter, hgroup, fun holds => ?_, fun s assignment d => ?_,
    withSearch_keeps r defaults⟩
  · obtain ⟨e, f, g, rfl, rfl, hg, hvalue⟩ :=
      (reads_request (isReading_value holds) hfilters defaults _).mp rfl
    rw [← hvalue, searchJoins_value_iff.mp hg]
  · rw [reads_request (isReading_asksFor s assignment) hfilters]
    simp only [searchJoins_asksFor_iff]

/-- A filter on the age. -/
def adultFilter : Value :=
  .record [("and", .list [.record [("attribute", .text "age"), ("gt", .int 18)]])]

/-- Parameters with a filter, an attribute of their own and a search for two keywords. -/
def guestParams : Fields :=
  [("filters", adultFilter), ("vip", .bool true), ("search", .text "ann bo")]

/-- What the filter on the age is built to. -/
def guestFilter : Group where
  ands := [.leaf "age" [(.greater, .int 18)] .and .null .null]

/-- The group of the attribute. -/
def guestGroup : Group where
  ands := [.leaf "vip" [(.equals, .bool true)] .and .null .null]
  id := .text Params.groupId

/-- The request of the parameters. -/
def guestRequest : Request where
  attributes := none
  filters := guestFilter.add guestGroup.toNode
  search := [.text "ann", .text "bo"]
  searchAttributes := none
  page := ⟨250, 12, .some 1, .ascending, none⟩

/-- The request asks for the age, the attribute and both keywords in one of two attributes. -/
theorem guestRequest_asks :
    ofParams none Pagination.defaults guestParams = .ok guestRequest ∧
      ∀ holds, (guestRequest.withSearch ["name", "email"]).filters.toNode.value holds =
        Connective.and.demand [holds "age" .greater (.int 18), holds "vip" .equals (.bool true),
          Connective.or.demand [holds "name" .contains (.list [.text "ann", .text "bo"]),
            holds "email" .contains (.list [.text "ann", .text "bo"])]] := by
  have hrequest : ofParams none Pagination.defaults guestParams = .ok guestRequest := by rfl
  have hparse : Params.parse (filterParams guestParams) = .ok [("vip", .bool true)] := by rfl
  obtain ⟨filter, group, hfilter, ⟨parsed, hparsed, hgroup⟩, hvalue, -⟩ :=
    request_is_conjunction hrequest ["name", "email"]
  obtain rfl : guestFilter = filter := by
    have hsource : FilterSource none adultFilter filter := hfilter
    cases hsource with
    | built hraw _ hbuild =>
        obtain rfl : adultFilter = _ := Except.ok.inj hraw
        exact Except.ok.inj hbuild
  obtain rfl : guestGroup = group := by
    obtain rfl := Except.ok.inj (hparse.symm.trans hparsed)
    exact Except.ok.inj hgroup
  refine ⟨hrequest, fun holds => (hvalue holds).trans ?_⟩
  have hsearch : guestRequest.searchValue holds ["name", "email"] = Connective.or.demand
      [holds "name" .contains (.list guestRequest.search),
        holds "email" .contains (.list guestRequest.search)] := by
    rw [searchValue, if_neg (by simp [guestRequest])]
    rfl
  rw [hsearch]
  simp only [guestFilter, guestGroup, guestRequest, Group.toNode, Node.value_group,
    Node.value_leaf, List.map_cons, List.map_nil, Connective.demand_nil,
    Connective.and_demand_cons, Option.merge_none_right]

end Request

end RecordQuery
