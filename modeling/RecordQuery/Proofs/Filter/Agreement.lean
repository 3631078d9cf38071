import RecordQuery.Proofs.Filter.Acceptance
/-!
# When reporting agrees with building

Reporting goes through a raw filter a second time. It checks groups and filters on one attribute as
building does, and differs at maps of attributes: it turns every entry into a filter on one attribute
of its own, where a field `attribute` of the entry wins over the key, and it does not look at the
joiner of the map. `validate_agreement` says for which filters this makes a difference.
-/

namespace RecordQuery

/-! ## A field in front of others -/

namespace Fields

variable {α : Type}

/-- When distinct fields are set one after the other, the one in front keeps its place and takes the
value that comes for it, and the others follow in their order. -/
theorem foldl_set {fields : List (String × α)} {key : String} {a : α} (done : List (String × α))
    (hkey : key ∉ keys done) (hdistinct : (keys done ++ keys fields).Nodup) :
    fields.foldl (fun fs field => set fs field.1 field.2) ((key, a) :: done) =
      (key, (get? fields key).getD a) :: (done ++ fields.filter fun field => field.1 != key) := by
  induction fields generalizing a done with
  | nil => simp
  | cons field rest ih =>
      obtain ⟨k, v⟩ := field
      rw [List.foldl_cons]
      by_cases hk : k = key
      · subst hk
        have hrest : get? rest k = none := by
          rw [← not_mem_keys]
          exact (List.nodup_cons.mp (List.nodup_append.mp hdistinct).2.1).1
        have hdistinct' : (keys done ++ keys rest).Nodup :=
          hdistinct.sublist ((List.Sublist.refl _).append (List.sublist_cons_self _ _))
        rw [set, if_pos rfl, ih done hkey hdistinct', hrest, get?_cons, if_pos rfl]
        simp
      · have hdone : k ∉ keys done := fun hmem =>
          (List.nodup_append.mp hdistinct).2.2 k hmem k List.mem_cons_self rfl
        have hset : set ((key, a) :: done) k v = (key, a) :: (done ++ [(k, v)]) := by
          rw [set, if_neg (fun hk' => hk hk'.symm), set_of_not_mem hdone]
        have hkeys : keys (done ++ [(k, v)]) = keys done ++ [k] := List.map_append
        have hkey' : key ∉ keys (done ++ [(k, v)]) := by
          rw [hkeys, List.mem_append, List.mem_singleton, not_or]
          exact ⟨hkey, fun hk' => hk hk'.symm⟩
        have hdistinct' : (keys (done ++ [(k, v)]) ++ keys rest).Nodup := by
          rw [hkeys, List.append_assoc]
          exact hdistinct
        rw [hset, ih _ hkey' hdistinct', get?_cons, if_neg (fun hk' => hk hk'.symm), List.filter_cons,
          if_pos (by simpa using hk), List.append_assoc]
        rfl

/-- The record of a field and of distinct fields after it. -/
theorem ofList_cons {fields : List (String × α)} (hdistinct : (keys fields).Nodup) (key : String)
    (a : α) :
    ofList ((key, a) :: fields) =
      (key, (get? fields key).getD a) :: fields.filter fun field => field.1 != key :=
  foldl_set [] List.not_mem_nil hdistinct

/-- Leaving out the fields of one key does not change the others. -/
theorem get?_filter_of_ne {fields : List (String × α)} {key other : String} (h : other ≠ key) :
    get? (fields.filter fun field => field.1 != key) other = get? fields other := by
  induction fields with
  | nil => rfl
  | cons field rest ih =>
      obtain ⟨k, v⟩ := field
      by_cases hk : k = key
      · subst hk
        rw [List.filter_cons, if_neg (by simp), ih, get?_cons, if_neg h]
      · rw [List.filter_cons, if_pos (by simpa using hk), get?_cons, get?_cons, ih]

end Fields

/-! ## Filters that differ in the attribute alone -/

/-- The criteria of a record are read from the fields that are criteria. -/
theorem criteriaAfter_filter (w : Option Whitelist) (name path : String)
    (seen : List (Operator × String)) (fields : Fields) :
    criteriaAfter w name path seen (fields.filter fun field => FilterKey.isCriterion field.1) =
      criteriaAfter w name path seen fields := by
  induction fields generalizing seen with
  | nil => rfl
  | cons field rest ih =>
      obtain ⟨key, value⟩ := field
      cases hkey : FilterKey.isCriterion key with
      | true => simp only [List.filter_cons, hkey, if_true, criteriaAfter, ih]
      | false => simp [hkey, criteriaAfter, ih]

section

variable {first second : Fields}
  (hcriteria : first.filter (fun field => FilterKey.isCriterion field.1) =
    second.filter fun field => FilterKey.isCriterion field.1)
  (hmeta : ∀ key, FilterKey.isMetadata key = true → Fields.get? first key = Fields.get? second key)

include hcriteria in
/-- Records with the same criteria are allowed alike. -/
theorem Fields.allowed_congr {w : Option Whitelist} {name : String} :
    first.Allowed w name ↔ second.Allowed w name := by
  have hfilter : ∀ fields : Fields, fields.Allowed w name ↔
      ∀ field ∈ fields.filter fun field => FilterKey.isCriterion field.1, ∀ op,
        Operator.ofSpelling? field.1 = some op → Whitelist.checkOption w name op.name = .ok () := by
    intro fields
    simp only [Allowed, List.mem_filter, and_imp]
  rw [hfilter first, hfilter second, hcriteria]

include hcriteria hmeta in
/-- Records with the same criteria and the same metadata give the same leaf. -/
theorem leafOf_congr (w : Option Whitelist) (name path : String) :
    leafOf w name path first = leafOf w name path second := by
  have hread : criteriaOf w name path first = criteriaOf w name path second := by
    rw [criteriaOf, criteriaOf, ← criteriaAfter_filter, hcriteria, criteriaAfter_filter]
  rw [leafOf, leafOf, hread, joinerOf_congr hmeta, Tag.ofFields_congr hmeta]

include hcriteria hmeta in
/-- Records with the same criteria and the same metadata are operator maps alike. -/
theorem Fields.isOperatorMap_congr : first.IsOperatorMap ↔ second.IsOperatorMap := by
  rw [IsOperatorMap, IsOperatorMap, leafOf_congr hcriteria hmeta]

end

/-! ## Naming an operator map -/

/-- The fields of a record with the name of an attribute in front, in place of any other. -/
def Fields.withName (name : Value) (fields : Fields) : Fields :=
  (FilterKey.name, name) :: fields.filter fun field => field.1 != FilterKey.name

theorem Fields.get?_withName (name : Value) (fields : Fields) :
    get? (withName name fields) FilterKey.name = some name := by
  rw [withName, get?_cons, if_pos rfl]

/-- Naming changes no other field. -/
theorem Fields.get?_withName_of_ne {name : Value} {fields : Fields} {key : String}
    (h : key ≠ FilterKey.name) : get? (withName name fields) key = get? fields key := by
  rw [withName, get?_cons, if_neg h, get?_filter_of_ne h]

/-- Naming changes no criteria. -/
theorem Fields.filter_withName (name : Value) (fields : Fields) :
    (withName name fields).filter (fun field => FilterKey.isCriterion field.1) =
      fields.filter fun field => FilterKey.isCriterion field.1 := by
  have hkey : ¬FilterKey.isCriterion FilterKey.name = true := by decide
  rw [withName, List.filter_cons, if_neg hkey, List.filter_filter]
  refine List.filter_congr fun field _ => ?_
  rw [FilterKey.isCriterion, Bool.and_assoc, Bool.and_self]

/-- With a name, a record with operators is a filter on one attribute. -/
theorem Value.isAttributeFilter_withName {fields : Fields} (h : (record fields).isCriteria = true)
    (name : Value) : (record (Fields.withName name fields)).isAttributeFilter = true := by
  rw [isCriteria, List.any_eq_true] at h
  obtain ⟨field, hfield, hspelling⟩ := h
  have hne : field.1 ≠ FilterKey.name := by
    intro hname
    rw [hname] at hspelling
    exact absurd hspelling (by decide)
  have hmem : field ∈ fields.filter fun field => field.1 != FilterKey.name :=
    List.mem_filter.mpr ⟨hfield, bne_iff_ne.mpr hne⟩
  rw [isAttributeFilter, Bool.and_eq_true]
  constructor
  · rw [isCriteria, List.any_eq_true]
    exact ⟨field, List.mem_cons_of_mem _ hmem, hspelling⟩
  · exact Fields.has_iff.mpr ⟨name, Fields.get?_withName name fields⟩

/-! ## Entries of maps of attributes -/

/-- The name of the attribute that reporting takes for an entry: the field `attribute` of its operator
map when there is one, and the key otherwise. -/
def reportedName (entry : String × Value) : Value :=
  (Fields.get? (operatorMap entry.2) FilterKey.name).getD (.text entry.1)

/-- What reporting asks of a map of attributes beyond its operator maps: that the reported names are
those of attributes that may be filtered by the operators. -/
def Fields.ReportDemand (w : Option Whitelist) (fields : Fields) : Prop :=
  ∀ entry ∈ mapEntries fields, (operatorMap entry.2).NamedBy w (reportedName entry)

/-- The filter that an entry with distinct fields stands for. -/
theorem entryFilter_eq {key : String} {value : Value}
    (hdistinct : (Fields.keys (operatorMap value)).Nodup) :
    entryFilter key value =
      .record (Fields.withName (reportedName (key, value)) (operatorMap value)) :=
  congrArg Value.record (Fields.ofList_cons hdistinct _ _)

/-- The filter that an entry stands for is built when the entry is an operator map and its reported
name is that of an attribute that may be filtered by the operators. -/
theorem exists_buildAt_entryFilter_iff {w : Option Whitelist} {path key : String} {value : Value}
    (hcriteria : value.isCriteria = true)
    (hdistinct : (Fields.keys (operatorMap value)).Nodup) :
    (∃ n, buildAt w path (entryFilter key value) = .ok n) ↔ (operatorMap value).IsOperatorMap ∧
      (operatorMap value).NamedBy w (reportedName (key, value)) := by
  rw [entryFilter_eq hdistinct]
  generalize reportedName (key, value) = name
  have hsame := Fields.filter_withName name (operatorMap value)
  have hmeta : ∀ k, FilterKey.isMetadata k = true →
      Fields.get? (Fields.withName name (operatorMap value)) k = Fields.get? (operatorMap value) k := by
    intro k hk
    refine Fields.get?_withName_of_ne ?_
    rintro rfl
    exact absurd hk (by decide)
  have hattribute : (Value.record (Fields.withName name (operatorMap value))).isAttributeFilter = true := by
    cases value with
    | record inner => exact Value.isAttributeFilter_withName hcriteria name
    | null | bool | int | float | text | list | tuple | moment | connective | node | deferred =>
        exact absurd hcriteria (by simp [Value.isCriteria])
  rw [buildAt_of_isAttributeFilter hattribute, exists_attributeLeaf_iff,
    Fields.isOperatorMap_congr hsame hmeta, Fields.get?_withName, Option.getD_some]
  simp only [Fields.NamedBy, Fields.allowed_congr hsame]

/-! ## Reports -/

/-- The keys of a record are distinct. -/
def Value.distinctKeys : Value → Bool
  | record fields => decide (Fields.keys fields).Nodup
  | _ => true

/-- The keys of every record in the value are distinct. -/
def Value.hasDistinctKeys (v : Value) : Bool :=
  v.everywhere Value.distinctKeys

/-- A filter that is built as a whole has no report when it is built. -/
theorem leafReports_eq_nil_iff {w : Option Whitelist} {path : String} {v : Value} :
    leafReports w path v = [] ↔ ∃ n, buildAt w path v = .ok n := by
  rw [leafReports]
  cases buildAt w path v with
  | ok n => simp
  | error e => simp

/-- The operator map of an entry has distinct keys when all records have. -/
theorem nodup_keys_operatorMap {value : Value} (h : value.hasDistinctKeys = true) :
    (Fields.keys (operatorMap value)).Nodup := by
  cases value with
  | record inner => exact of_decide_eq_true (Value.everywhere_record.mp h).1
  | null | bool | int | float | text | list | tuple | moment | connective | node | deferred =>
      exact List.nodup_nil

/-- A map of attributes has no reports when it holds operator maps and meets the demands of
reporting. -/
theorem mapReports_eq_nil_iff {w : Option Whitelist} {path : String} {fields : Fields}
    (hmap : (Value.record fields).isEntityFilter = true)
    (hdistinct : (Value.record fields).hasDistinctKeys = true) :
    mapReports w path fields = [] ↔ fields.IsAttributeMap ∧ fields.ReportDemand w := by
  have hentry : ∀ entry ∈ mapEntries fields,
      (leafReports w s!"{path}.{entry.1}" (entryFilter entry.1 entry.2) = [] ↔
        (operatorMap entry.2).IsOperatorMap ∧ (operatorMap entry.2).NamedBy w (reportedName entry)) := by
    intro entry hentry
    obtain ⟨hmem, hcondition⟩ := List.mem_filter.mp hentry
    have hcriteria : entry.2.isCriteria = true := by
      rw [Value.isEntityFilter, Bool.and_eq_true, List.all_eq_true] at hmap
      rw [Bool.not_eq_true'] at hcondition
      have hshape := hmap.2 entry hmem
      rwa [hcondition, Bool.false_or] at hshape
    have hkeys := nodup_keys_operatorMap ((Value.everywhere_record.mp hdistinct).2 entry hmem)
    rw [leafReports_eq_nil_iff, exists_buildAt_entryFilter_iff hcriteria hkeys]
  show (mapEntries fields).flatMap _ = [] ↔ _
  rw [List.flatMap_eq_nil_iff]
  constructor
  · intro hreports
    constructor
    · intro entry hmem
      exact ((hentry entry hmem).mp (hreports entry hmem)).1
    · intro entry hmem
      exact ((hentry entry hmem).mp (hreports entry hmem)).2
  · rintro ⟨hmaps, hnamed⟩ entry hmem
    exact (hentry entry hmem).mpr ⟨hmaps entry hmem, hnamed entry hmem⟩

/-- Members have no reports when none of them has. -/
theorem memberReports_eq_nil_iff {w : Option Whitelist} {P : Value → Prop} {items : List Value}
    (h : ∀ item ∈ items, ∀ place, reportsAt w place item = [] ↔ P item) {path : String}
    {index : Nat} : memberReports w path index items = [] ↔ ∀ item ∈ items, P item := by
  induction items generalizing index with
  | nil => simp [memberReports]
  | cons item rest ih =>
      rw [List.forall_mem_cons] at h
      rw [memberReports, List.append_eq_nil_iff, List.forall_mem_cons, h.1, ih h.2]

/-- What is no record is reported on as a whole. -/
theorem reportsAt_of_not_record {w : Option Whitelist} {path : String} {v : Value}
    (h : v.record? = none) : reportsAt w path v = leafReports w path v := by
  cases v with
  | record => exact absurd h (by simp [Value.record?])
  | null | bool | int | float | text | list | tuple | moment | connective | node | deferred => rfl

/-- What is neither a group nor a map of attributes is reported on as a whole, and has no maps of
attributes inside to demand anything of. -/
theorem leafReports_eq_nil_iff_passes {w : Option Whitelist} {path : String} {v : Value}
    {Q : Fields → Prop} (hgroup : ¬v.isGroupFilter = true) (hmap : ¬v.isEntityFilter = true) :
    leafReports w path v = [] ↔ v.Passes w ∧ v.AllMaps Q := by
  rw [leafReports_eq_nil_iff, exists_buildAt_iff, and_iff_left (Value.allMaps_of_no_map hgroup hmap),
    and_iff_left (Value.allMaps_of_no_map hgroup hmap)]

/-- A raw filter has no reports exactly when it passes the common checks and the maps of attributes
inside meet the demands of reporting. -/
theorem reportsAt_eq_nil_iff {w : Option Whitelist} {v : Value}
    (hdistinct : v.hasDistinctKeys = true) {path : String} :
    reportsAt w path v = [] ↔ v.Passes w ∧ v.AllMaps (Fields.ReportDemand w) := by
  induction v using Value.memberInduction generalizing path with
  | other v hrecord =>
      obtain ⟨-, hgroup, hmap⟩ := Value.no_shape_of_not_record hrecord
      rw [reportsAt_of_not_record hrecord]
      exact leafReports_eq_nil_iff_passes hgroup hmap
  | record fields ih =>
      by_cases hgroup : (Value.record fields).isGroupFilter = true
      · rw [reportsAt, if_pos hgroup, List.append_eq_nil_iff, List.append_eq_nil_iff,
          Value.passes_and_allMaps_iff_of_isGroupFilter hgroup]
        have hbranch : ∀ branch, branchReports w path branch fields = [] ↔
            ∃ items, branchItems? fields branch = some items ∧
              ∀ item ∈ items, item.Passes w ∧ item.AllMaps (Fields.ReportDemand w) := by
          intro branch
          rw [branchReports_eq]
          cases hitems : branchItems? fields branch with
          | none => simp
          | some items =>
              simp only [Option.some.injEq, exists_eq_left']
              refine memberReports_eq_nil_iff fun item hitem place => ?_
              exact ih branch items hitems item hitem
                (Value.everywhere_of_branchItems? hdistinct hitems item hitem)
        simp only [← hbranch]
        constructor
        · rintro ⟨⟨hands, hors⟩, hnots⟩ branch
          cases branch with
          | and => exact hands
          | or => exact hors
          | not => exact hnots
        · intro hall
          exact ⟨⟨hall .and, hall .or⟩, hall .not⟩
      · rw [reportsAt, if_neg hgroup]
        by_cases hmap : (Value.record fields).isEntityFilter = true
        · rw [if_pos hmap, mapReports_eq_nil_iff hmap hdistinct,
            Value.passes_iff_of_isEntityFilter hmap, Value.allMaps_iff_of_isEntityFilter hmap]
        · rw [if_neg hmap]
          exact leafReports_eq_nil_iff_passes hgroup hmap

/-! ## Agreement -/

/-- A map of attributes with a joiner, without the empty name, and with no field `attribute` in an
operator map. -/
def Fields.Regular (fields : Fields) : Prop :=
  (∃ branch, joinerOf fields rootPath Connective.all = .ok branch) ∧
    ∀ entry ∈ mapEntries fields, entry.1 ≠ "" ∧
      Fields.get? (operatorMap entry.2) FilterKey.name = none

/-- Building and reporting demand the same of regular maps of attributes. -/
theorem buildDemand_iff_reportDemand {w : Option Whitelist} {fields : Fields}
    (h : fields.Regular) : fields.BuildDemand w ↔ fields.ReportDemand w := by
  obtain ⟨hjoiner, hentries⟩ := h
  rw [Fields.BuildDemand, Fields.ReportDemand, and_iff_right hjoiner]
  refine forall₂_congr fun entry hentry => ?_
  obtain ⟨hkey, hname⟩ := hentries entry hentry
  rw [Fields.NamedBy, reportedName, hname]
  constructor
  · intro hallowed
    exact ⟨entry.1, rfl, hkey, hallowed⟩
  · rintro ⟨name, hname, -, hallowed⟩
    obtain rfl : entry.1 = name := Option.some.inj hname
    exact hallowed

/-- A filter is built as a group when it is built. -/
theorem exists_buildFilter_iff {w : Option Whitelist} {raw : Value} :
    (∃ g, buildFilter w raw = .ok g) ↔ raw.Passes w ∧ raw.AllMaps (Fields.BuildDemand w) := by
  have hnode : (∃ n, buildNode w raw = .ok n) ↔ raw.Passes w ∧ raw.AllMaps (Fields.BuildDemand w) :=
    exists_buildAt_iff
  rw [← hnode]
  constructor
  · rintro ⟨g, hg⟩
    obtain ⟨n, hn, -⟩ := map_eq_ok_iff.mp hg
    exact ⟨n, hn⟩
  · rintro ⟨n, hn⟩
    exact ⟨.ofNode n, map_eq_ok_iff.mpr ⟨n, hn, rfl⟩⟩

/-- Validating finds nothing when nothing is to be reported. -/
theorem validate_eq_nil_iff {w : Option Whitelist} {raw : Value} :
    validate w raw = .ok [] ↔ reportsAt w rootPath raw = [] := by
  rw [validate, mapM_eq_ok_iff, List.forall₂_nil_right_iff]

/-- When a raw filter is built, it has no reports exactly if its maps of attributes meet the demands of
reporting; when it has no reports, it is built exactly if they meet those of building. In particular
reporting and building agree on filters all whose maps of attributes are regular. -/
theorem validate_agreement {w : Option Whitelist} {raw : Value}
    (hdistinct : raw.hasDistinctKeys = true) :
    ((∃ g, buildFilter w raw = .ok g) →
      (validate w raw = .ok [] ↔ raw.AllMaps (Fields.ReportDemand w))) ∧
    (validate w raw = .ok [] →
      ((∃ g, buildFilter w raw = .ok g) ↔ raw.AllMaps (Fields.BuildDemand w))) ∧
    (raw.AllMaps Fields.Regular → (validate w raw = .ok [] ↔ ∃ g, buildFilter w raw = .ok g)) := by
  have hreports : validate w raw = .ok [] ↔ raw.Passes w ∧ raw.AllMaps (Fields.ReportDemand w) :=
    validate_eq_nil_iff.trans (reportsAt_eq_nil_iff hdistinct)
  rw [exists_buildFilter_iff, hreports]
  refine ⟨?_, ?_, ?_⟩
  · rintro ⟨hpasses, -⟩
    exact and_iff_right hpasses
  · rintro ⟨hpasses, -⟩
    exact and_iff_right hpasses
  · intro hregular
    have hdemands : raw.AllMaps (Fields.ReportDemand w) ↔ raw.AllMaps (Fields.BuildDemand w) :=
      forall₂_congr fun inner hinner => (buildDemand_iff_reportDemand (hregular inner hinner)).symm
    rw [hdemands]

-- a field of an operator map is taken for the name and reported, but not refused by building
example : validate none (.record [("a", .record [("eq", .int 1), ("attribute", .text "")])]) =
    .ok ["<root>.a.attribute: 'attribute' must be a non-empty string, got ''"] := by decide +kernel

/-- A map of attributes for adults with an address. -/
def adultsFilter : Value :=
  .record [("age", .record [("gte", .int 18)]), ("email", .record [("exists", .bool false)])]

theorem validate_adultsFilter :
    adultsFilter.hasDistinctKeys = true ∧ adultsFilter.AllMaps Fields.Regular ∧
      validate none adultsFilter = .ok [] := by
  have hdistinct : adultsFilter.hasDistinctKeys = true := by decide
  have hregular : adultsFilter.AllMaps Fields.Regular := by
    refine (Value.allMaps_iff_of_isEntityFilter rfl).mpr ⟨⟨.and, rfl⟩, ?_⟩
    intro entry hentry
    rcases List.mem_cons.mp hentry with rfl | hentry
    · exact ⟨by decide, rfl⟩
    · rw [List.mem_singleton.mp hentry]
      exact ⟨by decide, rfl⟩
  exact ⟨hdistinct, hregular, ((validate_agreement hdistinct).2.2 hregular).mpr ⟨_, rfl⟩⟩

/-- A map of attributes whose joiner is no connective. -/
def joinerlessFilter : Value :=
  .record [("a", .record [("eq", .int 1)]), ("logicalOp", .text "xor")]

/-- The joiner of a map of attributes is refused by building and not reported. -/
theorem joinerlessFilter_not_reported :
    validate none joinerlessFilter = .ok [] ∧ buildFilter none joinerlessFilter =
      .error (.shape (.badConnective (.text "xor") Connective.all) (.text "<root>.logicalOp")) := by
  have hlower : "xor".toLower = "xor" := by decide +kernel
  have hjoiner : joinerOf [("a", .record [("eq", .int 1)]), ("logicalOp", .text "xor")] rootPath
      Connective.all = .error (.shape (.badConnective (.text "xor") Connective.all)
        (.text "<root>.logicalOp")) :=
    joinerOf_of_not_find? rfl (by rw [hlower]; rfl)
  refine ⟨rfl, ?_⟩
  rw [buildFilter, buildNode, joinerlessFilter, buildAt_of_isEntityFilter rfl, mapGroup, hjoiner]
  rfl

end RecordQuery
