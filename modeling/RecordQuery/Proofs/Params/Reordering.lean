import RecordQuery.Proofs.Fields
import RecordQuery.Proofs.Params.Conflicts
/-!
# Query parameters in another order

Query parameters may come in any order, as long as those of one path keep theirs: they are refused in
both orders or taken in both, and what they grow into differs in the order of names alone
(`parse_rearranged`). That they are taken is a matter of pairs of them (`exists_parse_iff`). What they
grow into is settled by the values of each path, which come in the same order, and by the names that
lead the paths.
-/

namespace RecordQuery.Params

/-! ## Results and parameters in another order -/

/-- The two values differ in the order of fields alone: a record has the fields of the other in some
order, with values that differ so themselves, and lists agree item by item. -/
inductive Reordered : Value → Value → Prop
  | same (v : Value) : Reordered v v
  | list {items items' : List Value} : List.Forall₂ Reordered items items' →
      Reordered (.list items) (.list items')
  | record {fields fields' moved : Fields} : fields.Perm moved →
      Fields.keys moved = Fields.keys fields' →
      List.Forall₂ Reordered (moved.map (·.2)) (fields'.map (·.2)) →
      Reordered (.record fields) (.record fields')

/-- The path that a parameter name reaches. An attribute that stands alone has the path of its value for
equality; a group as a whole and a malformed name reach no names. -/
def reached (key : String) : Path :=
  (pathOf (segmentsOf key)).spelledOut

/-- The two lists have the same parameters, and those that reach one path in the same order. -/
structure Rearranged (params params' : Fields) : Prop where
  perm : params.Perm params'
  order : ∀ path : Path, path.names ≠ [] →
    (params.filter fun param => reached param.1 = path) =
      params'.filter fun param => reached param.1 = path

/-- It is enough to compare the order of the parameters at the paths that they have. -/
theorem Rearranged.of_forall_mem {params params' : Fields} (hperm : params.Perm params')
    (horder : ∀ other ∈ params, (params.filter fun param => reached param.1 = reached other.1) =
      params'.filter fun param => reached param.1 = reached other.1) : Rearranged params params' := by
  refine ⟨hperm, fun path _ => ?_⟩
  by_cases hsome : ∃ other ∈ params, reached other.1 = path
  · obtain ⟨other, hmem, rfl⟩ := hsome
    exact horder other hmem
  · have hnone : ∀ other ∈ params, ¬reached other.1 = path :=
      fun other hmem hpath => hsome ⟨other, hmem, hpath⟩
    rw [List.filter_eq_nil_iff.mpr fun other hmem => by simpa using hnone other hmem,
      List.filter_eq_nil_iff.mpr fun other hmem => by
        simpa using hnone other (hperm.mem_iff.mpr hmem)]

/-! ## Records with the same names -/

/-- Records with distinct names that are the same in both are in another order when the values of
each name are. -/
theorem reordered_record {fields fields' : Fields} (h : (Fields.keys fields).Nodup)
    (h' : (Fields.keys fields').Nodup)
    (hkeys : ∀ key, key ∈ Fields.keys fields ↔ key ∈ Fields.keys fields')
    (hvalues : ∀ key v w, Fields.get? fields key = some v → Fields.get? fields' key = some w →
      Reordered v w) : Reordered (.record fields) (.record fields') := by
  have hperm : (Fields.keys fields).Perm (Fields.keys fields') :=
    (List.perm_ext_iff_of_nodup h h').mpr hkeys
  have hmoved := hperm.map fun key => (key, (Fields.get? fields key).getD .null)
  rw [Fields.map_keys_eq h] at hmoved
  refine .record hmoved ?_ ?_
  · rw [Fields.keys, List.map_map]
    exact List.map_id _
  · conv_rhs => rw [← Fields.map_keys_eq h' .null]
    rw [List.map_map, List.map_map, List.forall₂_map_left_iff, List.forall₂_map_right_iff,
      List.forall₂_same]
    intro key hkey
    obtain ⟨w, hw⟩ := Fields.mem_keys.mp hkey
    obtain ⟨v, hv⟩ := Fields.mem_keys.mp ((hkeys key).mpr hkey)
    show Reordered ((Fields.get? fields key).getD .null) ((Fields.get? fields' key).getD .null)
    rw [hv, hw]
    exact hvalues key v w hv hw

/-- The same of records whose values are written for something else. -/
theorem reordered_map_values {α : Type} (f : α → Value) {entries entries' : List (String × α)}
    (h : (Fields.keys entries).Nodup) (h' : (Fields.keys entries').Nodup)
    (hkeys : ∀ key, key ∈ Fields.keys entries ↔ key ∈ Fields.keys entries')
    (hvalues : ∀ key a b, Fields.get? entries key = some a → Fields.get? entries' key = some b →
      Reordered (f a) (f b)) :
    Reordered (.record (entries.map fun entry => (entry.1, f entry.2)))
      (.record (entries'.map fun entry => (entry.1, f entry.2))) := by
  refine reordered_record ?_ ?_ (fun key => ?_) (fun key v w hv hw => ?_)
  · rwa [Fields.keys_map_values]
  · rwa [Fields.keys_map_values]
  · rw [Fields.keys_map_values, Fields.keys_map_values]
    exact hkeys key
  · rw [Fields.get?_map_values] at hv hw
    obtain ⟨a, ha, rfl⟩ := Option.map_eq_some_iff.mp hv
    obtain ⟨b, hb, rfl⟩ := Option.map_eq_some_iff.mp hw
    exact hvalues key a b ha hb

/-- Lists of records with the same indices are in another order when their records are. -/
theorem reordered_records {indices : List Nat} {element element' : Nat → Fields}
    (h : ∀ index ∈ indices, Reordered (.record (element index)) (.record (element' index))) :
    Reordered (.list ((indices.map element).map .record))
      (.list ((indices.map element').map .record)) := by
  rw [List.map_map, List.map_map]
  refine .list ?_
  rw [List.forall₂_map_left_iff, List.forall₂_map_right_iff, List.forall₂_same]
  exact h

/-! ## Trees with the same values -/

/-- No two entries below an attribute have one name. -/
inductive Tree.Distinct : Tree → Prop
  | leaf (v : Value) : Distinct (.leaf v)
  | branch {entries : Entries} : (Fields.keys entries).Nodup →
      (∀ name tree, Fields.get? entries name = some tree → Distinct tree) →
      Distinct (.branch entries)

section

variable {entries entries' : Entries} {v : Value}

theorem Tree.distinct_nil : Tree.Distinct (.branch []) :=
  .branch List.nodup_nil fun _ _ hnone => absurd hnone (by simp)

theorem Tree.Distinct.nodup (h : Tree.Distinct (.branch entries)) : (Fields.keys entries).Nodup := by
  cases h with
  | branch hnodup _ => exact hnodup

theorem Tree.Distinct.get? (h : Tree.Distinct (.branch entries)) {name : String} {tree : Tree}
    (htree : Fields.get? entries name = some tree) : tree.Distinct := by
  cases h with
  | branch _ hentries => exact hentries name tree htree

theorem Tree.Distinct.set (h : Tree.Distinct (.branch entries)) (segment : String) {tree : Tree}
    (htree : tree.Distinct) : Tree.Distinct (.branch (Fields.set entries segment tree)) := by
  refine .branch (Fields.nodup_keys_set h.nodup segment tree) fun name found hfound => ?_
  by_cases hname : name = segment
  · rw [hname, Fields.get?_set_self] at hfound
    rwa [← Option.some.inj hfound]
  · rw [Fields.get?_set_of_ne entries tree hname] at hfound
    exact h.get? hfound

theorem Tree.Distinct.entriesBelow (h : Tree.Distinct (.branch entries)) (segment : String) :
    Tree.Distinct (.branch (entriesBelow entries segment)) := by
  rw [Params.entriesBelow]
  split
  · next below hget => exact h.get? hget
  · exact Tree.distinct_nil

/-- Names stay distinct when texts are put at the end of a path. -/
theorem Tree.Distinct.putBelow (hv : isTexts v = true) {segments : List String} :
    ∀ {entries entries' : Entries}, Tree.Plain (.branch entries) → Tree.Distinct (.branch entries) →
      segments ≠ [] → putBelow v segments entries = .ok entries' →
      Tree.Distinct (.branch entries') := by
  induction segments with
  | nil => exact fun _ _ hne => absurd rfl hne
  | cons segment rest ih =>
      intro entries entries' hplain h _ hput
      by_cases hrest : rest = []
      · subst hrest
        obtain ⟨earlier, -, -, rfl⟩ := exists_leaf_of_putValue hv hplain (putValue_of_putBelow hput)
        exact h.set segment (.leaf _)
      · obtain ⟨below, hbelow, hrestput, -, rfl⟩ := exists_branch_of_putBelow hplain hrest hput
        exact h.set segment (ih hbelow (h.entriesBelow segment) hrest hrestput)

end

/-- There is a leaf in what a plain tree has grown into. -/
theorem Tree.Plain.exists_valueLeaf {tree : Tree} (h : tree.Plain) (hne : tree ≠ .branch []) :
    ∃ names v, valueLeaf? names tree.toValue = some v := by
  cases tree with
  | leaf v =>
      refine ⟨[], v, ?_⟩
      rw [Tree.toValue, valueLeaf?_of_isTexts h.isTexts, if_pos rfl]
  | branch entries =>
      have hsome : entries ≠ [] := fun hnil => hne (by rw [hnil])
      obtain ⟨names, v, hfind⟩ := h.exists_find rfl hsome
      exact ⟨names, v, by rw [Tree.toValue, valueLeaf?_toFields h hsome, hfind]⟩
  | slots elements => cases h

theorem valueLeaf?_cons (entries : Entries) (name : String) (rest : List String) :
    valueLeaf? (name :: rest) (Tree.branch entries).toValue =
      (Fields.get? entries name).bind fun tree => valueLeaf? rest tree.toValue := by
  rw [Tree.toValue, valueLeaf?]
  show (Fields.get? (Tree.toFields entries) name).bind (valueLeaf? rest) = _
  rw [get?_toFields, Option.bind_map]
  rfl

theorem keys_toFields (entries : Entries) :
    Fields.keys (Tree.toFields entries) = Fields.keys entries := by
  induction entries with
  | nil => rfl
  | cons entry rest ih =>
      obtain ⟨key, tree⟩ := entry
      rw [Tree.toFields, Fields.keys_cons, Fields.keys_cons, ih]

/-- Under every name of a plain tree there is a leaf, so a record with its leaves has its names. -/
theorem mem_keys_of_leaves {entries entries' : Entries} (h : Tree.Plain (.branch entries))
    (hleaves : ∀ names, valueLeaf? names (Tree.branch entries).toValue =
      valueLeaf? names (Tree.branch entries').toValue) {name : String}
    (hname : name ∈ Fields.keys entries) : name ∈ Fields.keys entries' := by
  obtain ⟨tree, hget⟩ := Fields.mem_keys.mp hname
  have hne : tree ≠ .branch [] := by
    rintro rfl
    exact h.ne_nil_of_get? hget rfl
  obtain ⟨names, v, hv⟩ := (h.get? hget).exists_valueLeaf hne
  have hsame := hleaves (name :: names)
  rw [valueLeaf?_cons, valueLeaf?_cons, hget, Option.bind_some, hv] at hsame
  obtain ⟨tree', hget', -⟩ := Option.bind_eq_some_iff.mp hsame.symm
  exact Fields.mem_keys.mpr ⟨tree', hget'⟩

/-- Plain trees with distinct names and the same leaves have grown into the same but for the order of
names. -/
theorem reordered_of_leaves {tree : Tree} (h : tree.Plain) :
    ∀ {tree' : Tree}, tree'.Plain → tree.Distinct → tree'.Distinct → tree ≠ .branch [] →
      tree' ≠ .branch [] →
      (∀ names, valueLeaf? names tree.toValue = valueLeaf? names tree'.toValue) →
      Reordered tree.toValue tree'.toValue := by
  -- a leaf is no record with entries
  have hend : ∀ {v : Value} {entries : Entries}, isTexts v = true → entries ≠ [] →
      valueLeaf? [] v ≠ valueLeaf? [] (Tree.branch entries).toValue := by
    intro v entries hv hne
    rw [valueLeaf?_of_isTexts hv, if_pos rfl]
    match entries, hne with
    | (_, _) :: _, _ => simp [Tree.toValue, Tree.toFields, valueLeaf?, Value.record?]
  induction h with
  | @leaf v hv =>
      intro tree' h' _ _ _ hne' hleaves
      cases tree' with
      | leaf w =>
          have hsame := hleaves []
          rw [Tree.toValue, Tree.toValue, valueLeaf?_of_isTexts hv, valueLeaf?_of_isTexts h'.isTexts,
            if_pos rfl, if_pos rfl] at hsame
          obtain rfl := Option.some.inj hsame
          exact .same _
      | branch entries' =>
          exact absurd (hleaves []) (hend hv fun hnil => hne' (by rw [hnil]))
      | slots elements => cases h'
  | @branch entries hplain hsome ih =>
      intro tree' h' hdistinct hdistinct' hne hne' hleaves
      cases tree' with
      | leaf w =>
          exact absurd (hleaves []).symm (hend h'.isTexts fun hnil => hne (by rw [hnil]))
      | branch entries' =>
          have h : Tree.Plain (.branch entries) := .branch hplain hsome
          refine reordered_record ?_ ?_ (fun name => ?_) (fun name v w hv hw => ?_)
          · rw [keys_toFields]
            exact hdistinct.nodup
          · rw [keys_toFields]
            exact hdistinct'.nodup
          · rw [keys_toFields, keys_toFields]
            exact ⟨mem_keys_of_leaves h hleaves,
              mem_keys_of_leaves h' fun names => (hleaves names).symm⟩
          · rw [get?_toFields] at hv hw
            obtain ⟨tree, hget, rfl⟩ := Option.map_eq_some_iff.mp hv
            obtain ⟨tree', hget', rfl⟩ := Option.map_eq_some_iff.mp hw
            refine ih name tree hget (h'.get? hget') (hdistinct.get? hget) (hdistinct'.get? hget')
              ?_ ?_ fun names => ?_
            · rintro rfl
              exact hsome name hget
            · rintro rfl
              exact h'.ne_nil_of_get? hget' rfl
            · have hsame := hleaves (name :: names)
              rwa [valueLeaf?_cons, valueLeaf?_cons, hget, hget'] at hsame
      | slots elements => cases h'

/-! ## Attributes with the same values -/

/-- The values below an attribute that are meant for names, a plain one being meant for equality. -/
def meantFor (names : List String) (qs : List (List String × Value)) : List Value :=
  (qs.filter fun q => orEquality q.1 = names).map (·.2)

/-- Names are distinct in what an attribute has for its operators when they are in what it holds. -/
theorem Holds.distinct_operatorsOf {qs : List (List String × Value)} {found : Option Tree}
    (h : Holds qs found) (hdistinct : ∀ tree, found = some tree → tree.Distinct) :
    Tree.Distinct (.branch (Params.operatorsOf found)) := by
  cases h with
  | nothing => exact Tree.distinct_nil
  | @plain qs v hbare hv hheld =>
      have hone : Tree.Distinct (.branch [(Operator.equals.name, .leaf v)]) :=
        Tree.distinct_nil.set Operator.equals.name (.leaf v)
      rcases text_or_list_of_isTexts hv with ⟨s, rfl⟩ | ⟨items, rfl⟩
      · exact hone
      · exact hone
  | operators => exact hdistinct _ rfl

/-- Names stay distinct in the tree of an attribute. -/
theorem Grown.distinct {ps : List Param} {entries : Entries} (h : Grown ps entries) {name : String}
    (hname : FilterKey.isBranch name = false) {tree : Tree}
    (hget : Fields.get? entries name = some tree) : tree.Distinct := by
  have hboth : Holds (Given.below name (ps.map Param.given)) (Fields.get? entries name) ∧
      ∀ tree, Fields.get? entries name = some tree → tree.Distinct := by
    refine @Grown.attributeInduction
      (fun qs found => Holds qs found ∧ ∀ tree, found = some tree → tree.Distinct)
      ⟨.nothing, fun _ hnone => absurd hnone (by simp)⟩ ?_ ps entries h name hname
    rintro qs found v below tree hv ⟨hholds, hdistinct⟩ hgraft
    refine ⟨hholds.graft hv hgraft, fun tree' htree => ?_⟩
    obtain rfl := Option.some.inj htree
    have hstart := hholds.distinct_operatorsOf hdistinct
    cases hgraft with
    | first => exact .leaf v
    | again => exact .leaf _
    | equality hput =>
        obtain ⟨earlier, -, -, rfl⟩ := exists_leaf_of_putValue hv hholds.operatorsOf.1 hput
        exact hstart.set _ (.leaf _)
    | operator hbelow hput => exact hstart.putBelow hv hholds.operatorsOf.1 hbelow hput
  exact hboth.2 tree hget

/-- An attribute that is given the same values for all names has grown into the same but for the order
of names. -/
theorem Holds.reordered {qs qs' : List (List String × Value)} {tree tree' : Tree}
    (h : Holds qs (some tree)) (h' : Holds qs' (some tree')) (hdistinct : tree.Distinct)
    (hdistinct' : tree'.Distinct) (hperm : qs.Perm qs')
    (hvalues : ∀ names, meantFor names qs = meantFor names qs') :
    Reordered tree.toValue tree'.toValue := by
  have hkinds : ∀ {qs qs' : List (List String × Value)}, qs.Perm qs' → (∃ q ∈ qs, q.1 ≠ []) →
      ¬∀ q ∈ qs', q.1 = [] := by
    rintro qs qs' hperm ⟨q, hq, hne⟩ hbare
    exact hne (hbare q (hperm.mem_iff.mp hq))
  cases h with
  | @plain qs v hbare hv hheld =>
      cases h' with
      | @plain qs' w hbare' hw hheld' =>
          have hall : ∀ {qs : List (List String × Value)}, (∀ q ∈ qs, q.1 = []) →
              meantFor [Operator.equals.name] qs = qs.map (·.2) := by
            intro qs hbare
            rw [meantFor, List.filter_eq_self.mpr fun q hq => by simp [hbare q hq, orEquality]]
          have hsame := hvalues [Operator.equals.name]
          rw [hall hbare, hall hbare'] at hsame
          rw [hsame, hheld'] at hheld
          obtain rfl := Option.some.inj hheld
          exact .same _
      | operators hsome => exact absurd hbare (hkinds hperm.symm hsome)
  | @operators qs entries hsome hplain hfind =>
      cases h' with
      | plain hbare' => exact absurd hbare' (hkinds hperm hsome)
      | @operators qs' entries' hsome' hplain' hfind' =>
          have hne := (Holds.operators hsome hplain hfind).ne_nil
          have hne' := (Holds.operators hsome' hplain' hfind').ne_nil
          refine reordered_of_leaves hplain hplain' hdistinct hdistinct' (by simpa using hne)
            (by simpa using hne') fun names => ?_
          have hsame := hvalues names
          rw [meantFor, meantFor] at hsame
          rw [Tree.toValue, Tree.toValue, valueLeaf?_toFields hplain hne,
            valueLeaf?_toFields hplain' hne', hfind, hfind', hsame]

/-! ## Trees of rearranged parameters -/

/-- The values given to a path, in order; an attribute that stands alone is spelled out. -/
def Given.spelledAt (g : Given) (path : Path) : List Value :=
  (g.filter fun q => q.1.spelledOut = path).map (·.2)

/-- The values given to a path inside an element are those given to it there. -/
theorem Given.spelledAt_within (g : Given) (element : Connective × Nat) (path : Path) :
    g.spelledAt (path.within element) = (under element g).spelledAt path := by
  refine map_filter_filterMap (fun q => ?_) (fun q r hr => ?_) g
  · simp only [decide_eq_true_eq, inside?_eq_some_iff]
    constructor
    · intro h
      have helements : q.1.elements = element :: path.elements :=
        (Path.elements_spelledOut q.1).symm.trans (congrArg Path.elements h)
      have hpath : q.1 = Path.within element ⟨path.elements, q.1.names⟩ := Path.ext helements rfl
      rw [hpath, Path.spelledOut_within] at h
      exact ⟨(⟨path.elements, q.1.names⟩, q.2), Prod.ext hpath rfl, within_injective h⟩
    · rintro ⟨r, rfl, rfl⟩
      exact Path.spelledOut_within element r.1
  · exact (congrArg Prod.snd (inside?_eq_some_iff.mp hr)).symm

/-- The values given to names of an attribute are those meant for them below it. -/
theorem Given.spelledAt_attribute (g : Given) (name : String) (names : List String) :
    g.spelledAt ⟨[], name :: names⟩ = meantFor names (below name g) := by
  refine map_filter_filterMap (fun q => ?_) (fun q r hr => ?_) g
  · simp only [decide_eq_true_eq, below?_eq_some_iff]
    constructor
    · obtain ⟨⟨elements, qnames⟩, v⟩ := q
      intro h
      cases qnames with
      | nil => exact absurd (congrArg Path.names h) (by simp [Path.spelledOut])
      | cons first rest =>
          rw [Path.spelledOut_attribute, Path.mk.injEq, List.cons.injEq] at h
          obtain ⟨rfl, rfl, hnames⟩ := h
          exact ⟨(rest, v), rfl, hnames⟩
    · rintro ⟨r, rfl, rfl⟩
      exact Path.spelledOut_attribute [] name r.1
  · exact (congrArg Prod.snd (below?_eq_some_iff.mp hr)).symm

/-- The two lists have the same parameters, and for each path the same values in the same order. -/
structure InOrder (ps ps' : List Param) : Prop where
  perm : ps.Perm ps'
  values : ∀ path : Path, path.names ≠ [] →
    Given.spelledAt (ps.map Param.given) path = Given.spelledAt (ps'.map Param.given) path

namespace InOrder

variable {ps ps' : List Param}

/-- Inside an element parameters are in the order in which they lead there. -/
theorem inside (h : InOrder ps ps') (element : Connective × Nat) :
    InOrder (ps.filterMap (Param.inside? element)) (ps'.filterMap (Param.inside? element)) := by
  refine ⟨h.perm.filterMap _, fun path hpath => ?_⟩
  rw [map_given_inside, map_given_inside, ← Given.spelledAt_within, ← Given.spelledAt_within]
  exact h.values _ hpath

/-- An attribute is given the same values, for each of its names in the same order. -/
theorem below (h : InOrder ps ps') (name : String) :
    (Given.below name (ps.map Param.given)).Perm (Given.below name (ps'.map Param.given)) ∧
      ∀ names, meantFor names (Given.below name (ps.map Param.given)) =
        meantFor names (Given.below name (ps'.map Param.given)) := by
  refine ⟨(h.perm.map _).filterMap _, fun names => ?_⟩
  rw [← Given.spelledAt_attribute, ← Given.spelledAt_attribute]
  exact h.values _ (by simp)

end InOrder

/-- What has grown has distinct names, those that the parameters begin with. -/
theorem Grown.keys {ps : List Param} {entries : Entries} (h : Grown ps entries) :
    (Fields.keys entries).Nodup ∧
      ∀ key, key ∈ Fields.keys entries ↔ ∃ p ∈ ps, p.segments.head? = some key := by
  induction h with
  | nil => exact ⟨List.nodup_nil, by simp [Fields.keys]⟩
  | @concat ps p entries entries' _ hv hne hassign ih =>
      obtain ⟨key, segments, v⟩ := p
      obtain ⟨segment, rest, rfl⟩ : ∃ segment rest, segments = segment :: rest :=
        List.exists_cons_of_ne_nil hne
      obtain ⟨tree, rfl⟩ := exists_set_of_assign hv hassign
      refine ⟨Fields.nodup_keys_set ih.1 segment tree, fun other => ?_⟩
      rw [Fields.mem_keys_set, ih.2]
      simp [or_and_right, exists_or, eq_comm]

/-- A group that has grown from parameters in two orders has the same indices in use, so it differs as
its elements do. -/
theorem InOrder.reordered_group {ps ps' : List Param} {entries entries' : Entries}
    (horder : InOrder ps ps') (h : Grown ps entries) (h' : Grown ps' entries') {c : Connective}
    (hinside : ∀ {index : Nat} {element element' : Entries},
      Grown (ps.filterMap (Param.inside? (c, index))) element →
      Grown (ps'.filterMap (Param.inside? (c, index))) element' →
      Reordered (.record (Tree.toFields element)) (.record (Tree.toFields element'))) {v w : Value}
    (hv : Fields.get? (Tree.toFields entries) c.word = some v)
    (hw : Fields.get? (Tree.toFields entries') c.word = some w) : Reordered v w := by
  have hlist : ∀ {entries : Entries} {slots : Slots} {v : Value}, slotsOf entries c.word = .ok slots →
      Fields.get? (Tree.toFields entries) c.word = some v →
      v = .list ((slots.map fun slot => Tree.toFields slot.2).map .record) := by
    intro entries slots v hslots hv
    rcases get?_toFields_word hslots with hget | ⟨hget, -⟩
    · exact Option.some.inj (hv.symm.trans hget)
    · exact absurd (hv.symm.trans hget) (by simp)
  obtain ⟨slots, hslots, hgroup⟩ := h.group c
  obtain ⟨slots', hslots', hgroup'⟩ := h'.group c
  have hindices : slots.map Prod.fst = slots'.map Prod.fst := by
    refine hgroup.sorted.eq_of_mem_iff hgroup'.sorted fun index => ?_
    rw [hgroup.used, hgroup'.used]
    simp only [(horder.perm.map Param.given).mem_iff]
  rw [hlist hslots hv, hlist hslots' hw, hgroup.map_toFields_eq, hgroup'.map_toFields_eq, ← hindices]
  exact reordered_records fun index _ => hinside (hgroup.inside index) (hgroup'.inside index)

/-- An attribute that has grown from parameters in two orders differs in the order of names alone. -/
theorem InOrder.reordered_attribute {ps ps' : List Param} {entries entries' : Entries}
    (horder : InOrder ps ps') (h : Grown ps entries) (h' : Grown ps' entries') {name : String}
    (hname : FilterKey.isBranch name = false) {v w : Value}
    (hv : Fields.get? (Tree.toFields entries) name = some v)
    (hw : Fields.get? (Tree.toFields entries') name = some w) : Reordered v w := by
  rw [get?_toFields] at hv hw
  obtain ⟨tree, hget, rfl⟩ := Option.map_eq_some_iff.mp hv
  obtain ⟨tree', hget', rfl⟩ := Option.map_eq_some_iff.mp hw
  have hholds := h.attribute hname
  have hholds' := h'.attribute hname
  rw [hget] at hholds
  rw [hget'] at hholds'
  obtain ⟨hperm, hvalues⟩ := horder.below name
  exact hholds.reordered hholds' (h.distinct hname hget) (h'.distinct hname hget') hperm hvalues

/-- What has grown from parameters in two orders differs in the order of names alone. -/
theorem reordered_of_grown (bound : Nat) :
    ∀ {ps ps' : List Param} {entries entries' : Entries}, Grown ps entries → Grown ps' entries' →
      InOrder ps ps' → (∀ p ∈ ps, p.segments.length < bound) →
      Reordered (.record (Tree.toFields entries)) (.record (Tree.toFields entries')) := by
  induction bound using Nat.strong_induction_on with
  | _ bound ih =>
      intro ps ps' entries entries' h h' horder hbound
      refine reordered_record ?_ ?_ (fun key => ?_) (fun key v w hv hw => ?_)
      · rw [keys_toFields]
        exact h.keys.1
      · rw [keys_toFields]
        exact h'.keys.1
      · rw [keys_toFields, keys_toFields, h.keys.2, h'.keys.2]
        simp only [horder.perm.mem_iff]
      · cases hword : Connective.ofWord? key with
        | none => exact horder.reordered_attribute h h' (FilterKey.isBranch_eq_false.mpr hword) hv hw
        | some c =>
            obtain rfl := Connective.word_of_ofWord? hword
            have hkey : c.word ∈ Fields.keys entries := by
              rw [← keys_toFields]
              exact Fields.mem_keys.mpr ⟨v, hv⟩
            obtain ⟨p, hp, -⟩ := (h.keys.2 c.word).mp hkey
            have hpos : 0 < bound := (Nat.zero_le _).trans_lt (hbound p hp)
            -- an element has grown from what leads into it, which is in order too
            refine horder.reordered_group h h' (fun {index} _ _ hin hin' => ?_) hv hw
            exact ih (bound - 1) (by omega) hin hin' (horder.inside (c, index))
              (length_inside_lt hbound (c, index))

/-! ## Rearranged parameters -/

/-- What is given to a path comes in the order of the parameters with this path. -/
theorem spelledAt_given (params : Fields) (path : Path) :
    Given.spelledAt (given params) path =
      ((params.filter fun param => reached param.1 = path).filter
        fun param => !param.2.isNull).map (·.2) := by
  rw [Given.spelledAt, given, List.filter_map, List.map_map, List.filter_filter, List.filter_filter]
  refine congrArg (List.map _) (List.filter_congr fun param _ => ?_)
  exact Bool.and_comm _ _

/-- Rearranged parameters give the same values to each path in the same order. -/
theorem Rearranged.inOrder {params params' : Fields} (h : Rearranged params params') :
    InOrder (paramsOf params) (paramsOf params') := by
  refine ⟨(h.perm.filter _).map _, fun path hpath => ?_⟩
  rw [map_given_paramsOf, map_given_paramsOf, spelledAt_given, spelledAt_given, h.order path hpath]

/-- **The order of query parameters does not matter.** When texts, lists of texts and absent values are
rearranged, those of one path keeping their order, they are refused as before or grow into the same
but for the order of names. -/
theorem parse_rearranged {params params' : Fields}
    (hvalues : ∀ param ∈ params, param.2.isNull = true ∨ isTexts param.2 = true)
    (h : Rearranged params params') :
    (∃ e e', parse params = .error e ∧ parse params' = .error e') ∨
      ∃ fields fields', parse params = .ok fields ∧ parse params' = .ok fields' ∧
        Reordered (.record fields) (.record fields') := by
  have hvalues' : ∀ param ∈ params', param.2.isNull = true ∨ isTexts param.2 = true :=
    fun param hparam => hvalues param (h.perm.mem_iff.mpr hparam)
  have hperm := h.inOrder.perm
  have hiff : (∃ fields, parse params = .ok fields) ↔ ∃ fields, parse params' = .ok fields := by
    rw [exists_parse_iff hvalues, exists_parse_iff hvalues', hperm.pairwise_iff fun hno hclash =>
      hno hclash.symm]
    simp only [hperm.mem_iff]
  cases hparse : parse params with
  | error e =>
      cases hparse' : parse params' with
      | error e' => exact .inl ⟨e, e', rfl, rfl⟩
      | ok fields' =>
          rw [hparse, hparse'] at hiff
          exact absurd (hiff.mpr ⟨fields', rfl⟩) (by simp)
  | ok fields =>
      obtain ⟨fields', hparse'⟩ := hiff.mp ⟨fields, hparse⟩
      refine .inr ⟨fields, fields', rfl, hparse', ?_⟩
      rw [parse] at hparse hparse'
      obtain ⟨entries, hgrow, rfl⟩ := map_eq_ok_iff.mp hparse
      obtain ⟨entries', hgrow', rfl⟩ := map_eq_ok_iff.mp hparse'
      refine reordered_of_grown (((paramsOf params).map fun p => p.segments.length).sum + 1)
        (Grown.growFrom .nil hvalues hgrow) (Grown.growFrom .nil hvalues' hgrow') h.inOrder
        fun p hp => ?_
      exact Nat.lt_succ_of_le (List.le_sum_of_mem (List.mem_map_of_mem hp))

/-- Parameters for two elements of a group and for an attribute with two operators, of which one also
has a plain value. -/
def mixedParams : Fields :=
  [("age[gt]", .text "3"), ("or.1.name", .text "Ada"), ("age", .text "7"),
    ("or[0].name", .text "Bo"), ("age.eq", .text "8")]

/-- The mixed parameters in another order, the plain value still before the one for equality. -/
def movedParams : Fields :=
  [("or[0].name", .text "Bo"), ("age", .text "7"), ("or.1.name", .text "Ada"),
    ("age.eq", .text "8"), ("age[gt]", .text "3")]

/-- The nested form of the mixed parameters. -/
def mixedNested : Fields :=
  [("age", .record [("gt", .text "3"), ("eq", .list [.text "7", .text "8"])]),
    ("or", .list [.record [("name", .text "Bo")], .record [("name", .text "Ada")]])]

/-- The mixed parameters grow into the same in both orders, but for the order of names. -/
theorem mixedParams_rearranged :
    (∀ param ∈ mixedParams, param.2.isNull = true ∨ isTexts param.2 = true) ∧
      Rearranged mixedParams movedParams ∧ parse mixedParams = .ok mixedNested ∧
      ∃ fields, parse movedParams = .ok fields ∧ Reordered (.record mixedNested) (.record fields) := by
  have hvalues : ∀ param ∈ mixedParams, param.2.isNull = true ∨ isTexts param.2 = true := by decide
  have hmoved : Rearranged mixedParams movedParams :=
    .of_forall_mem (by decide +kernel) (by decide +kernel)
  have hparse : parse mixedParams = .ok mixedNested := by decide +kernel
  refine ⟨hvalues, hmoved, hparse, ?_⟩
  rcases parse_rearranged hvalues hmoved with ⟨e, e', herror, -⟩ | ⟨fields, fields', hok, hok', hsame⟩
  · rw [hparse] at herror
    exact absurd herror (by simp)
  · rw [hparse] at hok
    obtain rfl := Except.ok.inj hok
    exact ⟨fields', hok', hsame⟩

end RecordQuery.Params
