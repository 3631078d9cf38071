import RecordQuery.Proofs.Params.Collecting
/-!
# Conflicts between query parameters

Query parameters are taken when each of them can be taken alone and no two of them conflict
(`exists_parse_iff`). Two conflict when they lead into the same group elements and there one of them
puts a value on the way of the other. A conflict is found by whichever of the two comes later, but it
does not depend on their order: a plain value of an attribute is on the way of what is nested under
the operator for equality, and of nothing else.
-/

namespace RecordQuery.Params

/-! ## Paths that cross -/

/-- One of two different paths leads over the end of the other. -/
def Crosses (names others : List String) : Prop :=
  names ≠ others ∧ (names <+: others ∨ others <+: names)

theorem Crosses.symm {names others : List String} (h : Crosses names others) :
    Crosses others names :=
  ⟨h.1.symm, h.2.symm⟩

theorem not_crosses_self (names : List String) : ¬Crosses names names := fun h => h.1 rfl

theorem crosses_nil_iff {others : List String} : Crosses [] others ↔ others ≠ [] := by
  simp [Crosses, eq_comm]

/-- Paths that begin with names cross when they begin with the same and go on to cross. -/
theorem crosses_cons_iff {name other : String} {names others : List String} :
    Crosses (name :: names) (other :: others) ↔ name = other ∧ Crosses names others := by
  simp only [Crosses, ne_eq, List.cons.injEq, List.cons_prefix_cons]
  constructor
  · rintro ⟨hne, ⟨rfl, h⟩ | ⟨rfl, h⟩⟩
    · exact ⟨rfl, fun heq => hne ⟨rfl, heq⟩, .inl h⟩
    · exact ⟨rfl, fun heq => hne ⟨rfl, heq⟩, .inr h⟩
  · rintro ⟨rfl, hne, h⟩
    exact ⟨fun heq => hne heq.2, h.imp (⟨rfl, ·⟩) (⟨rfl, ·⟩)⟩

namespace Path

/-- The path with the name for equality behind an attribute that stands alone. -/
def spelledOut (p : Path) : Path :=
  if p.names.length = 1 then { p with names := p.names ++ [Operator.equals.name] } else p

theorem elements_spelledOut (p : Path) : p.spelledOut.elements = p.elements := by
  rw [spelledOut]
  split <;> rfl

theorem spelledOut_attribute (elements : List (Connective × Nat)) (name : String)
    (below : List String) :
    spelledOut ⟨elements, name :: below⟩ = ⟨elements, name :: orEquality below⟩ := by
  cases below <;> rfl

theorem spelledOut_within (element : Connective × Nat) (p : Path) :
    (p.within element).spelledOut = p.spelledOut.within element := by
  rw [spelledOut, spelledOut]
  have hnames : (p.within element).names = p.names := rfl
  rw [hnames]
  split <;> rfl

/-- Two parameters with these paths are not taken together: in the same element one puts a value on
the way of the other. A group as a whole is on nobody's way. -/
def Clash (p q : Path) : Prop :=
  p.elements = q.elements ∧ p.names ≠ [] ∧ q.names ≠ [] ∧
    Crosses p.spelledOut.names q.spelledOut.names

theorem Clash.symm {p q : Path} (h : Clash p q) : Clash q p :=
  ⟨h.1.symm, h.2.2.1, h.2.1, h.2.2.2.symm⟩

theorem clash_within_iff {element : Connective × Nat} {p q : Path} :
    Clash (p.within element) (q.within element) ↔ Clash p q := by
  rw [Clash, Clash, spelledOut_within, spelledOut_within]
  simp [within]

theorem clash_attribute_iff {name other : String} {below below' : List String} :
    Clash ⟨[], name :: below⟩ ⟨[], other :: below'⟩ ↔
      name = other ∧ Crosses (orEquality below) (orEquality below') := by
  rw [Clash, spelledOut_attribute, spelledOut_attribute, crosses_cons_iff]
  simp

end Path

/-! ## Taking a value under names -/

/-- No value is found on the way along names, and none beyond their end. -/
def Free (names : List String) (entries : Entries) : Prop :=
  ∀ other v, find other entries = some v → ¬Crosses names other

theorem free_nil (names : List String) : Free names [] := by
  intro other v hfind
  rw [find_nil] at hfind
  exact absurd hfind (by simp)

section

variable {name : String} {rest : List String} {entries : Entries}

/-- Names are free when they are from their first one on. -/
theorem free_cons_iff :
    Free (name :: rest) entries ↔
      ∀ other v, find (name :: other) entries = some v → ¬Crosses rest other := by
  constructor
  · intro h other v hfind hcross
    exact h (name :: other) v hfind (crosses_cons_iff.mpr ⟨rfl, hcross⟩)
  · intro h other v hfind hcross
    cases other with
    | nil => exact absurd hfind (by simp [find])
    | cons first later =>
        obtain ⟨rfl, hlater⟩ := crosses_cons_iff.mp hcross
        exact h later v hfind hlater

theorem free_of_get?_none (hget : Fields.get? entries name = none) : Free (name :: rest) entries := by
  rw [free_cons_iff]
  intro other v hfind
  rw [find, hget] at hfind
  exact absurd hfind (by simp)

/-- Beyond a value nothing is free. -/
theorem free_iff_of_leaf {u : Value} (hget : Fields.get? entries name = some (.leaf u)) :
    Free (name :: rest) entries ↔ rest = [] := by
  rw [free_cons_iff]
  have hfind : ∀ other v, find (name :: other) entries = some v ↔ other = [] ∧ u = v := by
    intro other v
    simp [find, hget]
  simp only [hfind]
  constructor
  · intro h
    by_contra hrest
    exact h [] u ⟨rfl, rfl⟩ (crosses_nil_iff.mpr hrest).symm
  · rintro rfl other v ⟨rfl, -⟩
    exact not_crosses_self []

theorem free_iff_of_branch {below : Entries} (hget : Fields.get? entries name = some (.branch below)) :
    Free (name :: rest) entries ↔ Free rest below := by
  rw [free_cons_iff]
  simp only [Free, find, hget]

end

/-- There is a value in a plain tree that has entries. -/
theorem Tree.Plain.exists_find {tree : Tree} (h : tree.Plain) :
    ∀ {entries : Entries}, tree = .branch entries → entries ≠ [] →
      ∃ names v, find names entries = some v := by
  induction h with
  | leaf _ => exact fun heq => absurd heq (by simp)
  | @branch entries hplain hsome ih =>
      intro entries' heq hne
      obtain rfl := Tree.branch.inj heq
      match entries, hne with
      | (name, tree) :: rest, _ =>
          have hget : Fields.get? ((name, tree) :: rest) name = some tree := by
            rw [Fields.get?_cons, if_pos rfl]
          cases tree with
          | leaf v => exact ⟨[name], v, by simp [find, hget]⟩
          | branch below =>
              have hbelow : below ≠ [] := by
                rintro rfl
                exact hsome name hget
              obtain ⟨names, v, hfind⟩ := ih name _ hget rfl hbelow
              exact ⟨name :: names, v, by simp [find, hget, hfind]⟩
          | slots elements => cases hplain name _ hget

/-- Every value of a tree stands beyond its root. -/
theorem not_free_nil {entries : Entries} (hplain : Tree.Plain (.branch entries)) (hne : entries ≠ []) :
    ¬Free [] entries := by
  obtain ⟨names, v, hfind⟩ := hplain.exists_find rfl hne
  intro hfree
  refine hfree names v hfind (crosses_nil_iff.mpr ?_)
  rintro rfl
  exact absurd hfind (by simp [find])

section

variable {entries : Entries} {v : Value}

/-- A value is taken under a segment when nothing is nested there. -/
theorem exists_putValue_iff (hplain : Tree.Plain (.branch entries)) (segment : String) :
    (∃ entries', putValue entries segment v = .ok entries') ↔ Free [segment] entries := by
  rw [putValue]
  cases hget : Fields.get? entries segment with
  | none => exact iff_of_true ⟨_, rfl⟩ (free_of_get?_none hget)
  | some tree =>
      cases tree with
      | leaf earlier => exact iff_of_true ⟨_, rfl⟩ ((free_iff_of_leaf hget).mpr rfl)
      | branch below =>
          refine iff_of_false (by simp) ?_
          rw [free_iff_of_branch hget]
          exact not_free_nil (hplain.get? hget) (hplain.ne_nil_of_get? hget)
      | slots elements => cases hplain.get? hget

/-- A value is taken at the end of a path when no segment of it is empty and it is free. -/
theorem exists_putBelow_iff {segments : List String} (hne : segments ≠ []) :
    ∀ {entries : Entries}, Tree.Plain (.branch entries) →
      ((∃ entries', putBelow v segments entries = .ok entries') ↔
        "" ∉ segments ∧ Free segments entries) := by
  induction segments with
  | nil => exact absurd rfl hne
  | cons segment rest ih =>
      intro entries hplain
      rw [putBelow]
      by_cases hsegment : segment = ""
      · rw [if_pos hsegment, hsegment]
        exact iff_of_false (by simp) (by simp)
      · have hmem : "" ∉ segment :: rest ↔ "" ∉ rest := by simp [Ne.symm hsegment]
        rw [if_neg hsegment, hmem]
        by_cases hrest : rest = []
        · rw [hrest, if_pos List.isEmpty_nil, exists_putValue_iff hplain]
          simp
        · rw [if_neg (by simpa using hrest)]
          -- what is here bars the way, or the rest of the path goes on below it
          cases hget : Fields.get? entries segment with
          | none =>
              rw [exists_bind_pure_iff, ih hrest Tree.plain_nil]
              exact and_congr_right fun _ => iff_of_true (free_nil rest) (free_of_get?_none hget)
          | some tree =>
              cases tree with
              | leaf u =>
                  have hbarred : ¬("" ∉ rest ∧ Free (segment :: rest) entries) := fun h =>
                    hrest ((free_iff_of_leaf hget).mp h.2)
                  rcases text_or_list_of_isTexts (hplain.get? hget).isTexts with
                    ⟨s, rfl⟩ | ⟨items, rfl⟩
                  · exact iff_of_false (by simp) hbarred
                  · exact iff_of_false (by simp) hbarred
              | branch below =>
                  rw [exists_bind_pure_iff, ih hrest (hplain.get? hget), free_iff_of_branch hget]
              | slots elements => cases hplain.get? hget

end

/-- Below an attribute names are free when they cross none of those that values have been given
to. -/
theorem Holds.free_iff {qs : List (List String × Value)} {found : Option Tree}
    (h : Holds qs found) {names : List String} :
    Free names (Params.operatorsOf found) ↔ ∀ q ∈ qs, ¬Crosses names (orEquality q.1) := by
  simp only [Free, h.operatorsOf.2, held_map_filter_eq_some_iff, decide_eq_true_eq]
  constructor
  · intro hfree q hq
    exact hfree (orEquality q.1) _ ⟨q, hq, rfl, rfl⟩
  · rintro hclear other v ⟨q, hq, rfl, -⟩
    exact hclear q hq

/-- A value is taken by an attribute when its path there is well-formed and crosses none of those
that values have been given to, a plain value counting as one for equality. -/
theorem exists_putPath_iff {entries : Entries} {v : Value} {qs : List (List String × Value)}
    {name : String} {rest : List String} (h : Holds qs (Fields.get? entries name)) :
    (∃ entries', putPath v name rest entries = .ok entries') ↔
      (name ≠ "" ∧ "" ∉ dropMarks rest) ∧
        ∀ q ∈ qs, ¬Crosses (orEquality (dropMarks rest)) (orEquality q.1) := by
  rw [putPath, ← h.free_iff]
  by_cases hname : name = ""
  · rw [if_pos hname]
    exact iff_of_false (by simp) fun hgood => hgood.1.1 hname
  · rw [if_neg hname]
    dsimp only
    simp only [ne_eq, hname, not_false_eq_true, true_and]
    by_cases hbelow : dropMarks rest = []
    · rw [if_pos (by simp [hbelow]), hbelow, orEquality, if_pos rfl, putAttribute]
      simp only [List.not_mem_nil, not_false_eq_true, true_and]
      cases hget : Fields.get? entries name with
      | none =>
          rw [putValue, hget]
          exact iff_of_true ⟨_, rfl⟩ (free_nil _)
      | some tree =>
          rw [hget] at h
          cases tree with
          | leaf u =>
              rw [putValue, hget, h.free_iff]
              refine iff_of_true ⟨_, rfl⟩ fun q hq => ?_
              cases h with
              | plain hbare =>
                  rw [hbare q hq]
                  exact not_crosses_self _
          | branch operators =>
              dsimp only
              rw [exists_bind_pure_iff]
              exact exists_putValue_iff h.operatorsOf.1 _
          | slots elements => cases h
    · rw [if_neg (by simpa using hbelow), exists_map_iff, orEquality, if_neg hbelow]
      exact exists_putBelow_iff hbelow h.operatorsOf.1

/-! ## Taking a parameter -/

section

variable {g : Given}

/-- A path inside an element clashes with those inside it. -/
theorem forall_not_clash_within_iff {element : Connective × Nat} {p : Path} :
    (∀ q ∈ g, ¬(p.within element).Clash q.1) ↔ ∀ q ∈ Given.under element g, ¬p.Clash q.1 := by
  constructor
  · intro h q hq hclash
    exact h _ (Given.mem_under_iff.mp hq) (Path.clash_within_iff.mpr hclash)
  · rintro h ⟨q, v⟩ hq hclash
    have hpath : q = Path.within element ⟨p.elements, q.names⟩ := Path.ext hclash.1.symm rfl
    rw [hpath] at hq hclash
    exact h _ (Given.mem_under_iff.mpr hq) (Path.clash_within_iff.mp hclash)

/-- The path of an attribute clashes with those of the same attribute. -/
theorem forall_not_clash_attribute_iff {name : String} {below : List String} :
    (∀ q ∈ g, ¬Path.Clash ⟨[], name :: below⟩ q.1) ↔
      ∀ q ∈ Given.below name g, ¬Crosses (orEquality below) (orEquality q.1) := by
  constructor
  · intro h q hq hcross
    exact h _ (Given.mem_below_iff.mp hq) (Path.clash_attribute_iff.mpr ⟨rfl, hcross⟩)
  · rintro h ⟨⟨elements, names⟩, v⟩ hq hclash
    obtain rfl : [] = elements := hclash.1
    cases names with
    | nil => exact hclash.2.2.1 rfl
    | cons other below' =>
        obtain ⟨rfl, hcross⟩ := Path.clash_attribute_iff.mp hclash
        exact h (below', v) (Given.mem_below_iff.mpr hq) hcross

end

/-- A parameter is taken by what has grown from others when it is taken alone and clashes with none
of them. -/
theorem exists_assign_iff {key : String} {v : Value} (hv : isTexts v = true) (bound : Nat) :
    ∀ {segments : List String} {ps : List Param} {entries : Entries}, segments.length < bound →
      segments ≠ [] → Grown ps entries →
      ((∃ entries', assign key v segments entries = .ok entries') ↔
        (∃ entries', assign key v segments [] = .ok entries') ∧
          ∀ q ∈ ps.map Param.given, ¬(pathOf segments).Clash q.1) := by
  induction bound with
  | zero => exact fun hlt => absurd hlt (Nat.not_lt_zero _)
  | succ bound ih =>
      intro segments ps entries hlt hne h
      cases henter : enter? segments with
      | some route =>
          obtain ⟨⟨c, index⟩, inner⟩ := route
          obtain ⟨hinner, hshorter⟩ := inner_of_enter? henter
          obtain ⟨slots, hslots, hgroup⟩ := h.group c
          have hlt' : inner.length < bound := by omega
          -- inside the element the question is the same, with what leads into it
          have hstep := ih hlt' hinner (hgroup.inside index)
          have hnone : slotsOf [] c.word = .ok [] := rfl
          rw [map_given_inside, ← forall_not_clash_within_iff, ← pathOf_of_enter? henter] at hstep
          rw [assign_of_enter? henter, assign_of_enter? henter, hslots, hnone, refuse, refuse, ok_bind,
            ok_bind, exists_bind_pure_iff, exists_bind_pure_iff]
          exact hstep
      | none =>
          obtain ⟨segment, rest, rfl⟩ := List.exists_cons_of_ne_nil hne
          cases hword : Connective.ofWord? segment with
          | none =>
              have hbranch := FilterKey.isBranch_eq_false.mpr hword
              have hpath : pathOf (segment :: rest) = ⟨[], segment :: dropMarks rest⟩ := by
                rw [pathOf, hword]
              have hput : ∀ entries : Entries,
                  (∃ entries', assign key v (segment :: rest) entries = .ok entries') ↔
                    ∃ entries', putPath v segment rest entries = .ok entries' := by
                intro entries
                rw [assign, if_neg (by simp [hbranch])]
                simp only [refuse_eq_ok_iff]
              have hempty : Holds [] (Fields.get? ([] : Entries) segment) := .nothing
              rw [hput, hput, exists_putPath_iff (h.attribute hbranch), exists_putPath_iff hempty,
                hpath, forall_not_clash_attribute_iff]
              simp
          | some c =>
              obtain rfl := Connective.word_of_ofWord? hword
              obtain ⟨slots, hslots, -⟩ := h.group c
              rw [assign_of_group hv henter, hslots, refuse, ok_bind, exists_bind_pure_iff,
                pathOf_word_of_not_enter? henter]
              -- a group as a whole has no names to clash with
              exact (and_iff_left fun q _ hclash => hclash.2.1 rfl).symm

/-! ## Taking all parameters -/

namespace Param

/-- The parameter can be taken where there is no other one. -/
def Taken (p : Param) : Prop :=
  p.segments ≠ [] ∧ ∃ entries, assign p.key p.value p.segments [] = .ok entries

/-- The two parameters are not taken together. -/
def Clash (p q : Param) : Prop :=
  p.given.1.Clash q.given.1

theorem Clash.symm {p q : Param} (h : p.Clash q) : q.Clash p :=
  Path.Clash.symm h

end Param

/-- What has grown takes one more parameter when it can be taken alone and clashes with no earlier
one. -/
theorem Grown.exists_assign_iff {ps : List Param} {p : Param} {entries : Entries}
    (h : Grown ps entries) (hv : isTexts p.value = true) :
    (p.segments ≠ [] ∧ ∃ entries', assign p.key p.value p.segments entries = .ok entries') ↔
      p.Taken ∧ ∀ q ∈ ps, ¬p.Clash q := by
  rw [Param.Taken, and_assoc, and_congr_right_iff]
  intro hne
  rw [Params.exists_assign_iff hv _ (Nat.lt_succ_self _) hne h, List.forall_mem_map]
  rfl

/-- Parameters are taken when each of them can be taken alone, none clashes with those before and no
two of them clash. -/
theorem exists_growFrom_iff {params : Fields} :
    ∀ {ps : List Param} {entries : Entries}, Grown ps entries →
      (∀ param ∈ params, param.2.isNull = true ∨ isTexts param.2 = true) →
      ((∃ entries', growFrom entries params = .ok entries') ↔
        (∀ p ∈ paramsOf params, p.Taken) ∧ (∀ p ∈ paramsOf params, ∀ q ∈ ps, ¬p.Clash q) ∧
          (paramsOf params).Pairwise fun p q => ¬p.Clash q) := by
  induction params with
  | nil =>
      intro ps entries _ _
      exact iff_of_true ⟨entries, rfl⟩ ⟨by simp [paramsOf], by simp [paramsOf], .nil⟩
  | cons param rest ih =>
      intro ps entries h hvalues
      rw [List.forall_mem_cons] at hvalues
      obtain ⟨hv, hrest⟩ := hvalues
      obtain ⟨key, v⟩ := param
      rcases hv with hnull | hv
      · obtain rfl : v = .null := Value.isNull_iff.mp hnull
        exact ih h hrest
      · have hfirst := @Grown.exists_assign_iff ps ⟨key, segmentsOf key, v⟩ entries h hv
        rw [paramsOf_cons_of_isTexts hv, List.forall_mem_cons, List.forall_mem_cons,
          List.pairwise_cons]
        simp only [growFrom_cons_eq_ok_iff hv]
        constructor
        · rintro ⟨entries', hne, next, hassign, hgrow⟩
          obtain ⟨htaken, hclear⟩ := hfirst.mp ⟨hne, next, hassign⟩
          have hnext : Grown (ps ++ [⟨key, segmentsOf key, v⟩]) next := .concat h hv hne hassign
          obtain ⟨hall, hearlier, hpairs⟩ := (ih hnext hrest).mp ⟨entries', hgrow⟩
          refine ⟨⟨htaken, hall⟩, ⟨hclear, fun p hp q hq => ?_⟩, fun p hp hclash => ?_, hpairs⟩
          · exact hearlier p hp q (List.mem_append_left _ hq)
          · exact hearlier p hp _ (List.mem_append_right _ List.mem_cons_self) hclash.symm
        · rintro ⟨⟨htaken, hall⟩, ⟨hclear, hearlier⟩, hfirst', hpairs⟩
          obtain ⟨hne, next, hassign⟩ := hfirst.mpr ⟨htaken, hclear⟩
          have hnext : Grown (ps ++ [⟨key, segmentsOf key, v⟩]) next := .concat h hv hne hassign
          have hboth : ∀ p ∈ paramsOf rest, ∀ q ∈ ps ++ [⟨key, segmentsOf key, v⟩], ¬p.Clash q := by
            intro p hp
            rw [List.forall_mem_append, List.forall_mem_singleton]
            exact ⟨hearlier p hp, fun hclash => hfirst' p hp hclash.symm⟩
          obtain ⟨entries', hgrow⟩ := (ih hnext hrest).mpr ⟨hall, hboth, hpairs⟩
          exact ⟨entries', hne, next, hassign, hgrow⟩

/-- **Query parameters are taken pair by pair.** Texts, lists of texts and absent values are nested
when each parameter with a value can be taken alone and no two of them clash. -/
theorem exists_parse_iff {params : Fields}
    (hvalues : ∀ param ∈ params, param.2.isNull = true ∨ isTexts param.2 = true) :
    (∃ fields, parse params = .ok fields) ↔
      (∀ p ∈ paramsOf params, p.Taken) ∧ (paramsOf params).Pairwise fun p q => ¬p.Clash q := by
  rw [parse, exists_map_iff, exists_growFrom_iff .nil hvalues]
  simp

end RecordQuery.Params
