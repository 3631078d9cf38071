import RecordQuery.Proofs.Params.Attributes
/-!
# How parameter trees grow

Growth is local. A parameter that leads into a group element changes the tree of that element alone,
and there it acts as it would at the top; a parameter for an attribute changes what that attribute
holds (`Change`). So an element holds what the parameters that lead into it grow into
(`Grown.group`), and an attribute the values that are given to it (`Grown.attribute`), whatever else
has been put into the tree between them.
-/

namespace RecordQuery.Params

/-! ## Routes -/

/-- The name of an attribute is the word of no group. -/
theorem word_ne_of_not_isBranch {name : String} (h : FilterKey.isBranch name = false)
    (c : Connective) : c.word ≠ name := by
  rintro rfl
  rw [FilterKey.isBranch_word] at h
  exact absurd h (by simp)

/-- The group element that segments lead into, and the segments inside it. Without an index it is the
first element; a group as a whole has no element. -/
def enter? : List String → Option ((Connective × Nat) × List String)
  | segment :: first :: later =>
    match Connective.ofWord? segment with
    | none => none
    | some c =>
      if isIndex first then
        match readIndex first with
        | .ok index => if later = [] then none else some ((c, index), later)
        | .error _ => none
      else some ((c, 0), first :: later)
  | _ => none

/-- Segments lead into an element by an index with more segments behind it, or without an index into
the first one. -/
theorem enter?_cases {segments inner : List String} {c : Connective} {index : Nat}
    (h : enter? segments = some ((c, index), inner)) :
    (∃ first, segments = c.word :: first :: inner ∧ isIndex first = true ∧
      readIndex first = .ok index ∧ inner ≠ []) ∨
    ∃ first later, segments = c.word :: first :: later ∧ isIndex first = false ∧ index = 0 ∧
      inner = first :: later := by
  match segments with
  | [] => exact absurd h (by simp [enter?])
  | [segment] => exact absurd h (by simp [enter?])
  | segment :: first :: later =>
      cases hword : Connective.ofWord? segment with
      | none =>
          rw [enter?, hword] at h
          exact absurd h (by simp)
      | some d =>
          obtain rfl := Connective.word_of_ofWord? hword
          simp only [enter?, hword] at h
          by_cases hindex : isIndex first = true
          · rw [if_pos hindex] at h
            cases hread : readIndex first with
            | error e =>
                rw [hread] at h
                exact absurd h (by simp)
            | ok i =>
                simp only [hread, Option.ite_none_left_eq_some, Option.some.injEq,
                  Prod.mk.injEq] at h
                obtain ⟨hlater, ⟨rfl, rfl⟩, rfl⟩ := h
                exact .inl ⟨first, rfl, hindex, hread, hlater⟩
          · simp only [if_neg hindex, Option.some.injEq, Prod.mk.injEq] at h
            obtain ⟨⟨rfl, rfl⟩, rfl⟩ := h
            exact .inr ⟨first, later, rfl, Bool.eq_false_iff.mpr hindex, rfl, rfl⟩

/-- Segments of a group that lead into no element stop at the group, or at an index. -/
theorem not_enter?_cases {c : Connective} {rest : List String}
    (h : enter? (c.word :: rest) = none) :
    rest = [] ∨ ∃ first later, rest = first :: later ∧ isIndex first = true ∧
      ∀ index, readIndex first = .ok index → later = [] := by
  match rest with
  | [] => exact .inl rfl
  | first :: later =>
      simp only [enter?, Connective.ofWord?_word] at h
      by_cases hindex : isIndex first = true
      · refine .inr ⟨first, later, rfl, hindex, fun index hread => ?_⟩
        by_contra hlater
        rw [if_pos hindex, hread] at h
        exact absurd h (by simp [hlater])
      · rw [if_neg hindex] at h
        exact absurd h (by simp)

/-- The path of segments that lead into an element goes on inside it. -/
theorem pathOf_of_enter? {segments inner : List String} {element : Connective × Nat}
    (h : enter? segments = some (element, inner)) :
    pathOf segments = (pathOf inner).within element := by
  obtain ⟨c, index⟩ := element
  rcases enter?_cases h with ⟨first, rfl, hindex, hread, hinner⟩ |
    ⟨first, later, rfl, hindex, rfl, rfl⟩
  · rw [pathOf, Connective.ofWord?_word]
    simp only [hindex, hread, if_true, if_neg hinner]
  · rw [pathOf, Connective.ofWord?_word]
    simp only [hindex, Bool.false_eq_true, if_false]

/-- A path that begins with a group and in no element of it is that of the group as a whole. -/
theorem pathOf_word_of_not_enter? {c : Connective} {rest : List String}
    (h : enter? (c.word :: rest) = none) : pathOf (c.word :: rest) = ⟨[], []⟩ := by
  rw [pathOf, Connective.ofWord?_word]
  rcases not_enter?_cases h with rfl | ⟨first, later, rfl, hindex, hlater⟩
  · rfl
  · dsimp only
    rw [if_pos hindex]
    cases hread : readIndex first with
    | error e => rfl
    | ok index => exact if_pos (hlater index hread)

/-- A path that begins in no element is that of a group as a whole or begins with an attribute. -/
theorem pathOf_of_not_enter? {segments : List String} (h : enter? segments = none) :
    pathOf segments = ⟨[], []⟩ ∨
      ∃ name below, FilterKey.isBranch name = false ∧ pathOf segments = ⟨[], name :: below⟩ := by
  match segments with
  | [] => exact .inl rfl
  | segment :: rest =>
      cases hword : Connective.ofWord? segment with
      | none =>
          exact .inr ⟨segment, dropMarks rest, FilterKey.isBranch_eq_false.mpr hword, by rw [pathOf, hword]⟩
      | some c =>
          obtain rfl := Connective.word_of_ofWord? hword
          exact .inl (pathOf_word_of_not_enter? h)

theorem elements_of_not_enter? {segments : List String} (h : enter? segments = none) :
    (pathOf segments).elements = [] := by
  rcases pathOf_of_not_enter? h with hpath | ⟨name, below, -, hpath⟩ <;> rw [hpath]

/-- A path that begins with a name outside of groups begins with no word of a group. -/
theorem not_isBranch_of_pathOf {segments below : List String} {name : String}
    (h : pathOf segments = ⟨[], name :: below⟩) : FilterKey.isBranch name = false := by
  cases henter : enter? segments with
  | some route =>
      obtain ⟨element, inner⟩ := route
      rw [pathOf_of_enter? henter] at h
      exact absurd (congrArg Path.elements h) (List.cons_ne_nil _ _)
  | none =>
      rcases pathOf_of_not_enter? henter with hpath | ⟨other, below', hother, hpath⟩
      · rw [hpath] at h
        exact absurd h (by simp)
      · rw [hpath, Path.mk.injEq, List.cons.injEq] at h
        rw [← h.2.1]
        exact hother

/-- Inside an element there are segments left, and fewer than before. -/
theorem inner_of_enter? {segments inner : List String} {element : Connective × Nat}
    (h : enter? segments = some (element, inner)) :
    inner ≠ [] ∧ inner.length < segments.length := by
  obtain ⟨c, index⟩ := element
  rcases enter?_cases h with ⟨first, rfl, -, -, hinner⟩ | ⟨first, later, rfl, -, -, rfl⟩
  · refine ⟨hinner, ?_⟩
    simp only [List.length_cons]
    omega
  · exact ⟨List.cons_ne_nil first later, Nat.lt_succ_self _⟩

/-! ## One parameter -/

theorem refuse_eq_ok_iff {α : Type} {key : String} {x : Except ParseFault α} {a : α} :
    refuse key x = .ok a ↔ x = .ok a := by
  cases x with
  | error e => simp [refuse]
  | ok b => simp [refuse]

section

variable {key : String} {v : Value} {segments : List String} {entries entries' : Entries}

/-- A parameter that leads into an element of a group acts on this element as it would on the whole
tree. -/
theorem assign_of_enter? {c : Connective} {index : Nat} {inner : List String}
    (h : enter? segments = some ((c, index), inner)) (entries : Entries) :
    assign key v segments entries = (do
      let slots ← refuse key (slotsOf entries c.word)
      let element ← assign key v inner (Slots.element slots index)
      return Fields.set entries c.word (.slots (Slots.set index element slots))) := by
  rcases enter?_cases h with ⟨first, rfl, hindex, hread, hinner⟩ |
    ⟨first, later, rfl, hindex, rfl, rfl⟩
  · rw [assign, if_pos (FilterKey.isBranch_word c)]
    refine bind_congr fun slots => ?_
    dsimp only
    rw [if_neg (fun hwhole => hinner hwhole.2), if_pos hindex, hread]
    match inner, hinner with
    | next :: rest, _ => rfl
  · have hnamed : ¬(first = "" ∧ later = []) := by
      rintro ⟨rfl, -⟩
      exact absurd hindex (by decide)
    rw [assign, if_pos (FilterKey.isBranch_word c)]
    refine bind_congr fun slots => ?_
    dsimp only
    rw [if_neg hnamed, if_neg (Bool.eq_false_iff.mp hindex)]
    rfl

/-- A parameter that leads into an element of a group changes this element, as it would change the
whole tree. -/
theorem exists_assign_of_enter? {c : Connective} {index : Nat} {inner : List String}
    (h : enter? segments = some ((c, index), inner))
    (hassign : assign key v segments entries = .ok entries') :
    ∃ slots element, slotsOf entries c.word = .ok slots ∧
      assign key v inner (Slots.element slots index) = .ok element ∧
      entries' = Fields.set entries c.word (.slots (Slots.set index element slots)) := by
  rw [assign_of_enter? h] at hassign
  obtain ⟨slots, hslots, hassign⟩ := bind_eq_ok_iff.mp hassign
  obtain ⟨element, helement, hassign⟩ := bind_eq_ok_iff.mp hassign
  exact ⟨slots, element, refuse_eq_ok_iff.mp hslots, helement, (Except.ok.inj hassign).symm⟩

/-- The only texts that are put in for whole elements are none. -/
theorem eq_nil_of_addElements {slots slots' : Slots} (hv : isTexts v = true)
    (h : addElements slots (asItems v) = .ok slots') : v = .list [] ∧ slots = slots' := by
  rcases text_or_list_of_isTexts hv with ⟨s, rfl⟩ | ⟨items, rfl⟩
  · exact absurd h (by simp [asItems, addElements])
  · cases items with
    | nil => exact ⟨rfl, Except.ok.inj h⟩
    | cons item rest =>
        cases item with
        | record fields => exact absurd hv (by simp [isTexts])
        | null | bool | int | float | text | list | tuple | moment | connective | node | deferred =>
            exact absurd h (by simp [asItems, addElements])

/-- Whether a parameter for a group as a whole is taken does not depend on the elements of the
group, which stay as they are. -/
theorem assign_of_group (hv : isTexts v = true) {c : Connective} {rest : List String}
    (h : enter? (c.word :: rest) = none) (entries : Entries) :
    assign key v (c.word :: rest) entries = (do
      let slots ← refuse key (slotsOf entries c.word)
      let _ ← assign key v (c.word :: rest) []
      return Fields.set entries c.word (.slots slots)) := by
  have hnone : refuse key (slotsOf [] c.word) = .ok [] := rfl
  rw [assign, assign, if_pos (FilterKey.isBranch_word c), if_pos (FilterKey.isBranch_word c), hnone, ok_bind]
  refine bind_congr fun slots => ?_
  have hwhole : (do
      let slots ← refuse key (addElements slots (asItems v))
      pure (Fields.set entries c.word (.slots slots))) = (do
      let _ ← (do
        let slots ← refuse key (addElements [] (asItems v))
        pure (Fields.set ([] : Entries) c.word (.slots slots)))
      pure (Fields.set entries c.word (.slots slots))) := by
    rcases text_or_list_of_isTexts hv with ⟨s, rfl⟩ | ⟨items, rfl⟩
    · rfl
    · match items with
      | [] => rfl
      | .text _ :: _ => rfl
  rcases not_enter?_cases h with rfl | ⟨first, later, rfl, hindex, hlater⟩
  · exact hwhole
  · dsimp only
    by_cases hmark : first = "" ∧ later = []
    · rw [if_pos hmark, if_pos hmark]
      exact hwhole
    · rw [if_neg hmark, if_neg hmark, if_pos hindex, if_pos hindex]
      cases hread : readIndex first with
      | error fault => rfl
      | ok index =>
          obtain rfl := hlater index hread
          rcases text_or_list_of_isTexts hv with ⟨s, rfl⟩ | ⟨items, rfl⟩ <;> rfl

/-- A parameter for a group that leads into no element of it gives no texts, and changes nothing but
that the group is there. -/
theorem exists_assign_of_group (hv : isTexts v = true) {c : Connective} {rest : List String}
    (h : enter? (c.word :: rest) = none)
    (hassign : assign key v (c.word :: rest) entries = .ok entries') :
    v = .list [] ∧ pathOf (c.word :: rest) = ⟨[], []⟩ ∧
      ∃ slots, slotsOf entries c.word = .ok slots ∧
        entries' = Fields.set entries c.word (.slots slots) := by
  rw [assign, if_pos (FilterKey.isBranch_word c)] at hassign
  obtain ⟨slots, hslots, hassign⟩ := bind_eq_ok_iff.mp hassign
  have hslots := refuse_eq_ok_iff.mp hslots
  dsimp only at hassign
  have hwhole : (do
      let slots ← refuse key (addElements slots (asItems v))
      pure (Fields.set entries c.word (.slots slots))) = .ok entries' →
      v = .list [] ∧ ∃ slots, slotsOf entries c.word = .ok slots ∧
        entries' = Fields.set entries c.word (.slots slots) := by
    intro hadd
    obtain ⟨slots', hadd, hentries⟩ := bind_eq_ok_iff.mp hadd
    obtain ⟨hnil, rfl⟩ := eq_nil_of_addElements hv (refuse_eq_ok_iff.mp hadd)
    exact ⟨hnil, slots, hslots, (Except.ok.inj hentries).symm⟩
  have hpath := pathOf_word_of_not_enter? h
  rcases not_enter?_cases h with rfl | ⟨first, later, rfl, hindex, hlater⟩
  · obtain ⟨hnil, hentries⟩ := hwhole hassign
    exact ⟨hnil, hpath, hentries⟩
  · dsimp only at hassign
    by_cases hmark : first = "" ∧ later = []
    · rw [if_pos hmark] at hassign
      obtain ⟨hnil, hentries⟩ := hwhole hassign
      exact ⟨hnil, hpath, hentries⟩
    · rw [if_neg hmark, if_pos hindex] at hassign
      obtain ⟨index, hread, hassign⟩ := bind_eq_ok_iff.mp hassign
      obtain rfl := hlater index (liftFault_eq_ok_iff.mp hread)
      -- texts are no element
      rcases text_or_list_of_isTexts hv with ⟨s, rfl⟩ | ⟨items, rfl⟩
      · exact absurd hassign (by simp [refuse])
      · exact absurd hassign (by simp [refuse])

end

/-- A parameter whose name has been taken apart. -/
structure Param where
  key : String
  segments : List String
  value : Value

namespace Param

/-- The value of a parameter with its path. -/
def given (p : Param) : Path × Value :=
  (pathOf p.segments, p.value)

/-- The parameter inside a group element, if it leads there. -/
def inside? (element : Connective × Nat) (p : Param) : Option Param :=
  match enter? p.segments with
  | none => none
  | some (first, inner) => if first = element then some ⟨p.key, inner, p.value⟩ else none

theorem inside?_eq_some_iff {element : Connective × Nat} {p q : Param} :
    inside? element p = some q ↔
      ∃ inner, enter? p.segments = some (element, inner) ∧ q = ⟨p.key, inner, p.value⟩ := by
  rw [inside?]
  cases enter? p.segments with
  | none => simp
  | some route =>
      obtain ⟨first, inner⟩ := route
      simp only [Option.ite_none_right_eq_some, Option.some.injEq, Prod.mk.injEq]
      constructor
      · rintro ⟨rfl, rfl⟩
        exact ⟨inner, ⟨rfl, rfl⟩, rfl⟩
      · rintro ⟨other, ⟨rfl, rfl⟩, rfl⟩
        exact ⟨rfl, rfl⟩

/-- What a parameter gives inside an element is what it gives there. -/
theorem given_inside? (element : Connective × Nat) (p : Param) :
    Given.inside? element p.given = (inside? element p).map given := by
  rw [inside?]
  cases henter : enter? p.segments with
  | none =>
      rw [Given.inside?, given, elements_of_not_enter? henter]
      rfl
  | some route =>
      obtain ⟨first, inner⟩ := route
      rw [Given.inside?, given, pathOf_of_enter? henter]
      dsimp only [Path.within]
      split <;> rfl

/-- A parameter with a path elsewhere is not inside an element. -/
theorem inside?_eq_none {element : Connective × Nat} {p : Param}
    (h : ∀ rest, p.given.1.elements ≠ element :: rest) : inside? element p = none := by
  rw [← Option.map_eq_none_iff, ← given_inside?, Option.eq_none_iff_forall_ne_some]
  intro q hq
  exact h q.1.elements (congrArg (fun r => r.1.elements) (Given.inside?_eq_some_iff.mp hq))

end Param

/-- How a parameter changes the tree: inside one group element, as it would change the whole tree
there; not at all, but for a group without elements; or at one attribute. -/
inductive Change (p : Param) (entries : Entries) : Entries → Prop
  | element {c : Connective} {index : Nat} {inner : List String} {slots : Slots}
      {element : Entries} : enter? p.segments = some ((c, index), inner) →
      slotsOf entries c.word = .ok slots →
      assign p.key p.value inner (Slots.element slots index) = .ok element →
      Change p entries (Fields.set entries c.word (.slots (Slots.set index element slots)))
  | whole {c : Connective} {slots : Slots} : p.value = .list [] → p.given.1 = ⟨[], []⟩ →
      slotsOf entries c.word = .ok slots →
      Change p entries (Fields.set entries c.word (.slots slots))
  | named {name : String} {below : List String} {tree : Tree} :
      FilterKey.isBranch name = false → p.given.1 = ⟨[], name :: below⟩ →
      Graft p.value below (Fields.get? entries name) tree →
      Change p entries (Fields.set entries name tree)

/-- A parameter that is taken changes the tree in one of these ways. -/
theorem change_of_assign {p : Param} {entries entries' : Entries} (hv : isTexts p.value = true)
    (hne : p.segments ≠ []) (h : assign p.key p.value p.segments entries = .ok entries') :
    Change p entries entries' := by
  cases henter : enter? p.segments with
  | some route =>
      obtain ⟨⟨c, index⟩, inner⟩ := route
      obtain ⟨slots, element, hslots, helement, rfl⟩ := exists_assign_of_enter? henter h
      exact .element henter hslots helement
  | none =>
      obtain ⟨key, segments, v⟩ := p
      match segments, hne with
      | segment :: rest, _ =>
          cases hword : Connective.ofWord? segment with
          | none =>
              have hbranch := FilterKey.isBranch_eq_false.mpr hword
              rw [assign, if_neg (by simp [hbranch])] at h
              obtain ⟨tree, hgraft, rfl⟩ := exists_graft_of_putPath hv (refuse_eq_ok_iff.mp h)
              refine .named hbranch ?_ hgraft
              rw [Param.given, pathOf, hword]
          | some c =>
              obtain rfl := Connective.word_of_ofWord? hword
              obtain ⟨hnil, hpath, slots, hslots, rfl⟩ := exists_assign_of_group hv henter h
              exact .whole hnil hpath hslots

/-- A parameter sets the entry that its first segment names. -/
theorem exists_set_of_assign {key : String} {v : Value} (hv : isTexts v = true) {segment : String}
    {rest : List String} {entries entries' : Entries}
    (h : assign key v (segment :: rest) entries = .ok entries') :
    ∃ tree, entries' = Fields.set entries segment tree := by
  cases henter : enter? (segment :: rest) with
  | some route =>
      obtain ⟨⟨c, index⟩, inner⟩ := route
      obtain ⟨slots, element, -, -, rfl⟩ := exists_assign_of_enter? henter h
      obtain rfl : segment = c.word := by
        rcases enter?_cases henter with ⟨first, hsegments, -⟩ | ⟨first, later, hsegments, -⟩
        · exact (List.cons.inj hsegments).1
        · exact (List.cons.inj hsegments).1
      exact ⟨_, rfl⟩
  | none =>
      cases hword : Connective.ofWord? segment with
      | none =>
          rw [assign, if_neg (by simp [FilterKey.isBranch_eq_false.mpr hword])] at h
          obtain ⟨tree, -, rfl⟩ := exists_graft_of_putPath hv (refuse_eq_ok_iff.mp h)
          exact ⟨tree, rfl⟩
      | some c =>
          obtain rfl := Connective.word_of_ofWord? hword
          obtain ⟨-, -, slots, -, rfl⟩ := exists_assign_of_group hv henter h
          exact ⟨_, rfl⟩

/-! ## Group elements -/

namespace Slots

variable {slots : Slots} {index : Nat} {entries : Entries}

theorem lookup_cons (j : Nat) (old : Entries) (rest : Slots) (i : Nat) :
    List.lookup i ((j, old) :: rest) = if i = j then some old else List.lookup i rest := by
  rw [List.lookup_cons]
  by_cases h : i = j
  · simp [h]
  · simp [h, beq_eq_false_iff_ne.mpr h]

/-- An element of a group is the one at its index. -/
theorem element_of_mem (h : (slots.map Prod.fst).Nodup) (hmem : (index, entries) ∈ slots) :
    element slots index = entries := by
  have hlookup : slots.lookup index = some entries := by
    induction slots with
    | nil => exact absurd hmem List.not_mem_nil
    | cons slot rest ih =>
        obtain ⟨j, old⟩ := slot
        rw [List.map_cons, List.nodup_cons] at h
        rw [lookup_cons]
        rcases List.mem_cons.mp hmem with heq | hrest
        · rw [Prod.mk.injEq] at heq
          rw [if_pos heq.1, heq.2]
        · have hne : index ≠ j := by
            rintro rfl
            exact h.1 (List.mem_map.mpr ⟨(index, entries), hrest, rfl⟩)
          rw [if_neg hne]
          exact ih h.2 hrest
  rw [element, hlookup]
  rfl

/-- Setting an element changes this element alone. -/
theorem element_set (slots : Slots) (index i : Nat) (entries : Entries) :
    element (set index entries slots) i = if i = index then entries else element slots i := by
  have hlookup : (set index entries slots).lookup i =
      if i = index then some entries else slots.lookup i := by
    induction slots with
    | nil => rw [set, lookup_cons]
    | cons slot rest ih =>
        obtain ⟨j, old⟩ := slot
        rw [set]
        by_cases hlt : index < j
        · rw [if_pos hlt, lookup_cons]
        · by_cases hj : index = j
          · subst hj
            rw [if_neg hlt, if_pos rfl, lookup_cons, lookup_cons]
            split <;> rfl
          · rw [if_neg hlt, if_neg hj, lookup_cons, lookup_cons, ih]
            by_cases hi : i = j
            · rw [if_pos hi, if_pos hi, if_neg (fun h => hj (h.symm.trans hi))]
            · rw [if_neg hi, if_neg hi]
  rw [element, element, hlookup]
  split <;> rfl

/-- Setting an element puts its index in use. -/
theorem mem_indices_set {i : Nat} :
    i ∈ (set index entries slots).map Prod.fst ↔ i = index ∨ i ∈ slots.map Prod.fst := by
  induction slots with
  | nil => simp [set]
  | cons slot rest ih =>
      obtain ⟨j, old⟩ := slot
      rw [set]
      split
      · simp
      · split
        · next h => simp [h]
        · simp only [List.map_cons, List.mem_cons, ih]
          tauto

/-- Setting an element keeps the elements in ascending order of their indices. -/
theorem sortedLT_set (h : (slots.map Prod.fst).SortedLT) :
    ((set index entries slots).map Prod.fst).SortedLT := by
  rw [List.sortedLT_iff_pairwise] at h ⊢
  induction slots with
  | nil => simp [set]
  | cons slot rest ih =>
      obtain ⟨j, old⟩ := slot
      rw [List.map_cons, List.pairwise_cons] at h
      rw [set]
      by_cases hlt : index < j
      · rw [if_pos hlt, List.map_cons, List.map_cons, List.pairwise_cons, List.pairwise_cons,
          List.forall_mem_cons]
        exact ⟨⟨hlt, fun i hi => hlt.trans (h.1 i hi)⟩, h⟩
      · by_cases hj : index = j
        · rw [if_neg hlt, if_pos hj, List.map_cons, List.pairwise_cons, hj]
          exact h
        · rw [if_neg hlt, if_neg hj, List.map_cons, List.pairwise_cons]
          refine ⟨fun i hi => ?_, ih h.2⟩
          rcases mem_indices_set.mp hi with rfl | hi
          · omega
          · exact h.1 i hi

end Slots

/-! ## All parameters -/

/-- The entries that parameters grow into, one after the other. -/
inductive Grown : List Param → Entries → Prop
  | nil : Grown [] []
  | concat {ps : List Param} {p : Param} {entries entries' : Entries} : Grown ps entries →
      isTexts p.value = true → p.segments ≠ [] →
      assign p.key p.value p.segments entries = .ok entries' → Grown (ps ++ [p]) entries'

theorem slotsOf_set_self (entries : Entries) (word : String) (slots : Slots) :
    slotsOf (Fields.set entries word (.slots slots)) word = .ok slots := by
  rw [slotsOf, Fields.get?_set_self]

theorem slotsOf_set_of_ne (entries : Entries) {word name : String} (h : word ≠ name) (tree : Tree) :
    slotsOf (Fields.set entries name tree) word = slotsOf entries word := by
  rw [slotsOf, slotsOf, Fields.get?_set_of_ne entries tree h]

/-- The elements of a group are in ascending order, one for each index in use, and each has grown
from what leads into it. -/
structure GrownGroup (ps : List Param) (c : Connective) (slots : Slots) : Prop where
  sorted : (slots.map Prod.fst).SortedLT
  used : ∀ index, index ∈ slots.map Prod.fst ↔
    ∃ q ∈ ps.map Param.given, ∃ rest, q.1.elements = (c, index) :: rest
  inside : ∀ index, Grown (ps.filterMap (Param.inside? (c, index))) (Slots.element slots index)

/-- A group is not changed by a parameter that does not lead into it. -/
theorem GrownGroup.concat_outside {ps : List Param} {p : Param} {c : Connective} {slots : Slots}
    (h : GrownGroup ps c slots) (hp : ∀ index rest, p.given.1.elements ≠ (c, index) :: rest) :
    GrownGroup (ps ++ [p]) c slots := by
  refine ⟨h.sorted, fun index => ?_, fun index => ?_⟩
  · rw [h.used]
    simp [or_and_right, exists_or, hp]
  · rw [List.filterMap_append, List.filterMap_cons_none (Param.inside?_eq_none (hp index)),
      List.filterMap_nil, List.append_nil]
    exact h.inside index

/-- A parameter that leads into an element of a group lets this element grow. -/
theorem GrownGroup.concat_inside {ps : List Param} {p : Param} {c : Connective} {slots : Slots}
    {index : Nat} {inner : List String} {element : Entries} (h : GrownGroup ps c slots)
    (hv : isTexts p.value = true) (henter : enter? p.segments = some ((c, index), inner))
    (helement : assign p.key p.value inner (Slots.element slots index) = .ok element) :
    GrownGroup (ps ++ [p]) c (Slots.set index element slots) := by
  have helements : p.given.1.elements = (c, index) :: (pathOf inner).elements := by
    rw [Param.given, pathOf_of_enter? henter]
    rfl
  refine ⟨Slots.sortedLT_set h.sorted, fun i => ?_, fun i => ?_⟩
  · rw [Slots.mem_indices_set, h.used]
    simp only [List.map_append, List.map_singleton, List.mem_append, List.mem_singleton,
      or_and_right, exists_or, exists_eq_left, helements, List.cons.injEq, Prod.mk.injEq, true_and,
      exists_and_left, exists_eq', and_true]
    rw [or_comm, eq_comm]
  · rw [Slots.element_set, List.filterMap_append]
    by_cases hi : i = index
    · subst hi
      have hinside : Param.inside? (c, i) p = some ⟨p.key, inner, p.value⟩ :=
        Param.inside?_eq_some_iff.mpr ⟨inner, henter, rfl⟩
      rw [if_pos rfl, List.filterMap_cons_some hinside]
      exact .concat (h.inside i) hv (inner_of_enter? henter).1 helement
    · have houtside : Param.inside? (c, i) p = none := by
        refine Param.inside?_eq_none fun rest hrest => hi ?_
        rw [helements] at hrest
        simp only [List.cons.injEq, Prod.mk.injEq, true_and] at hrest
        exact hrest.1.symm
      rw [if_neg hi, List.filterMap_cons_none houtside, List.filterMap_nil, List.append_nil]
      exact h.inside i

/-- Each group holds one element for each index in use, and each element has grown from what leads
into it. -/
theorem Grown.group {ps : List Param} {entries : Entries} (h : Grown ps entries) (c : Connective) :
    ∃ slots, slotsOf entries c.word = .ok slots ∧ GrownGroup ps c slots := by
  induction h with
  | nil => exact ⟨[], rfl, by simp [List.sortedLT_iff_pairwise], by simp, fun _ => .nil⟩
  | @concat ps p entries entries' _ hv hne hassign ih =>
      obtain ⟨slots, hslots, hgroup⟩ := ih
      cases change_of_assign hv hne hassign with
      | @element d index inner found element henter hfound helement =>
          by_cases hd : d = c
          · subst hd
            obtain rfl : found = slots := Except.ok.inj (hfound.symm.trans hslots)
            exact ⟨_, slotsOf_set_self entries _ _, hgroup.concat_inside hv henter helement⟩
          · refine ⟨slots, ?_, hgroup.concat_outside fun i rest => ?_⟩
            · rw [slotsOf_set_of_ne entries fun hword => hd (Connective.word_inj.mp hword).symm]
              exact hslots
            · rw [Param.given, pathOf_of_enter? henter]
              simp [Path.within, hd]
      | @whole d found hnil hpath hfound =>
          refine ⟨slots, ?_, hgroup.concat_outside fun i rest => by simp [hpath]⟩
          by_cases hd : d = c
          · subst hd
            obtain rfl : found = slots := Except.ok.inj (hfound.symm.trans hslots)
            exact slotsOf_set_self entries _ _
          · rw [slotsOf_set_of_ne entries fun hword => hd (Connective.word_inj.mp hword).symm]
            exact hslots
      | @named name below tree hbranch hpath hgraft =>
          refine ⟨slots, ?_, hgroup.concat_outside fun i rest => by simp [hpath]⟩
          rw [slotsOf_set_of_ne entries (word_ne_of_not_isBranch hbranch c)]
          exact hslots

/-- What is said about an attribute and the values given to it holds throughout when it holds at the
beginning and is kept by each further value. -/
theorem Grown.attributeInduction {P : List (List String × Value) → Option Tree → Prop}
    (nothing : P [] none)
    (graft : ∀ {qs found v below tree}, isTexts v = true → P qs found → Graft v below found tree →
      P (qs ++ [(below, v)]) (some tree))
    {ps : List Param} {entries : Entries} (h : Grown ps entries) {name : String}
    (hname : FilterKey.isBranch name = false) :
    P (Given.below name (ps.map Param.given)) (Fields.get? entries name) := by
  induction h with
  | nil => exact nothing
  | @concat ps p entries entries' _ hv hne hassign ih =>
      have hword : ∀ c : Connective, name ≠ c.word := fun c =>
        (word_ne_of_not_isBranch hname c).symm
      have helsewhere : (∀ below, p.given.1 ≠ ⟨[], name :: below⟩) →
          P (Given.below name ((ps ++ [p]).map Param.given)) (Fields.get? entries name) := by
        intro hp
        have hnone : Given.below? name p.given = none :=
          Option.eq_none_iff_forall_ne_some.mpr fun q hq =>
            hp q.1 (congrArg Prod.fst (Given.below?_eq_some_iff.mp hq))
        rw [List.map_append, Given.below, List.filterMap_append, List.map_singleton,
          List.filterMap_cons_none hnone, List.filterMap_nil, List.append_nil]
        exact ih
      cases change_of_assign hv hne hassign with
      | @element c index inner slots element henter hslots helement =>
          rw [Fields.get?_set_of_ne entries _ (hword c)]
          refine helsewhere fun below => ?_
          rw [Param.given, pathOf_of_enter? henter]
          simp [Path.within]
      | @whole c slots hnil hpath hslots =>
          rw [Fields.get?_set_of_ne entries _ (hword c)]
          exact helsewhere fun below => by simp [hpath]
      | @named other below tree hbranch hpath hgraft =>
          by_cases hother : other = name
          · subst hother
            have hhere : Given.below? other p.given = some (below, p.value) :=
              Given.below?_eq_some_iff.mpr (Prod.ext hpath rfl)
            rw [Fields.get?_set_self, List.map_append, Given.below, List.filterMap_append,
              List.map_singleton, List.filterMap_cons_some hhere]
            exact graft hv ih hgraft
          · rw [Fields.get?_set_of_ne entries _ fun h => hother h.symm]
            exact helsewhere fun below => by simp [hpath, hother]

/-- An attribute holds what is given to it. -/
theorem Grown.attribute {ps : List Param} {entries : Entries} (h : Grown ps entries) {name : String}
    (hname : FilterKey.isBranch name = false) :
    Holds (Given.below name (ps.map Param.given)) (Fields.get? entries name) :=
  Grown.attributeInduction .nothing (fun hv hholds hgraft => hholds.graft hv hgraft) h hname

end RecordQuery.Params
