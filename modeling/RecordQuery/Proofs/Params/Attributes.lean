import RecordQuery.Proofs.Outcome
import RecordQuery.Proofs.Params.Paths
/-!
# What attributes hold

An attribute holds a plain value, or a tree of values below it once there is one for an operator; the
plain value is then the one for equality. `find` looks a value up in such a tree, and putting a value
at a path changes what is found there and nowhere else (`find_putBelow`). `Holds` relates what an
attribute holds to the values that have been given to it, and is kept whatever is given next
(`Holds.graft`).
-/

namespace RecordQuery.Params

/-! ## Values of one path -/

/-- What a path holds when the values are given to it: nothing without any. -/
def held (vs : List Value) : Option Value :=
  if vs = [] then none else some (collected vs)

/-- What a path holds after one more value. -/
def extend : Option Value → Value → Value
  | none, v => v
  | some earlier, v => joinValues earlier v

theorem held_concat (vs : List Value) (v : Value) : held (vs ++ [v]) = some (extend (held vs) v) := by
  match vs with
  | [] => rfl
  | [earlier] => simp [held, collected, extend, joinValues]
  | first :: second :: rest => simp [held, collected, extend, joinValues, asItems]

/-- Something is held where values are given. -/
theorem held_map_filter_eq_some_iff {α : Type} {qs : List (α × Value)} {here : α × Value → Bool}
    {v : Value} :
    held ((qs.filter here).map (·.2)) = some v ↔
      ∃ q ∈ qs, here q = true ∧ collected ((qs.filter here).map (·.2)) = v := by
  rw [held, Option.ite_none_left_eq_some, Option.some.injEq, List.map_eq_nil_iff,
    List.filter_eq_nil_iff]
  constructor
  · rintro ⟨hsome, hv⟩
    simp only [not_forall, not_not] at hsome
    obtain ⟨q, hmem, hq⟩ := hsome
    exact ⟨q, hmem, hq, hv⟩
  · rintro ⟨q, hmem, hq, hv⟩
    exact ⟨fun hnone => hnone q hmem hq, hv⟩

/-- Texts come as one text or as a list. -/
theorem text_or_list_of_isTexts {v : Value} (h : isTexts v = true) :
    (∃ s, v = .text s) ∨ ∃ items, v = .list items := by
  cases v with
  | text s => exact .inl ⟨s, rfl⟩
  | list items => exact .inr ⟨items, rfl⟩
  | null | bool | int | float | tuple | record | moment | connective | node | deferred =>
      exact absurd h Bool.false_ne_true

theorem isTexts_joinValues {u v : Value} (hu : isTexts u = true) (hv : isTexts v = true) :
    isTexts (joinValues u v) = true := by
  have hitems : ∀ w : Value, isTexts w = true → isTexts (.list (asItems w)) = true := by
    intro w hw
    rcases text_or_list_of_isTexts hw with ⟨s, rfl⟩ | ⟨items, rfl⟩
    · rfl
    · exact hw
  have hu := hitems u hu
  have hv := hitems v hv
  rw [isTexts] at hu hv
  rw [joinValues, isTexts, List.all_append, hu, hv]
  rfl

/-- Texts grow into a leaf. -/
theorem ofValue_of_isTexts {v : Value} (h : isTexts v = true) : Tree.ofValue v = .leaf v := by
  rcases text_or_list_of_isTexts h with ⟨s, rfl⟩ | ⟨items, rfl⟩ <;> rfl

/-- Texts are a leaf, and there is nothing below them. -/
theorem valueLeaf?_of_isTexts {v : Value} (h : isTexts v = true) (names : List String) :
    valueLeaf? names v = if names = [] then some v else none := by
  rcases text_or_list_of_isTexts h with ⟨s, rfl⟩ | ⟨items, rfl⟩
  · cases names <;> rfl
  · cases names <;> rfl

/-! ## Trees of values -/

/-- A tree below an attribute: its leaves are texts, and there are no group elements in it and no
branches without entries. -/
inductive Tree.Plain : Tree → Prop
  | leaf {v : Value} : isTexts v = true → Plain (.leaf v)
  | branch {entries : Entries} :
      (∀ name tree, Fields.get? entries name = some tree → Plain tree) →
      (∀ name, Fields.get? entries name ≠ some (.branch [])) → Plain (.branch entries)

/-- The value that is found in entries under names. -/
def find : List String → Entries → Option Value
  | [], _ => none
  | name :: rest, entries =>
    match Fields.get? entries name with
    | some (.leaf v) => if rest = [] then some v else none
    | some (.branch below) => find rest below
    | _ => none

/-- The entries below a segment. -/
def entriesBelow (entries : Entries) (segment : String) : Entries :=
  match Fields.get? entries segment with
  | some (.branch below) => below
  | _ => []

theorem find_nil (names : List String) : find names [] = none := by
  cases names <;> rfl

section

variable {entries entries' : Entries} {v : Value}

theorem Tree.Plain.isTexts (h : Tree.Plain (.leaf v)) : isTexts v = true := by
  cases h with
  | leaf hv => exact hv

theorem Tree.Plain.get? (h : Tree.Plain (.branch entries)) {name : String} {tree : Tree}
    (htree : Fields.get? entries name = some tree) : tree.Plain := by
  cases h with
  | branch hentries _ => exact hentries name tree htree

theorem Tree.Plain.ne_nil_of_get? (h : Tree.Plain (.branch entries)) {name : String}
    {below : Entries} (hbelow : Fields.get? entries name = some (.branch below)) : below ≠ [] := by
  cases h with
  | branch _ hsome =>
      rintro rfl
      exact hsome name hbelow

theorem Tree.plain_nil : Tree.Plain (.branch []) :=
  .branch (fun _ _ hnone => absurd hnone (by simp)) fun _ hnone => absurd hnone (by simp)

theorem Tree.Plain.set (h : Tree.Plain (.branch entries)) (segment : String) {tree : Tree}
    (htree : tree.Plain) (hsome : tree ≠ .branch []) :
    Tree.Plain (.branch (Fields.set entries segment tree)) := by
  refine .branch (fun name found hfound => ?_) fun name hfound => ?_
  · by_cases hname : name = segment
    · rw [hname, Fields.get?_set_self] at hfound
      rwa [← Option.some.inj hfound]
    · rw [Fields.get?_set_of_ne entries tree hname] at hfound
      exact h.get? hfound
  · by_cases hname : name = segment
    · rw [hname, Fields.get?_set_self] at hfound
      exact hsome (Option.some.inj hfound)
    · rw [Fields.get?_set_of_ne entries tree hname] at hfound
      exact h.ne_nil_of_get? hfound rfl

/-- What is found beside a segment is found after setting the segment too. -/
theorem find_set_of_ne {segment name : String} (h : name ≠ segment) (tree : Tree)
    (rest : List String) :
    find (name :: rest) (Fields.set entries segment tree) = find (name :: rest) entries := by
  rw [find, find, Fields.get?_set_of_ne entries tree h]

/-- Putting a value under a segment puts a leaf of texts there, and nothing nested was there. -/
theorem exists_leaf_of_putValue {segment : String} (hv : isTexts v = true)
    (hplain : Tree.Plain (.branch entries)) (h : putValue entries segment v = .ok entries') :
    ∃ earlier, (∀ rest, find (segment :: rest) entries = if rest = [] then earlier else none) ∧
      isTexts (extend earlier v) = true ∧
      entries' = Fields.set entries segment (.leaf (extend earlier v)) := by
  rw [putValue] at h
  cases hget : Fields.get? entries segment with
  | none =>
      rw [hget, ofValue_of_isTexts hv] at h
      refine ⟨none, fun rest => ?_, hv, (Except.ok.inj h).symm⟩
      simp [find, hget]
  | some tree =>
      rw [hget] at h
      cases tree with
      | leaf earlier =>
          refine ⟨some earlier, fun rest => ?_, isTexts_joinValues (hplain.get? hget).isTexts hv,
            (Except.ok.inj h).symm⟩
          simp [find, hget]
      | branch below => exact absurd h (by simp)
      | slots elements => exact absurd h (by simp)

theorem plain_putValue {segment : String} (hv : isTexts v = true)
    (hplain : Tree.Plain (.branch entries)) (h : putValue entries segment v = .ok entries') :
    Tree.Plain (.branch entries') := by
  obtain ⟨earlier, -, htexts, rfl⟩ := exists_leaf_of_putValue hv hplain h
  exact hplain.set segment (.leaf htexts) (by simp)

/-- A value that is put under a segment is found there, and all else as before. -/
theorem find_putValue {segment : String} (hv : isTexts v = true)
    (hplain : Tree.Plain (.branch entries)) (h : putValue entries segment v = .ok entries')
    (names : List String) :
    find names entries' =
      if names = [segment] then some (extend (find names entries) v) else find names entries := by
  obtain ⟨earlier, hearlier, -, rfl⟩ := exists_leaf_of_putValue hv hplain h
  cases names with
  | nil => rfl
  | cons name rest =>
      by_cases hname : name = segment
      · subst hname
        rw [hearlier, find, Fields.get?_set_self]
        cases rest <;> simp
      · rw [find_set_of_ne hname, if_neg (by simp [hname])]

/-- Putting a value below a segment puts it into the entries there. -/
theorem exists_branch_of_putBelow {segment : String} {rest : List String}
    (hplain : Tree.Plain (.branch entries)) (hrest : rest ≠ [])
    (h : putBelow v (segment :: rest) entries = .ok entries') :
    ∃ below, Tree.Plain (.branch (entriesBelow entries segment)) ∧
      putBelow v rest (entriesBelow entries segment) = .ok below ∧
      (∀ names, find (segment :: names) entries = find names (entriesBelow entries segment)) ∧
      entries' = Fields.set entries segment (.branch below) := by
  rw [putBelow] at h
  by_cases hsegment : segment = ""
  · rw [if_pos hsegment] at h
    exact absurd h (by simp)
  · rw [if_neg hsegment, if_neg (by simpa using hrest)] at h
    unfold entriesBelow
    cases hget : Fields.get? entries segment with
    | none =>
        rw [hget] at h
        obtain ⟨below, hbelow, h⟩ := bind_eq_ok_iff.mp h
        exact ⟨below, Tree.plain_nil, hbelow, fun names => by simp [find, hget, find_nil],
          (Except.ok.inj h).symm⟩
    | some tree =>
        rw [hget] at h
        have htree := hplain.get? hget
        cases tree with
        | leaf u =>
            -- no text is absent, so what is here bars the way
            rcases text_or_list_of_isTexts htree.isTexts with ⟨s, rfl⟩ | ⟨items, rfl⟩
            · exact absurd h (by simp)
            · exact absurd h (by simp)
        | branch below =>
            obtain ⟨below', hbelow, h⟩ := bind_eq_ok_iff.mp h
            exact ⟨below', htree, hbelow, fun names => by simp [find, hget],
              (Except.ok.inj h).symm⟩
        | slots elements => exact absurd h (by simp)

/-- Putting a value at the end of a path puts it under the last segment. -/
theorem putValue_of_putBelow {segment : String} (h : putBelow v [segment] entries = .ok entries') :
    putValue entries segment v = .ok entries' := by
  rw [putBelow] at h
  by_cases hsegment : segment = ""
  · rw [if_pos hsegment] at h
    exact absurd h (by simp)
  · rw [if_neg hsegment, if_pos List.isEmpty_nil] at h
    exact h

end

/-- There are entries where a value has been put. -/
theorem ne_nil_of_putBelow {v : Value} (hv : isTexts v = true) {segments : List String}
    {entries entries' : Entries} (hplain : Tree.Plain (.branch entries)) (hne : segments ≠ [])
    (h : putBelow v segments entries = .ok entries') : entries' ≠ [] := by
  have hset : ∃ segment tree, entries' = Fields.set entries segment tree := by
    match segments, hne with
    | [segment], _ =>
        obtain ⟨_, -, -, hentries⟩ := exists_leaf_of_putValue hv hplain (putValue_of_putBelow h)
        exact ⟨segment, _, hentries⟩
    | segment :: next :: rest, _ =>
        obtain ⟨_, -, -, -, hentries⟩ := exists_branch_of_putBelow hplain (by simp) h
        exact ⟨segment, _, hentries⟩
  obtain ⟨segment, tree, rfl⟩ := hset
  intro hnil
  have hget := Fields.get?_set_self entries segment tree
  rw [hnil] at hget
  exact absurd hget (by simp)

/-- Trees stay plain when texts are put into them. -/
theorem plain_putBelow {v : Value} (hv : isTexts v = true) {segments : List String} :
    ∀ {entries entries' : Entries}, Tree.Plain (.branch entries) → segments ≠ [] →
      putBelow v segments entries = .ok entries' → Tree.Plain (.branch entries') := by
  induction segments with
  | nil => exact fun _ hne => absurd rfl hne
  | cons segment rest ih =>
      intro entries entries' hplain _ h
      by_cases hrest : rest = []
      · subst hrest
        exact plain_putValue hv hplain (putValue_of_putBelow h)
      · obtain ⟨below, hbelow, hput, -, rfl⟩ := exists_branch_of_putBelow hplain hrest h
        refine hplain.set segment (ih hbelow hrest hput) fun hnil => ?_
        exact ne_nil_of_putBelow hv hbelow hrest hput (Tree.branch.inj hnil)

/-- A value that is put at a path is found there, and all else as before. -/
theorem find_putBelow {v : Value} (hv : isTexts v = true) {segments : List String} :
    ∀ {entries entries' : Entries}, Tree.Plain (.branch entries) → segments ≠ [] →
      putBelow v segments entries = .ok entries' → ∀ names, find names entries' =
        if names = segments then some (extend (find names entries) v) else find names entries := by
  induction segments with
  | nil => exact fun _ hne => absurd rfl hne
  | cons segment rest ih =>
      intro entries entries' hplain _ h names
      by_cases hrest : rest = []
      · subst hrest
        exact find_putValue hv hplain (putValue_of_putBelow h) names
      · obtain ⟨below, hbelow, hput, hbefore, rfl⟩ := exists_branch_of_putBelow hplain hrest h
        cases names with
        | nil => rfl
        | cons name later =>
            by_cases hname : name = segment
            · subst hname
              have hafter : find (name :: later) (Fields.set entries name (.branch below)) =
                  find later below := by
                rw [find, Fields.get?_set_self]
              rw [hafter, hbefore, ih hbelow hrest hput later]
              simp
            · rw [find_set_of_ne hname, if_neg (by simp [hname])]

/-- The record that entries have grown into has their names. -/
theorem get?_toFields (entries : Entries) (name : String) :
    Fields.get? (Tree.toFields entries) name = (Fields.get? entries name).map Tree.toValue := by
  induction entries with
  | nil => rfl
  | cons entry rest ih =>
      obtain ⟨key, tree⟩ := entry
      rw [Tree.toFields, Fields.get?_cons, Fields.get?_cons, ih]
      split <;> rfl

/-- What is found in a plain tree are the leaves of the record that it has grown into. -/
theorem valueLeaf?_toFields {names : List String} :
    ∀ {entries : Entries}, Tree.Plain (.branch entries) → entries ≠ [] →
      valueLeaf? names (.record (Tree.toFields entries)) = find names entries := by
  induction names with
  | nil =>
      intro entries _ hne
      match entries, hne with
      | (_, _) :: _, _ => rfl
  | cons name rest ih =>
      intro entries hplain _
      rw [valueLeaf?, find]
      show (Fields.get? (Tree.toFields entries) name).bind (valueLeaf? rest) = _
      rw [get?_toFields]
      cases hget : Fields.get? entries name with
      | none => rfl
      | some tree =>
          have htree := hplain.get? hget
          cases tree with
          | leaf v => exact valueLeaf?_of_isTexts htree.isTexts rest
          | branch below => exact ih htree (hplain.ne_nil_of_get? hget)
          | slots elements => cases htree

/-! ## Attributes -/

/-- What an attribute has for its operators; a plain value is the one for equality. -/
def operatorsOf : Option Tree → Entries
  | none => []
  | some (.leaf .null) => []
  | some (.branch operators) => operators
  | some plain => [(Operator.equals.name, plain)]

/-- How what an attribute holds takes one more value, with the names below the attribute. -/
inductive Graft (v : Value) : List String → Option Tree → Tree → Prop
  | first : Graft v [] none (.leaf v)
  | again {earlier : Value} : Graft v [] (some (.leaf earlier)) (.leaf (joinValues earlier v))
  | equality {operators operators' : Entries} :
      putValue operators Operator.equals.name v = .ok operators' →
      Graft v [] (some (.branch operators)) (.branch operators')
  | operator {below : List String} {found : Option Tree} {operators : Entries} : below ≠ [] →
      putBelow v below (operatorsOf found) = .ok operators → Graft v below found (.branch operators)

/-- A value for an attribute changes what this attribute holds. -/
theorem exists_graft_of_putPath {v : Value} (hv : isTexts v = true) {name : String}
    {rest : List String} {entries entries' : Entries}
    (h : putPath v name rest entries = .ok entries') :
    ∃ tree, Graft v (dropMarks rest) (Fields.get? entries name) tree ∧
      entries' = Fields.set entries name tree := by
  rw [putPath] at h
  by_cases hname : name = ""
  · rw [if_pos hname] at h
    exact absurd h (by simp)
  · rw [if_neg hname] at h
    dsimp only at h
    by_cases hbelow : dropMarks rest = []
    · rw [if_pos (by simp [hbelow])] at h
      rw [hbelow]
      rw [putAttribute] at h
      cases hget : Fields.get? entries name with
      | none =>
          rw [hget] at h
          rw [putValue, hget, ofValue_of_isTexts hv] at h
          exact ⟨_, .first, (Except.ok.inj h).symm⟩
      | some tree =>
          rw [hget] at h
          cases tree with
          | leaf earlier =>
              rw [putValue, hget] at h
              exact ⟨_, .again, (Except.ok.inj h).symm⟩
          | branch operators =>
              obtain ⟨operators', hput, h⟩ := bind_eq_ok_iff.mp h
              exact ⟨_, .equality hput, (Except.ok.inj h).symm⟩
          | slots elements =>
              rw [putValue, hget] at h
              exact absurd h (by simp)
    · rw [if_neg (by simpa using hbelow)] at h
      obtain ⟨operators, hput, rfl⟩ := map_eq_ok_iff.mp h
      exact ⟨_, .operator hbelow hput, rfl⟩

/-- The names below an attribute, where a plain value is the one for equality. -/
def orEquality (names : List String) : List String :=
  if names = [] then [Operator.equals.name] else names

/-- What an attribute holds when the values are given to it, each with the names below the
attribute: a plain value as long as there are none for operators, and then a tree. -/
inductive Holds : List (List String × Value) → Option Tree → Prop
  | nothing : Holds [] none
  | plain {qs : List (List String × Value)} {v : Value} : (∀ q ∈ qs, q.1 = []) →
      isTexts v = true → held (qs.map (·.2)) = some v → Holds qs (some (.leaf v))
  | operators {qs : List (List String × Value)} {entries : Entries} : (∃ q ∈ qs, q.1 ≠ []) →
      Tree.Plain (.branch entries) →
      (∀ names, find names entries =
        held ((qs.filter fun q => orEquality q.1 = names).map (·.2))) →
      Holds qs (some (.branch entries))

namespace Holds

variable {qs : List (List String × Value)} {found : Option Tree}

/-- Whether or not an attribute has operators yet, what it has for them is plain and holds what is
given to it. -/
theorem operatorsOf (h : Holds qs found) :
    Tree.Plain (.branch (operatorsOf found)) ∧ ∀ names, find names (Params.operatorsOf found) =
      held ((qs.filter fun q => orEquality q.1 = names).map (·.2)) := by
  cases h with
  | nothing => exact ⟨Tree.plain_nil, find_nil⟩
  | @plain qs v hbare hv hheld =>
      have hstart : Params.operatorsOf (some (.leaf v)) = [(Operator.equals.name, .leaf v)] := by
        rcases text_or_list_of_isTexts hv with ⟨s, rfl⟩ | ⟨items, rfl⟩ <;> rfl
      rw [hstart]
      refine ⟨Tree.plain_nil.set _ (.leaf hv) (by simp), fun names => ?_⟩
      have hfind : find names [(Operator.equals.name, .leaf v)] =
          if names = [Operator.equals.name] then some v else none := by
        cases names with
        | nil => rfl
        | cons name rest =>
            by_cases hname : name = Operator.equals.name
            · simp [find, Fields.get?_cons, hname]
            · simp [find, Fields.get?_cons, hname]
      rw [hfind]
      by_cases hnames : names = [Operator.equals.name]
      · rw [if_pos hnames, ← hheld, List.filter_eq_self.mpr]
        intro q hq
        simp [orEquality, hbare q hq, hnames]
      · rw [if_neg hnames, List.filter_eq_nil_iff.mpr]
        · rfl
        · intro q hq
          simpa [orEquality, hbare q hq] using fun h => hnames h.symm
  | operators _ hplain hfind => exact ⟨hplain, hfind⟩

/-- A tree that takes one more value holds it too. -/
theorem put {entries entries' : Entries} {v : Value} {below names : List String}
    (hfind : find names entries = held ((qs.filter fun q => orEquality q.1 = names).map (·.2)))
    (hput : find names entries' =
      if names = orEquality below then some (extend (find names entries) v)
      else find names entries) :
    find names entries' =
      held (((qs ++ [(below, v)]).filter fun q => orEquality q.1 = names).map (·.2)) := by
  rw [hput, hfind, List.filter_append, List.map_append]
  by_cases hnames : names = orEquality below
  · rw [if_pos hnames, List.filter_cons_of_pos (by simp [hnames])]
    exact (held_concat _ v).symm
  · rw [if_neg hnames, List.filter_cons_of_neg (by simpa using fun h => hnames h.symm)]
    simp

/-- What an attribute holds is kept whatever is given to it next. -/
theorem graft {v : Value} {below : List String} {tree : Tree} (hv : isTexts v = true)
    (h : Holds qs found) (hgraft : Graft v below found tree) :
    Holds (qs ++ [(below, v)]) (some tree) := by
  cases hgraft with
  | first =>
      cases h with
      | nothing => exact .plain (by simp) hv rfl
  | again =>
      cases h with
      | plain hbare hearlier hheld =>
          refine .plain ?_ (isTexts_joinValues hearlier hv) ?_
          · rw [List.forall_mem_append, List.forall_mem_singleton]
            exact ⟨hbare, rfl⟩
          · rw [List.map_append, List.map_singleton, held_concat, hheld]
            rfl
  | equality hput =>
      cases h with
      | operators hsome hplain hfind =>
          obtain ⟨q, hq, hne⟩ := hsome
          exact .operators ⟨q, List.mem_append_left _ hq, hne⟩ (plain_putValue hv hplain hput)
            fun names => put (hfind names) (find_putValue hv hplain hput names)
  | operator hbelow hput =>
      obtain ⟨hplain, hfind⟩ := h.operatorsOf
      have horEquality : orEquality below = below := if_neg hbelow
      refine .operators ⟨(below, v), by simp, hbelow⟩ (plain_putBelow hv hplain hbelow hput) ?_
      intro names
      refine put (hfind names) ?_
      rw [horEquality]
      exact find_putBelow hv hplain hbelow hput names

/-- Values are given to an attribute with operators, so there is something in its tree. -/
theorem ne_nil {entries : Entries} (h : Holds qs (some (.branch entries))) : entries ≠ [] := by
  rintro rfl
  cases h with
  | operators hsome hplain hfind =>
      obtain ⟨q, hq, -⟩ := hsome
      have hfound : ∃ v, find (orEquality q.1) [] = some v := by
        rw [hfind]
        exact ⟨_, held_map_filter_eq_some_iff.mpr ⟨q, hq, by simp, rfl⟩⟩
      rw [find_nil] at hfound
      exact absurd hfound (by simp)

/-- The leaves that an attribute has grown into are those that its values ask for. -/
theorem leaf_iff (h : Holds qs found) {names : List String} {v : Value} :
    (found.bind fun tree => valueLeaf? names tree.toValue) = some v ↔
      ∃ q ∈ qs, Given.settleBelow qs q.1 = names ∧
        collected ((qs.filter fun q => Given.settleBelow qs q.1 = names).map (·.2)) = v := by
  have hheld : ∀ {names : List String},
      held ((qs.filter fun q => Given.settleBelow qs q.1 = names).map (·.2)) = some v ↔
        ∃ q ∈ qs, Given.settleBelow qs q.1 = names ∧
          collected ((qs.filter fun q => Given.settleBelow qs q.1 = names).map (·.2)) = v := by
    intro names
    rw [held_map_filter_eq_some_iff]
    simp only [decide_eq_true_eq]
  rw [← hheld]
  cases h with
  | nothing => simp [held]
  | @plain qs u hbare hu hvalues =>
      have hsettle : ∀ q ∈ qs, Given.settleBelow qs q.1 = [] := by
        intro q hq
        rw [Given.settleBelow, if_neg, hbare q hq]
        rintro ⟨-, r, hr, hne⟩
        exact hne (hbare r hr)
      rw [Option.bind_some, Tree.toValue, valueLeaf?_of_isTexts hu]
      by_cases hnames : names = []
      · rw [if_pos hnames, List.filter_eq_self.mpr fun q hq => by simp [hsettle q hq, hnames],
          hvalues]
      · rw [if_neg hnames,
          List.filter_eq_nil_iff.mpr fun q hq => by simpa [hsettle q hq] using hnames]
        exact Iff.rfl
  | @operators qs entries hsome hplain hfind =>
      have hsettle : ∀ names, Given.settleBelow qs names = orEquality names := by
        intro names
        simp only [Given.settleBelow, orEquality, hsome, and_true]
      have hne := (Holds.operators hsome hplain hfind).ne_nil
      rw [Option.bind_some, Tree.toValue, valueLeaf?_toFields hplain hne, hfind]
      simp only [hsettle]

end Holds

end RecordQuery.Params
