import RecordQuery.Proofs.Alike
import RecordQuery.Proofs.Params.Reordering
import RecordQuery.Proofs.Schema.Totality
import RecordQuery.Proofs.Text.Runs
/-!
# Lists of paths as sets

A list of dotted paths is grown into a tree one path at a time, where a later path may replace what an
earlier one has put there or be without effect. `shapeAt_insert` says what one path changes, at every
place of the tree, and `shapeAt_ofPaths` what the whole list has put there: this depends only on the
set of the names that the paths spell. So do the tree and the selections it leads to, up to the order
of their fields.
-/

namespace RecordQuery

open Params (Reordered reordered_map_values)

namespace Wanted

/-! ## The paths of a list -/

/-- The names are spelled by the path: when the blanks at both ends are cut off, they are the longest
runs without dots of what is left, in order. -/
def Spells (path : String) (names : List String) : Prop :=
  ∃ core, Text.TrimsTo Text.isBlank path.toList core ∧
    Text.MaximalRuns ['.'] (String.ofList core) names

/-- A path spells the names that it is taken apart into, and no others. -/
theorem spells_iff {path : String} {names : List String} :
    Spells path names ↔ namesOf path = names := by
  have hspells : Spells path (namesOf path) :=
    ⟨Text.trimBy Text.isBlank path.toList, Text.trimsTo_trimBy _ _,
      Text.maximalRuns_splitRuns (by simp) (Text.trim path)⟩
  constructor
  · rintro ⟨core, hcore, hruns⟩
    obtain ⟨core', hcore', hruns'⟩ := hspells
    obtain rfl : core' = core :=
      (Text.trimBy_eq_iff.mpr hcore').symm.trans (Text.trimBy_eq_iff.mpr hcore)
    exact hruns'.unique hruns
  · rintro rfl
    exact hspells

/-- Some path of the list spells the names. A path without names requests nothing. -/
def Requested (paths : List String) (place : List String) : Prop :=
  place ≠ [] ∧ ∃ path ∈ paths, Spells path place

/-- A path of the list goes on below the place. -/
def Extended (paths : List String) (place : List String) : Prop :=
  ∃ names, Requested paths names ∧ place <+: names ∧ place ≠ names

section

variable {paths : List String} {path : String} {place : List String}

theorem requested_iff_mem : Requested paths place ↔ place ≠ [] ∧ place ∈ paths.map namesOf := by
  simp only [Requested, spells_iff, List.mem_map]

theorem extended_iff_mem :
    Extended paths place ↔ ∃ names ∈ paths.map namesOf, place <+: names ∧ place ≠ names := by
  constructor
  · rintro ⟨names, hnames, hbelow⟩
    exact ⟨names, (requested_iff_mem.mp hnames).2, hbelow⟩
  · rintro ⟨names, hmem, hbelow⟩
    refine ⟨names, requested_iff_mem.mpr ⟨?_, hmem⟩, hbelow⟩
    rintro rfl
    exact hbelow.2 (List.prefix_nil.mp hbelow.1)

instance (paths : List String) (place : List String) : Decidable (Requested paths place) :=
  decidable_of_iff _ requested_iff_mem.symm

instance (paths : List String) (place : List String) : Decidable (Extended paths place) :=
  decidable_of_iff _ extended_iff_mem.symm

theorem requested_append :
    Requested (paths ++ [path]) place ↔
      Requested paths place ∨ namesOf path = place ∧ place ≠ [] := by
  simp only [requested_iff_mem, List.map_append, List.mem_append, List.map_cons, List.map_nil,
    List.mem_singleton, and_or_left, @eq_comm _ (namesOf path), and_comm]

/-- No path goes on below the end of a path without names. -/
theorem extended_append :
    Extended (paths ++ [path]) place ↔
      Extended paths place ∨ place <+: namesOf path ∧ place ≠ namesOf path := by
  simp only [extended_iff_mem, List.map_append, List.map_cons, List.map_nil, List.mem_append,
    List.mem_singleton, or_and_right, exists_or, exists_eq_left]

end

/-! ## Places in a tree -/

/-- What one comes to by following names. -/
def at? : (names : List String) → Wanted → Option Wanted
  | [], wanted => some wanted
  | name :: rest, parts entries => (Fields.get? entries name).bind (at? rest)
  | _ :: _, whole => none

/-- Parts are wanted, and not the whole. -/
def isParts : Wanted → Bool
  | parts _ => true
  | whole => false

/-- Whether one comes to parts or to the whole by following names, if to anything. -/
def shapeAt (names : List String) (wanted : Wanted) : Option Bool :=
  (at? names wanted).map isParts

section

variable {names : List String} {name : String} {rest : List String} {wanted : Wanted}
  {entries : List (String × Wanted)}

@[simp] theorem shapeAt_nil (wanted : Wanted) : shapeAt [] wanted = some wanted.isParts :=
  rfl

theorem shapeAt_cons_parts (name : String) (rest : List String) (entries : List (String × Wanted)) :
    shapeAt (name :: rest) (parts entries) = (Fields.get? entries name).bind (shapeAt rest) := by
  rw [shapeAt, at?, Option.map_bind]
  rfl

@[simp] theorem shapeAt_cons_whole (name : String) (rest : List String) :
    shapeAt (name :: rest) whole = none :=
  rfl

/-- One comes to the whole where the shape is that of the whole. -/
theorem at?_eq_whole_iff : at? names wanted = some whole ↔ shapeAt names wanted = some false := by
  rw [shapeAt, Option.map_eq_some_iff]
  constructor
  · intro h
    exact ⟨whole, h, rfl⟩
  · rintro ⟨found, hfound, hshape⟩
    cases found with
    | whole => exact hfound
    | parts => exact absurd hshape (by simp [isParts])

/-- One comes to parts where the shape is that of parts. -/
theorem exists_at?_eq_parts_iff :
    (∃ inner, at? names wanted = some (parts inner)) ↔ shapeAt names wanted = some true := by
  rw [shapeAt, Option.map_eq_some_iff]
  constructor
  · rintro ⟨inner, h⟩
    exact ⟨_, h, rfl⟩
  · rintro ⟨found, hfound, hshape⟩
    cases found with
    | whole => exact absurd hshape (by simp [isParts])
    | parts inner => exact ⟨inner, hfound⟩

theorem at?_eq_none_iff : at? names wanted = none ↔ shapeAt names wanted = none := by
  rw [shapeAt, Option.map_eq_none_iff]

end

/-! ## What one path changes -/

/-- The parts that are wanted of a name; there are none where the whole is wanted or nothing. -/
def inner (entries : List (String × Wanted)) (name : String) : List (String × Wanted) :=
  match Fields.get? entries name with
  | some (.parts inner) => inner
  | _ => []

section

variable (entries : List (String × Wanted)) (name next : String) (rest place : List String)

/-- A path that ends with a name leaves parts there as they are, and puts the whole in the place of
anything else. -/
theorem insert_last : insert [name] entries =
    if (Fields.get? entries name).any isParts then entries else Fields.set entries name .whole := by
  rw [insert.eq_def]
  cases hget : Fields.get? entries name with
  | none => simp [hget]
  | some wanted => cases wanted <;> simp [hget, isParts]

/-- A path that goes on is put into the parts of its first name. -/
theorem insert_further : insert (name :: next :: rest) entries =
    Fields.set entries name (.parts (insert (next :: rest) (inner entries name))) := by
  rw [insert.eq_def, inner]
  cases hget : Fields.get? entries name with
  | none => simp [hget]
  | some wanted => cases wanted <;> simp [hget]

/-- Further down than one name, one comes to something by way of parts only. -/
theorem shapeAt_inner (h : place ≠ []) :
    shapeAt (name :: place) (.parts entries) = shapeAt place (.parts (inner entries name)) := by
  obtain ⟨next, rest, rfl⟩ := List.exists_cons_of_ne_nil h
  rw [shapeAt_cons_parts, inner]
  cases hget : Fields.get? entries name with
  | none => rfl
  | some wanted => cases wanted <;> rfl

/-- Below other names than its first one a path changes nothing. -/
theorem get?_insert_of_ne {other : String} (h : other ≠ name) :
    Fields.get? (insert (name :: rest) entries) other = Fields.get? entries other := by
  cases rest with
  | nil =>
      rw [insert_last]
      split
      · rfl
      · exact Fields.get?_set_of_ne entries _ h
  | cons next rest =>
      rw [insert_further]
      exact Fields.get?_set_of_ne entries _ h

/-- At the name where a path ends there is the whole unless there were parts, and further down nothing
changes. -/
theorem shapeAt_insert_last : shapeAt (name :: place) (.parts (insert [name] entries)) =
    if place = [] then some ((shapeAt [name] (.parts entries)).getD false)
    else shapeAt (name :: place) (.parts entries) := by
  rw [insert_last, shapeAt_cons_parts, shapeAt_cons_parts, shapeAt_cons_parts]
  cases hget : Fields.get? entries name with
  | none => cases place <;> simp [Fields.get?_set_self, isParts]
  | some wanted =>
      cases wanted <;> cases place <;> simp [Fields.get?_set_self, hget, isParts]

end

/-- **What one path changes.** There are parts wherever the path goes on, and where it ends there is
the whole unless there were parts. Elsewhere it leaves everything as it is. -/
theorem shapeAt_insert {names : List String} (hnames : names ≠ []) (place : List String) :
    ∀ entries : List (String × Wanted), shapeAt place (.parts (insert names entries)) =
      if place <+: names ∧ place ≠ names then some true
      else if place = names then some ((shapeAt place (.parts entries)).getD false)
      else shapeAt place (.parts entries) := by
  induction names generalizing place with
  | nil => exact absurd rfl hnames
  | cons name rest ih =>
      intro entries
      match place with
      | [] => simp [isParts]
      | other :: later =>
          by_cases hother : other = name
          · -- both go on below the same name, where the path without it has been put
            subst hother
            simp only [List.cons_prefix_cons, true_and, ne_eq, List.cons.injEq]
            match rest with
            | [] =>
                rw [shapeAt_insert_last]
                cases later <;> simp
            | next :: rest =>
                rw [insert_further, shapeAt_cons_parts, Fields.get?_set_self, Option.bind_some,
                  ih (List.cons_ne_nil _ _) later]
                match later with
                | [] => simp
                | last :: later => rw [shapeAt_inner entries other _ (List.cons_ne_nil _ _)]
          · rw [if_neg (by simp [hother]), if_neg (by simp [hother]), shapeAt_cons_parts,
              get?_insert_of_ne entries name rest hother, shapeAt_cons_parts]

/-- A path without names changes nothing. -/
theorem insert_nil (entries : List (String × Wanted)) : insert [] entries = entries := by
  rw [insert]

theorem ofPaths_append (paths : List String) (path : String) :
    ofPaths (paths ++ [path]) = insert (namesOf path) (ofPaths paths) := by
  rw [ofPaths, ofPaths, List.foldl_append, List.foldl_cons, List.foldl_nil]

/-- **What a list of paths has put into the tree.** There are parts at the top and wherever a path goes
on, and the whole where a path ends and none goes on. -/
theorem shapeAt_ofPaths (paths : List String) (place : List String) :
    shapeAt place (.parts (ofPaths paths)) =
      if place = [] ∨ Extended paths place then some true
      else if Requested paths place then some false else none := by
  induction paths using List.reverseRecOn with
  | nil =>
      cases place with
      | nil => simp [isParts]
      | cons name rest => simp [Extended, Requested, ofPaths, shapeAt_cons_parts]
  | append_singleton paths path ih =>
      rw [ofPaths_append]
      by_cases hnames : namesOf path = []
      · -- a path without names is not requested and changes nothing
        have hrequested : Requested (paths ++ [path]) place ↔ Requested paths place := by
          rw [requested_append, hnames]
          exact or_iff_left fun h => h.2 h.1.symm
        have hextended : Extended (paths ++ [path]) place ↔ Extended paths place := by
          rw [extended_append, hnames, List.prefix_nil]
          exact or_iff_left fun h => h.2 h.1
        simp only [hnames, insert_nil, ih, hextended, hrequested]
      · rw [shapeAt_insert hnames, ih]
        simp only [extended_append, requested_append]
        by_cases hplace : place = namesOf path
        · simp only [hplace, hnames, false_or, List.prefix_rfl, ne_eq, not_true_eq_false, and_false, or_false,
            if_false, if_true, true_and, not_false_eq_true, or_true]
          split
          · rfl
          · split <;> rfl
        · by_cases hbelow : place <+: namesOf path
          · simp [hplace, hbelow]
          · simp [hplace, hbelow, Ne.symm hplace]

/-! ## Trees with the same places -/

/-- No two entries at one place have one name. -/
inductive Distinct : Wanted → Prop
  | whole : Distinct .whole
  | parts {entries : List (String × Wanted)} : (Fields.keys entries).Nodup →
      (∀ name wanted, Fields.get? entries name = some wanted → Distinct wanted) →
      Distinct (.parts entries)

section

variable {entries : List (String × Wanted)}

theorem distinct_nil : Distinct (.parts []) :=
  .parts List.nodup_nil fun _ _ hnone => absurd hnone (by simp)

theorem Distinct.nodup (h : Distinct (.parts entries)) : (Fields.keys entries).Nodup := by
  cases h with
  | parts hnodup _ => exact hnodup

theorem Distinct.get? (h : Distinct (.parts entries)) {name : String} {wanted : Wanted}
    (hwanted : Fields.get? entries name = some wanted) : wanted.Distinct := by
  cases h with
  | parts _ hentries => exact hentries name wanted hwanted

theorem Distinct.set (h : Distinct (.parts entries)) (name : String) {wanted : Wanted}
    (hwanted : wanted.Distinct) : Distinct (.parts (Fields.set entries name wanted)) := by
  refine .parts (Fields.nodup_keys_set h.nodup name wanted) fun other found hfound => ?_
  by_cases hother : other = name
  · rw [hother, Fields.get?_set_self] at hfound
    rwa [← Option.some.inj hfound]
  · rw [Fields.get?_set_of_ne entries wanted hother] at hfound
    exact h.get? hfound

theorem Distinct.inner (h : Distinct (.parts entries)) (name : String) :
    Distinct (.parts (inner entries name)) := by
  rw [Wanted.inner]
  split
  · next below hget => exact h.get? hget
  · exact distinct_nil

/-- Names stay distinct when a path is put into the tree. -/
theorem Distinct.insert (names : List String) :
    ∀ {entries : List (String × Wanted)}, Distinct (.parts entries) →
      Distinct (.parts (Wanted.insert names entries)) := by
  induction names with
  | nil =>
      intro entries h
      rwa [insert_nil]
  | cons name rest ih =>
      intro entries h
      match rest with
      | [] =>
          rw [insert_last]
          split
          · exact h
          · exact h.set name .whole
      | next :: rest =>
          rw [insert_further]
          exact h.set name (ih (h.inner name))

theorem distinct_ofPaths (paths : List String) : Distinct (.parts (ofPaths paths)) := by
  induction paths using List.reverseRecOn with
  | nil => exact distinct_nil
  | append_singleton paths path ih =>
      rw [ofPaths_append]
      exact ih.insert (namesOf path)

end

/-- Both trees have distinct names, and one comes to the same in both by following names. -/
structure SamePlaces (wanted wanted' : Wanted) : Prop where
  distinct : wanted.Distinct
  distinct' : wanted'.Distinct
  shape : ∀ place, shapeAt place wanted = shapeAt place wanted'

/-- An entry has a name when one comes to something by it. -/
theorem mem_keys_iff {entries : List (String × Wanted)} {name : String} :
    name ∈ Fields.keys entries ↔ (shapeAt [name] (.parts entries)).isSome = true := by
  rw [Fields.mem_keys, shapeAt_cons_parts]
  cases Fields.get? entries name <;> simp

namespace SamePlaces

variable {entries entries' : List (String × Wanted)}

theorem symm {wanted wanted' : Wanted} (h : SamePlaces wanted wanted') :
    SamePlaces wanted' wanted :=
  ⟨h.distinct', h.distinct, fun place => (h.shape place).symm⟩

theorem mem_keys (h : SamePlaces (.parts entries) (.parts entries')) (name : String) :
    name ∈ Fields.keys entries ↔ name ∈ Fields.keys entries' := by
  rw [mem_keys_iff, mem_keys_iff, h.shape]

theorem get? (h : SamePlaces (.parts entries) (.parts entries')) {name : String}
    {wanted wanted' : Wanted} (hget : Fields.get? entries name = some wanted)
    (hget' : Fields.get? entries' name = some wanted') : SamePlaces wanted wanted' := by
  refine ⟨h.distinct.get? hget, h.distinct'.get? hget', fun place => ?_⟩
  have hshape := h.shape (name :: place)
  rwa [shapeAt_cons_parts, shapeAt_cons_parts, hget, hget'] at hshape

/-- What one tree wants of a name the other wants too. -/
theorem exists_get? (h : SamePlaces (.parts entries) (.parts entries')) {name : String}
    {wanted : Wanted} (hget : Fields.get? entries name = some wanted) :
    ∃ wanted', Fields.get? entries' name = some wanted' ∧ SamePlaces wanted wanted' := by
  have hname : name ∈ Fields.keys entries := Fields.mem_keys.mpr ⟨wanted, hget⟩
  obtain ⟨wanted', hget'⟩ := Fields.mem_keys.mp ((h.mem_keys name).mp hname)
  exact ⟨wanted', hget', h.get? hget hget'⟩

/-- Trees that have grown from lists with the same paths have the same places. -/
theorem ofPaths {paths paths' : List String}
    (h : ∀ names, Requested paths names ↔ Requested paths' names) :
    SamePlaces (.parts (Wanted.ofPaths paths)) (.parts (Wanted.ofPaths paths')) := by
  refine ⟨distinct_ofPaths paths, distinct_ofPaths paths', fun place => ?_⟩
  have hextended : Extended paths place ↔ Extended paths' place := by
    rw [Extended, Extended]
    simp only [h]
  simp only [shapeAt_ofPaths, hextended, h]

end SamePlaces

theorem toFields_eq_map (entries : List (String × Wanted)) :
    toFields entries = entries.map fun entry => (entry.1, entry.2.toValue) := by
  induction entries with
  | nil => rfl
  | cons entry rest ih =>
      obtain ⟨name, wanted⟩ := entry
      rw [toFields, ih]
      rfl

/-- Trees with the same places differ in the order of entries alone. -/
theorem SamePlaces.reordered {wanted wanted' : Wanted} (h : SamePlaces wanted wanted') :
    Reordered wanted.toValue wanted'.toValue := by
  obtain ⟨hdistinct, hdistinct', hshape⟩ := h
  induction hdistinct generalizing wanted' with
  | whole =>
      cases wanted' with
      | whole => exact .same _
      | parts entries' => exact absurd (hshape []) (by simp [isParts])
  | @parts entries hnodup hentries ih =>
      cases wanted' with
      | whole => exact absurd (hshape []) (by simp [isParts])
      | parts entries' =>
          have h : SamePlaces (.parts entries) (.parts entries') :=
            ⟨.parts hnodup hentries, hdistinct', hshape⟩
          rw [toValue, toValue, toFields_eq_map, toFields_eq_map]
          apply reordered_map_values toValue hnodup hdistinct'.nodup h.mem_keys
          intro name wanted wanted' hget hget'
          have hsame := h.get? hget hget'
          exact ih name wanted hget hsame.distinct' hsame.shape

end Wanted

/-! ## Selections for the same places -/

namespace Selected

theorem toFields_eq_map (fields : List (String × Selected)) :
    toFields fields = fields.map fun field => (field.1, field.2.toValue) := by
  induction fields with
  | nil => rfl
  | cons field rest ih =>
      obtain ⟨name, selected⟩ := field
      rw [toFields, ih]
      rfl

/-- The two selections differ in the order of fields alone. -/
def Reorders (fields fields' : List (String × Selected)) : Prop :=
  Reordered (.record (toFields fields)) (.record (toFields fields'))

theorem reordered_related (entity : String) (cardinality : Cardinality)
    (pairs : List IdentifierPair) {fields fields' : List (String × Selected)}
    (h : Reorders fields fields') :
    Reordered (related entity cardinality pairs fields).toValue
      (related entity cardinality pairs fields').toValue := by
  rw [toValue, toValue]
  exact .record (.refl _) rfl (.cons (.same _) (.cons (.same _) (.cons (.same _) (.cons h .nil))))

end Selected

/-- What is wanted of an attribute at the same places is selected alike. -/
def EntriesAlike (r : Registry) (depth : Nat) (schema : Schema) (visited : List String) : Prop :=
  ∀ name wanted wanted', Wanted.SamePlaces wanted wanted' →
    Alike AnyErrors (fun field field' => Reordered field.2.toValue field'.2.toValue)
      (resolveEntry r (entering r depth) schema visited name wanted)
      (resolveEntry r (entering r depth) schema visited name wanted')

section

variable {r : Registry} {depth : Nat} {schema : Schema} {visited : List String}
  {entries entries' : List (String × Wanted)} {fields fields' : List (String × Selected)}

/-- Entries with distinct names are resolved when what is wanted of each name is. -/
theorem exists_resolve_iff_of_nodup (h : (Fields.keys entries).Nodup) :
    (∃ fields, resolve r depth schema visited entries = .ok fields) ↔
      ∀ name wanted, Fields.get? entries name = some wanted →
        ∃ field, resolveEntry r (entering r depth) schema visited name wanted = .ok field := by
  rw [resolve_eq_mapM, exists_mapM_iff, Fields.forall_mem_iff h]

/-- Each selected field is what the entry of its name is resolved to. -/
theorem exists_resolveEntry_of_get? (h : (Fields.keys entries).Nodup)
    (hrun : resolve r depth schema visited entries = .ok fields) {name : String}
    {selected : Selected} (hget : Fields.get? fields name = some selected) :
    ∃ wanted, Fields.get? entries name = some wanted ∧
      resolveEntry r (entering r depth) schema visited name wanted = .ok (name, selected) := by
  obtain ⟨⟨other, wanted⟩, hmem, hresolves⟩ :=
    exists_mem_of_forall₂ (forall₂_of_resolve hrun) (Fields.mem_of_get? hget)
  obtain rfl : name = other := hresolves.name_eq
  exact ⟨wanted, Fields.get?_of_mem h hmem, resolveEntry_of_resolves hresolves⟩

/-- Entries are resolved when entries at the same places are. -/
theorem exists_resolve_of_samePlaces (hentries : EntriesAlike r depth schema visited)
    (h : Wanted.SamePlaces (.parts entries) (.parts entries'))
    (hok : ∃ fields, resolve r depth schema visited entries = .ok fields) :
    ∃ fields, resolve r depth schema visited entries' = .ok fields := by
  rw [exists_resolve_iff_of_nodup h.distinct.nodup] at hok
  rw [exists_resolve_iff_of_nodup h.distinct'.nodup]
  intro name wanted' hget'
  obtain ⟨wanted, hget, hsame⟩ := h.symm.exists_get? hget'
  exact (hentries name wanted wanted' hsame.symm).exists_ok_iff.mp (hok name wanted hget)

/-- What is selected for entries at the same places differs in the order of fields alone. -/
theorem reorders_of_samePlaces (hentries : EntriesAlike r depth schema visited)
    (h : Wanted.SamePlaces (.parts entries) (.parts entries'))
    (hrun : resolve r depth schema visited entries = .ok fields)
    (hrun' : resolve r depth schema visited entries' = .ok fields') :
    Selected.Reorders fields fields' := by
  rw [Selected.Reorders, Selected.toFields_eq_map, Selected.toFields_eq_map]
  apply reordered_map_values Selected.toValue
  · rw [keys_of_resolve hrun]
    exact h.distinct.nodup
  · rw [keys_of_resolve hrun']
    exact h.distinct'.nodup
  · intro name
    rw [keys_of_resolve hrun, keys_of_resolve hrun']
    exact h.mem_keys name
  · -- the fields of one name come from the entries of that name, which have been resolved alike
    intro name selected selected' hget hget'
    obtain ⟨wanted, hwanted, hfield⟩ := exists_resolveEntry_of_get? h.distinct.nodup hrun hget
    obtain ⟨wanted', hwanted', hfield'⟩ := exists_resolveEntry_of_get? h.distinct'.nodup hrun' hget'
    have halike := hentries name wanted wanted' (h.get? hwanted hwanted')
    rw [hfield, hfield'] at halike
    cases halike with
    | ok hreordered => exact hreordered

/-- Entries at the same places are selected alike when what is wanted of each attribute is. -/
theorem EntriesAlike.alike_resolve (hentries : EntriesAlike r depth schema visited)
    (h : Wanted.SamePlaces (.parts entries) (.parts entries')) :
    Alike AnyErrors Selected.Reorders (resolve r depth schema visited entries)
      (resolve r depth schema visited entries') := by
  cases hrun : resolve r depth schema visited entries with
  | error e =>
      cases hrun' : resolve r depth schema visited entries' with
      | error e' => exact .failed
      | ok fields' =>
          obtain ⟨fields, hfields⟩ := exists_resolve_of_samePlaces hentries h.symm ⟨fields', hrun'⟩
          exact absurd (hrun.symm.trans hfields) (by simp)
  | ok fields =>
      obtain ⟨fields', hrun'⟩ := exists_resolve_of_samePlaces hentries h ⟨fields, hrun⟩
      rw [hrun']
      exact .ok (reorders_of_samePlaces hentries h hrun hrun')

end

/-- Where `depth` further relations may be entered, selections of the same places end alike. -/
def SelectsAlike (r : Registry) (depth : Nat) : Prop :=
  ∀ (schema : Schema) (visited : List String) {entries entries' : List (String × Wanted)},
    Wanted.SamePlaces (.parts entries) (.parts entries') →
    Alike AnyErrors Selected.Reorders (resolve r depth schema visited entries)
      (resolve r depth schema visited entries')

/-- What is wanted of the target of a relation is selected alike. -/
theorem SelectsAlike.wantedOf {r : Registry} {depth : Nat} (h : SelectsAlike r depth)
    {wanted wanted' : Wanted} (hsame : Wanted.SamePlaces wanted wanted') (relation : Relation)
    (target : Schema) (visited : List String) :
    Alike AnyErrors Selected.Reorders
      (resolve r depth target visited (RecordQuery.wantedOf relation target wanted))
      (resolve r depth target visited (RecordQuery.wantedOf relation target wanted')) := by
  cases wanted with
  | whole =>
      cases wanted' with
      | whole => exact .refl (fun _ => trivial) (fun _ => .same _) _
      | parts entries' => exact absurd (hsame.shape []) (by simp [Wanted.isParts])
  | parts entries =>
      cases wanted' with
      | whole => exact absurd (hsame.shape []) (by simp [Wanted.isParts])
      | parts entries' => exact h target visited hsame

/-- One attribute is selected alike when what is inside its relation is. -/
theorem alike_resolveEntry {r : Registry} {depth : Nat} (inside : ∀ less < depth, SelectsAlike r less)
    (schema : Schema) (visited : List String) (name : String) {wanted wanted' : Wanted}
    (hsame : Wanted.SamePlaces wanted wanted') :
    Alike AnyErrors (fun field field' => Reordered field.2.toValue field'.2.toValue)
      (resolveEntry r (entering r depth) schema visited name wanted)
      (resolveEntry r (entering r depth) schema visited name wanted') := by
  cases entryCase r schema visited name depth with
  | missing hdefinition =>
      rw [resolveEntry_missing hdefinition, resolveEntry_missing hdefinition]
      exact .failed
  | plain hdefinition hrelation =>
      rw [resolveEntry_plain hdefinition hrelation, resolveEntry_plain hdefinition hrelation]
      exact .ok (.same _)
  | truncated hdefinition hrelation hreason =>
      rw [resolveEntry_truncated hdefinition hrelation hreason,
        resolveEntry_truncated hdefinition hrelation hreason]
      exact .ok (.same _)
  | unregistered hdefinition hrelation hvisited htarget =>
      rw [resolveEntry_unregistered hdefinition hrelation hvisited htarget,
        resolveEntry_unregistered hdefinition hrelation hvisited htarget]
      exact .failed
  | entered hdefinition hrelation hvisited htarget =>
      rw [resolveEntry_entered hdefinition hrelation hvisited htarget,
        resolveEntry_entered hdefinition hrelation hvisited htarget]
      refine (Alike.same _).bind_eq fun pairs => ?_
      refine ((inside _ (Nat.lt_succ_self _)).wantedOf hsame _ _ _).bind fun fields fields' hfields => ?_
      exact .ok (Selected.reordered_related _ _ pairs hfields)

/-- Selections of the same places end alike. -/
theorem selectsAlike (r : Registry) (depth : Nat) : SelectsAlike r depth := by
  induction depth using Nat.strong_induction_on with
  | _ depth ih =>
      intro schema visited entries entries' h
      have hentries : EntriesAlike r depth schema visited := fun name wanted wanted' hsame =>
        alike_resolveEntry ih schema visited name hsame
      exact hentries.alike_resolve h

/-- **Lists of paths are sets.** By following names in the tree of a list of paths one comes to the whole
of something where a path ends and none goes on, to parts at the top and where a path goes on, and to
nothing anywhere else. Lists that spell the same paths, in any order and however often, grow into the
same tree but for the order of entries, and the selections for them both fail or are the same but for
the order of fields. -/
theorem paths_are_sets {paths paths' : List String}
    (h : ∀ names, Wanted.Requested paths names ↔ Wanted.Requested paths' names) :
    (∀ place,
      (Wanted.at? place (.parts (Wanted.ofPaths paths)) = some .whole ↔
        Wanted.Requested paths place ∧ ¬Wanted.Extended paths place) ∧
      ((∃ entries, Wanted.at? place (.parts (Wanted.ofPaths paths)) = some (.parts entries)) ↔
        place = [] ∨ Wanted.Extended paths place) ∧
      (Wanted.at? place (.parts (Wanted.ofPaths paths)) = none ↔
        place ≠ [] ∧ ¬Wanted.Requested paths place ∧ ¬Wanted.Extended paths place)) ∧
    Reordered (.record (Wanted.toFields (Wanted.ofPaths paths)))
      (.record (Wanted.toFields (Wanted.ofPaths paths'))) ∧
    ∀ r maxDepth schema visited, Alike AnyErrors Selected.Reorders
      (inferSelections r maxDepth schema visited (Wanted.ofPaths paths))
      (inferSelections r maxDepth schema visited (Wanted.ofPaths paths')) := by
  have hsame := Wanted.SamePlaces.ofPaths h
  refine ⟨fun place => ?_, hsame.reordered, fun r maxDepth schema visited =>
    selectsAlike r maxDepth.toNat schema visited hsame⟩
  rw [Wanted.at?_eq_whole_iff, Wanted.exists_at?_eq_parts_iff, Wanted.at?_eq_none_iff,
    Wanted.shapeAt_ofPaths]
  split
  · next hparts =>
      by_cases hplace : place = []
      · simp [hplace, Wanted.Requested]
      · simp [hplace, hparts.resolve_left hplace]
  · next hparts =>
      obtain ⟨hplace, hextended⟩ := not_or.mp hparts
      by_cases hmem : Wanted.Requested paths place
      · simp [hplace, hextended, hmem]
      · simp [hplace, hextended, hmem]

/-- Paths to the members of a user's group, to the group as a whole, to the user's name and to the title
of the group. -/
def clubPaths : List String :=
  ["group.members.name", "group", "name", "group.title"]

/-- The same paths in another order, some of them twice and with blanks and dots to spare. -/
def scatteredPaths : List String :=
  ["group", "name", " group..title ", "..", "group.members.name", "name."]

theorem clubPaths_names : clubPaths.map Wanted.namesOf =
    [["group", "members", "name"], ["group"], ["name"], ["group", "title"]] := by decide +kernel

theorem scatteredPaths_names : scatteredPaths.map Wanted.namesOf =
    [["group"], ["name"], ["group", "title"], [], ["group", "members", "name"], ["name"]] := by
  decide +kernel

/-- The two lists spell the same paths and grow into trees that differ in the order of the parts of the
group alone, and so does what is selected for them. -/
theorem scatteredPaths_selected :
    (∀ names, Wanted.Requested clubPaths names ↔ Wanted.Requested scatteredPaths names) ∧
      (∃ entries, Wanted.at? ["group"] (.parts (Wanted.ofPaths clubPaths)) = some (.parts entries)) ∧
      Wanted.toFields (Wanted.ofPaths clubPaths) =
        [("group", .record [("members", .record [("name", .bool true)]), ("title", .bool true)]),
          ("name", .bool true)] ∧
      Wanted.toFields (Wanted.ofPaths scatteredPaths) =
        [("group", .record [("title", .bool true), ("members", .record [("name", .bool true)])]),
          ("name", .bool true)] ∧
      ∃ fields fields',
        inferSelections clubRegistry 5 (clubSchema "User" "name" "group" "Group" ["name"]) []
          (Wanted.ofPaths clubPaths) = .ok fields ∧
        inferSelections clubRegistry 5 (clubSchema "User" "name" "group" "Group" ["name"]) []
          (Wanted.ofPaths scatteredPaths) = .ok fields' ∧
        Selected.Reorders fields fields' := by
  have hsame : ∀ names,
      Wanted.Requested clubPaths names ↔ Wanted.Requested scatteredPaths names := by
    intro names
    simp only [Wanted.requested_iff_mem, clubPaths_names, scatteredPaths_names, List.mem_cons,
      List.not_mem_nil, or_false]
    tauto
  obtain ⟨hplaces, -, hselect⟩ := paths_are_sets hsame
  have halike := hselect clubRegistry 5 (clubSchema "User" "name" "group" "Group" ["name"]) []
  have hbelow : Wanted.Extended clubPaths ["group"] :=
    Wanted.extended_iff_mem.mpr (by rw [clubPaths_names]; decide)
  refine ⟨hsame, (hplaces ["group"]).2.1.mpr (.inr hbelow), by decide +kernel, by decide +kernel, ?_⟩
  have hok : (inferSelections clubRegistry 5 (clubSchema "User" "name" "group" "Group" ["name"]) []
      (Wanted.ofPaths clubPaths)).isOk = true := by decide +kernel
  generalize inferSelections clubRegistry 5 _ [] (Wanted.ofPaths clubPaths) = run at hok halike ⊢
  generalize inferSelections clubRegistry 5 _ [] (Wanted.ofPaths scatteredPaths) = run' at halike ⊢
  cases halike with
  | ok hreorders => exact ⟨_, _, rfl, rfl, hreorders⟩
  | error => exact absurd hok (by simp [Except.isOk, Except.toBool])

end RecordQuery
