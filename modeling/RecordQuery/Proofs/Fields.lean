import RecordQuery.Value.Basic
/-!
# Fields of records

Looking up and setting the fields of a record, told by the fields that it has and by their names. The
names stay distinct whatever is set (`nodup_keys_set`), and a record with distinct names has each of
its fields at its name (`get?_of_mem`).
-/

namespace RecordQuery.Fields

variable {α : Type}

/-! ## Looking up -/

/-- The value of a field is one of the fields. -/
theorem mem_of_get? {fields : List (String × α)} {key : String} {value : α}
    (h : get? fields key = some value) : (key, value) ∈ fields := by
  obtain ⟨before, after, heq, -⟩ := List.lookup_eq_some_iff.mp h
  rw [heq]
  simp

/-- A field is present when it has a value. -/
theorem has_iff {fields : List (String × α)} {key : String} :
    has fields key = true ↔ ∃ value, get? fields key = some value := by
  rw [has, Option.isSome_iff_exists]

theorem get?_append (first second : List (String × α)) (key : String) :
    get? (first ++ second) key = (get? first key).or (get? second key) :=
  List.lookup_append

/-- A field has the same value when another one is replaced. -/
theorem get?_replace {before after : List (String × α)} {key other : String} (h : other ≠ key)
    (a b : α) :
    get? (before ++ (key, a) :: after) other = get? (before ++ (key, b) :: after) other := by
  rw [get?_append, get?_append, get?_cons, get?_cons, if_neg h, if_neg h]

/-- The same fields are there when one is replaced. -/
theorem has_replace (before after : List (String × α)) (key other : String) (a b : α) :
    has (before ++ (key, a) :: after) other = has (before ++ (key, b) :: after) other := by
  rw [has, has, get?_append, get?_append, Option.isSome_or, Option.isSome_or, get?_cons, get?_cons]
  by_cases h : other = key
  · rw [if_pos h, if_pos h, Option.isSome_some, Option.isSome_some]
  · rw [if_neg h, if_neg h]

theorem keys_cons (field : String × α) (rest : List (String × α)) :
    keys (field :: rest) = field.1 :: keys rest :=
  rfl

theorem not_mem_keys {fields : List (String × α)} {key : String} :
    key ∉ keys fields ↔ get? fields key = none := by
  rw [get?, List.lookup_eq_none_iff, keys]
  simp only [List.mem_map, not_exists, not_and, bne_iff_ne, ne_eq]
  exact forall₂_congr fun field _ => not_congr eq_comm

/-- Of distinct names each has the value of its field. -/
theorem get?_of_mem {fields : List (String × α)} (h : (keys fields).Nodup) {key : String} {a : α}
    (hmem : (key, a) ∈ fields) : get? fields key = some a := by
  induction fields with
  | nil => exact absurd hmem List.not_mem_nil
  | cons field rest ih =>
      obtain ⟨k, v⟩ := field
      rw [keys, List.map_cons, List.nodup_cons] at h
      rw [get?_cons]
      rcases List.mem_cons.mp hmem with heq | hrest
      · obtain ⟨rfl, rfl⟩ := Prod.mk.inj heq
        rw [if_pos rfl]
      · have hne : key ≠ k := by
          rintro rfl
          exact h.1 (List.mem_map.mpr ⟨(key, a), hrest, rfl⟩)
        rw [if_neg hne, ih h.2 hrest]

/-- A record with distinct names is read off from them. -/
theorem map_keys_eq {fields : List (String × α)} (h : (keys fields).Nodup) (a : α) :
    (keys fields).map (fun key => (key, (get? fields key).getD a)) = fields := by
  have hfield : ∀ field ∈ fields, (field.1, (get? fields field.1).getD a) = id field := by
    rintro ⟨key, b⟩ hmem
    rw [get?_of_mem h hmem]
    rfl
  rw [keys, List.map_map]
  exact (List.map_congr_left hfield).trans (List.map_id fields)

/-- The names of a record are those that have a value. -/
theorem mem_keys {fields : List (String × α)} {key : String} :
    key ∈ keys fields ↔ ∃ value, get? fields key = some value := by
  rw [← Option.ne_none_iff_exists', ne_eq, ← not_mem_keys, Decidable.not_not]

/-- What holds of all fields with distinct names holds of the value of each name. -/
theorem forall_mem_iff {fields : List (String × α)} (h : (keys fields).Nodup)
    {P : String × α → Prop} :
    (∀ field ∈ fields, P field) ↔ ∀ key a, get? fields key = some a → P (key, a) :=
  ⟨fun hall _ _ hget => hall _ (mem_of_get? hget),
    fun hall _ hmem => hall _ _ (get?_of_mem h hmem)⟩

/-! ## Mapping the values -/

theorem keys_map_values {β : Type} (f : α → β) (fields : List (String × α)) :
    keys (fields.map fun field => (field.1, f field.2)) = keys fields := by
  rw [keys, List.map_map]
  rfl

/-- A field has the image of its value. -/
theorem get?_map_values {β : Type} (f : α → β) (fields : List (String × α)) (key : String) :
    get? (fields.map fun field => (field.1, f field.2)) key = (get? fields key).map f := by
  induction fields with
  | nil => rfl
  | cons field rest ih =>
      obtain ⟨k, v⟩ := field
      rw [List.map_cons, get?_cons, get?_cons, ih]
      split <;> rfl

/-! ## Setting -/

/-- Of two settings of a field the second counts. -/
theorem set_set (fields : List (String × α)) (key : String) (a b : α) :
    set (set fields key a) key b = set fields key b := by
  induction fields with
  | nil => simp [set]
  | cons field rest ih =>
      obtain ⟨k, v⟩ := field
      by_cases hk : k = key
      · simp [set, hk]
      · simp [set, hk, ih]

/-- Setting a field to its value changes nothing. -/
theorem set_of_get? {fields : List (String × α)} {key : String} {a : α}
    (h : get? fields key = some a) : set fields key a = fields := by
  induction fields with
  | nil => exact absurd h (by simp)
  | cons field rest ih =>
      obtain ⟨k, v⟩ := field
      rw [get?_cons] at h
      by_cases hk : key = k
      · rw [if_pos hk] at h
        obtain rfl := Option.some.inj h
        rw [set, if_pos hk.symm]
      · rw [if_neg hk] at h
        rw [set, if_neg (fun hk' => hk hk'.symm), ih h]

/-- After a setting there is the new field and there are old ones. -/
theorem eq_or_mem_of_mem_set {fields : List (String × α)} {key : String} {a : α}
    {field : String × α} (h : field ∈ set fields key a) : field = (key, a) ∨ field ∈ fields := by
  induction fields with
  | nil => exact .inl (List.mem_singleton.mp h)
  | cons first rest ih =>
      obtain ⟨k, v⟩ := first
      by_cases hk : k = key
      · rw [set, if_pos hk, List.mem_cons] at h
        rcases h with rfl | h
        · exact .inl (by rw [hk])
        · exact .inr (List.mem_cons_of_mem _ h)
      · rw [set, if_neg hk, List.mem_cons] at h
        rcases h with rfl | h
        · exact .inr List.mem_cons_self
        · exact (ih h).imp_right (List.mem_cons_of_mem _)

/-- A new field is set at the end. -/
theorem set_of_not_mem {fields : List (String × α)} {key : String} (h : key ∉ keys fields) (a : α) :
    set fields key a = fields ++ [(key, a)] := by
  induction fields with
  | nil => rfl
  | cons field rest ih =>
      obtain ⟨k, v⟩ := field
      rw [keys, List.map_cons, List.mem_cons, not_or] at h
      rw [set, if_neg (fun hk => h.1 hk.symm), ih h.2]
      rfl

/-- The names after a setting: the ones from before, and at their end the one that was set if it is
new. -/
theorem keys_set (fields : List (String × α)) (key : String) (a : α) :
    keys (set fields key a) = if key ∈ keys fields then keys fields else keys fields ++ [key] := by
  induction fields with
  | nil => rfl
  | cons field rest ih =>
      obtain ⟨k, v⟩ := field
      by_cases hk : k = key
      · rw [set, if_pos hk, keys_cons, keys_cons, hk, if_pos List.mem_cons_self]
      · rw [set, if_neg hk, keys_cons, keys_cons, ih]
        by_cases hmem : key ∈ keys rest
        · rw [if_pos hmem, if_pos (List.mem_cons_of_mem k hmem)]
        · have hmem' : key ∉ k :: keys rest := List.not_mem_cons_of_ne_of_not_mem (Ne.symm hk) hmem
          rw [if_neg hmem, if_neg hmem', List.cons_append]

/-- A name is there after a setting when it was there or is the one that was set. -/
theorem mem_keys_set {fields : List (String × α)} {key other : String} {a : α} :
    other ∈ keys (set fields key a) ↔ other ∈ keys fields ∨ other = key := by
  rw [keys_set]
  split
  · next h =>
      constructor
      · exact .inl
      · rintro (hother | rfl)
        · exact hother
        · exact h
  · rw [List.mem_append, List.mem_singleton]

/-- A name stays there whatever fields are set. -/
theorem mem_keys_foldl_set {fields done : List (String × α)} {key : String} (h : key ∈ keys done) :
    key ∈ keys (fields.foldl (fun fs field => set fs field.1 field.2) done) := by
  induction fields generalizing done with
  | nil => exact h
  | cons field rest ih => exact ih (mem_keys_set.mpr (.inl h))

/-- Distinct names stay distinct when a field is set. -/
theorem nodup_keys_set {fields : List (String × α)} (h : (keys fields).Nodup) (key : String)
    (a : α) : (keys (set fields key a)).Nodup := by
  rw [keys_set]
  split
  · exact h
  · next hkey =>
      refine List.nodup_append.mpr ⟨h, by simp, fun other hother last hlast => ?_⟩
      rintro rfl
      rw [List.mem_singleton] at hlast
      exact hkey (hlast ▸ hother)

end RecordQuery.Fields
