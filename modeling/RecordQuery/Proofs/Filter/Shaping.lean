import RecordQuery.Filter.Wire
import RecordQuery.Proofs.Filter.Descent
import RecordQuery.Proofs.Outcome
/-!
# The values that canonical filters store

Shaping brings the value of an operator into the form that the operator takes, inside literal
envelopes too. `Value.Stored` describes the forms that come out of it: a chain of literal envelopes
that ends in a list, in a pair, in a bare value or in another envelope. A stored value that has been
written as plain data is shaped into itself again.
-/

namespace RecordQuery

/-! ## Envelopes -/

namespace Value

/-- The content of an envelope is smaller, so what holds of a value when it holds of its content
holds of every value. -/
@[elab_as_elim]
theorem contentInduction {P : Value → Prop}
    (envelope : ∀ fields content, Fields.get? fields "val" = some content → P content →
      P (.record fields))
    (bare : ∀ v : Value, v.envelope? = none → P v) (v : Value) : P v := by
  induction v using partInduction with
  | record fields ih =>
      cases hval : Fields.get? fields "val" with
      | none => exact bare _ (by simp [envelope?, hval])
      | some content => exact envelope fields content hval (ih _ (Fields.mem_of_get? hval))
  | list | tuple | deferred => exact bare _ rfl
  | other v hitems hrecord hdeferred =>
      cases v with
      | record => exact absurd hrecord (by simp [record?])
      | _ => exact bare _ rfl

/-- A record with a content is an envelope. -/
theorem envelope?_record {fields : Fields} {content : Value}
    (h : Fields.get? fields "val" = some content) :
    (record fields).envelope? = some (content, (Fields.get? fields "valType").getD .null) := by
  simp [envelope?, h]

/-- The kind of an envelope does not hang on its content. -/
theorem kind_set_val {fields : Fields} {content : Value}
    (h : Fields.get? fields "val" = some content) (other : Value) :
    (record (Fields.set fields "val" other)).kind = (record fields).kind := by
  have hother : Fields.get? (Fields.set fields "val" other) "val" = some other :=
    Fields.get?_set_self fields "val" other
  rw [kind, kind, envelope?_record h, envelope?_record hother,
    Fields.get?_set_of_ne fields other (by decide : "valType" ≠ "val")]

end Value

/-! ## Shaping -/

/-- A value without an envelope is shaped as it is. -/
theorem shapeValue_of_not_envelope {op : Operator} {v : Value} (h : v.envelope? = none) :
    shapeValue op v = shapeBare op v := by
  cases v with
  | record fields =>
      have hval : Fields.has fields "val" = false := by
        simpa [Value.envelope?, Fields.has] using h
      simp [shapeValue, hval]
  | null | bool | int | float | text | list | tuple | moment | connective | node | deferred => rfl

/-- What is shaped for an operator on several values becomes the list of its items. -/
theorem shapeBare_of_isListed {op : Operator} (h : op.isListed = true) (v : Value) :
    shapeBare op v = .ok (.list v.toItems) :=
  if_pos h

/-- What is shaped for a range becomes the pair of its ends. -/
theorem shapeBare_between (v : Value) : shapeBare .between v = v.toRange.map Value.ofRange := rfl

/-- What is shaped for another operator stays as it is. -/
theorem shapeBare_of_single {op : Operator} (hlisted : op.isListed = false) (hbetween : op ≠ .between)
    (v : Value) : shapeBare op v = .ok v := by
  rw [shapeBare, if_neg (by simp [hlisted]), if_neg hbetween]

/-- An operator takes several values, a range, or one value. -/
theorem Operator.form_cases (op : Operator) :
    op.isListed = true ∨ op = .between ∨ op.isListed = false ∧ op ≠ .between := by
  cases op <;> decide

/-- No envelope comes out of shaping a value without one. -/
theorem not_envelope_of_shapeBare {op : Operator} {v shaped : Value} (henv : v.envelope? = none)
    (h : shapeBare op v = .ok shaped) : shaped.envelope? = none := by
  rcases op.form_cases with hlisted | rfl | ⟨hlisted, hbetween⟩
  · rw [shapeBare_of_isListed hlisted] at h
    rw [← Except.ok.inj h]
    rfl
  · rw [shapeBare_between] at h
    obtain ⟨range, -, rfl⟩ := map_eq_ok_iff.mp h
    rfl
  · rw [shapeBare_of_single hlisted hbetween] at h
    rwa [← Except.ok.inj h]

/-- The content among the fields of an envelope is shaped in its place. -/
theorem shapeContent_eq {op : Operator} {fields : Fields} {content : Value}
    (h : Fields.get? fields "val" = some content) :
    shapeContent op fields = (shapeValue op content).map (Fields.set fields "val") := by
  induction fields with
  | nil => exact absurd h (by simp)
  | cons field rest ih =>
      obtain ⟨key, value⟩ := field
      rw [Fields.get?_cons] at h
      by_cases hkey : key = "val"
      · rw [if_pos hkey.symm] at h
        obtain rfl := Option.some.inj h
        rw [shapeContent, if_pos hkey]
        cases shapeValue op value with
        | error e => rfl
        | ok shaped => simp [Except.map, Fields.set, hkey]
      · rw [if_neg (fun hkey' => hkey hkey'.symm)] at h
        rw [shapeContent, if_neg hkey, ih h]
        cases shapeValue op content with
        | error e => rfl
        | ok shaped => simp [Except.map, Fields.set, hkey]

/-- A literal envelope keeps its other fields. -/
theorem shapeValue_literal {op : Operator} {fields : Fields} {content : Value}
    (h : Fields.get? fields "val" = some content) (hk : (Value.record fields).kind = .literal) :
    shapeValue op (.record fields) =
      (shapeValue op content).map fun shaped => .record (Fields.set fields "val" shaped) := by
  have hval : Fields.has fields "val" = true := Fields.has_iff.mpr ⟨content, h⟩
  rw [shapeValue, if_pos (by simp [hval, hk]), shapeContent_eq h]
  cases shapeValue op content with
  | error e => rfl
  | ok shaped => rfl

/-- An envelope that is no literal is kept as it is. -/
theorem shapeValue_of_kind_ne {op : Operator} {fields : Fields} {content : Value}
    (h : Fields.get? fields "val" = some content) (hk : (Value.record fields).kind ≠ .literal) :
    shapeValue op (.record fields) = .ok (.record fields) := by
  have hval : Fields.has fields "val" = true := Fields.has_iff.mpr ⟨content, h⟩
  rw [shapeValue, if_neg (by simp [hk]), if_pos hval]

/-! ## Values without tuples -/

namespace Value

/-- The value is a tuple. -/
def isTuple : Value → Bool
  | tuple _ => true
  | _ => false

/-- There is no tuple in the value, whatever its ready filters hold. -/
def isTupleFree (v : Value) : Bool :=
  v.everywhere fun part => !part.isTuple

theorem plainFields_eq_map (fields : Fields) :
    plainFields fields = fields.map fun field => (field.1, field.2.plain) := by
  induction fields with
  | nil => rfl
  | cons field rest ih =>
      obtain ⟨key, value⟩ := field
      rw [plainFields, ih, List.map_cons]

/-- What holds no tuple is plain already. -/
theorem plain_of_isTupleFree (v : Value) : v.isTupleFree = true → v.plain = v := by
  induction v using partInduction with
  | list items ih =>
      intro h
      have hitems := (everywhere_list.mp h).2
      rw [plain, plainItems_eq_map, List.map_congr_left fun item hitem => ih item hitem (hitems item hitem)]
      simp
  | tuple items =>
      intro h
      exact absurd (everywhere_tuple.mp h).1 (by simp [isTuple])
  | record fields ih =>
      intro h
      have hfields := (everywhere_record.mp h).2
      rw [plain, plainFields_eq_map]
      congr 1
      have hmap : ∀ field ∈ fields, (field.1, field.2.plain) = field := fun field hfield => by
        rw [ih field hfield (hfields field hfield)]
      rw [List.map_congr_left hmap, List.map_id']
  | deferred => exact fun _ => rfl
  | other v hitems hrecord hdeferred =>
      intro _
      cases v with
      | list | tuple => exact absurd hitems (by simp [items?])
      | record => exact absurd hrecord (by simp [record?])
      | _ => rfl

end Value

namespace Value

/-- A list of values without tuples has no tuple. -/
theorem isTupleFree_list {items : List Value} (h : ∀ item ∈ items, item.isTupleFree = true) :
    (list items).isTupleFree = true :=
  everywhere_list.mpr ⟨rfl, h⟩

/-- A record keeps being without tuples when a field is set to a value without tuples. -/
theorem isTupleFree_set {fields : Fields} (h : (record fields).isTupleFree = true) (key : String)
    {v : Value} (hv : v.isTupleFree = true) :
    (record (Fields.set fields key v)).isTupleFree = true := by
  refine everywhere_record.mpr ⟨rfl, fun field hfield => ?_⟩
  rcases Fields.eq_or_mem_of_mem_set hfield with rfl | hmem
  · exact hv
  · exact (everywhere_record.mp h).2 field hmem

/-- A test that passes everywhere in a value passes everywhere in its items. -/
theorem everywhere_toItems {test : Value → Bool} {v : Value} (h : v.everywhere test = true) :
    ∀ item ∈ v.toItems, item.everywhere test = true := by
  intro item hitem
  cases v with
  | list items => exact (everywhere_list.mp h).2 item hitem
  | tuple items => exact (everywhere_tuple.mp h).2 item hitem
  | null | bool | int | float | text | record | moment | connective | node | deferred =>
      rw [List.mem_singleton.mp hitem]
      exact h

/-- A test that passes everywhere in a value passes everywhere in the ends of its range. -/
theorem everywhere_toRange {test : Value → Bool} {v : Value} (h : v.everywhere test = true)
    {range : Value × Value} (hrange : v.toRange = .ok range) :
    range.1.everywhere test = true ∧ range.2.everywhere test = true := by
  cases v with
  | list items =>
      have hitems := (everywhere_list.mp h).2
      match items, hrange with
      | low :: high :: _, rfl => exact ⟨hitems low (by simp), hitems high (by simp)⟩
  | tuple items =>
      have hitems := (everywhere_tuple.mp h).2
      match items, hrange with
      | low :: high :: _, rfl => exact ⟨hitems low (by simp), hitems high (by simp)⟩
  | record fields =>
      have hfields := (everywhere_record.mp h).2
      rw [toRange] at hrange
      cases hlow : Fields.get? fields "from" with
      | none =>
          rw [hlow] at hrange
          exact absurd hrange (by simp)
      | some low =>
          cases hhigh : Fields.get? fields "to" with
          | none =>
              rw [hlow, hhigh] at hrange
              exact absurd hrange (by simp)
          | some high =>
              rw [hlow, hhigh] at hrange
              obtain rfl := Except.ok.inj hrange
              exact ⟨hfields _ (Fields.mem_of_get? hlow), hfields _ (Fields.mem_of_get? hhigh)⟩
  | null | bool | int | float | text | moment | connective | node | deferred =>
      exact absurd hrange (by simp [toRange])

end Value

/-! ## Stored values -/

/-- The form in which a canonical filter stores the value of an operator: the items of an operator on
several values as a list, the ends of a range as a pair, any other bare value as it is; all this as
the content of literal envelopes too; and other envelopes as they are. There is no tuple but the
pairs. -/
inductive Value.Stored (op : Operator) : Value → Prop
  | items {items : List Value} : op.isListed = true → (Value.list items).isTupleFree = true →
      Stored op (.list items)
  | range {low high : Value} : op = .between → low.isTupleFree = true → high.isTupleFree = true →
      Stored op (.tuple [low, high])
  | bare {v : Value} : op.isListed = false → op ≠ .between → v.envelope? = none →
      v.isTupleFree = true → Stored op v
  | literal {fields : Fields} {content : Value} : Fields.get? fields "val" = some content →
      (Value.record fields).kind = .literal → Stored op content →
      (Value.record (Fields.set fields "val" .null)).isTupleFree = true → Stored op (.record fields)
  | kept {fields : Fields} {content : Value} : Fields.get? fields "val" = some content →
      (Value.record fields).kind ≠ .literal → (Value.record fields).isTupleFree = true →
      Stored op (.record fields)

/-- What is set to a value and is plain beside it becomes plain by making the value plain. -/
theorem Value.plain_record_set {fields : Fields} {content : Value}
    (h : Fields.get? fields "val" = some content)
    (hfree : (Value.record (Fields.set fields "val" .null)).isTupleFree = true) :
    (Value.record fields).plain = .record (Fields.set fields "val" content.plain) := by
  rw [plain, plainFields_eq_map]
  congr 1
  have hplain := (everywhere_record.mp hfree).2
  clear hfree
  induction fields with
  | nil => exact absurd h (by simp)
  | cons field rest ih =>
      obtain ⟨key, value⟩ := field
      rw [Fields.get?_cons] at h
      by_cases hkey : key = "val"
      · rw [if_pos hkey.symm] at h
        obtain rfl := Option.some.inj h
        rw [Fields.set, if_pos hkey] at hplain ⊢
        have hrest : ∀ field ∈ rest, (field.1, field.2.plain) = field := fun field hfield => by
          rw [plain_of_isTupleFree _ (hplain field (List.mem_cons_of_mem _ hfield))]
        rw [List.map_cons, List.map_congr_left hrest, List.map_id']
      · rw [if_neg (fun hkey' => hkey hkey'.symm)] at h
        rw [Fields.set, if_neg hkey] at hplain ⊢
        rw [List.map_cons, ih h fun field hfield => hplain field (List.mem_cons_of_mem _ hfield),
          plain_of_isTupleFree value (hplain (key, value) List.mem_cons_self)]

/-- What comes out of shaping a value without tuples is stored. -/
theorem stored_of_shapeValue {op : Operator} {v shaped : Value} (h : v.isTupleFree = true)
    (hshaped : shapeValue op v = .ok shaped) : shaped.Stored op := by
  induction v using Value.contentInduction generalizing shaped with
  | envelope fields content hval ih =>
      by_cases hkind : (Value.record fields).kind = .literal
      · rw [shapeValue_literal hval hkind] at hshaped
        obtain ⟨inner, hinner, rfl⟩ := map_eq_ok_iff.mp hshaped
        have hcontent := (Value.everywhere_record.mp h).2 _ (Fields.mem_of_get? hval)
        refine .literal (Fields.get?_set_self fields "val" inner)
          ((Value.kind_set_val hval inner).trans hkind) (ih hcontent hinner) ?_
        rw [Fields.set_set]
        exact Value.isTupleFree_set h "val" rfl
      · rw [shapeValue_of_kind_ne hval hkind] at hshaped
        obtain rfl := Except.ok.inj hshaped
        exact .kept hval hkind h
  | bare v henv =>
      rw [shapeValue_of_not_envelope henv] at hshaped
      rcases op.form_cases with hlisted | rfl | ⟨hlisted, hbetween⟩
      · rw [shapeBare_of_isListed hlisted] at hshaped
        obtain rfl := Except.ok.inj hshaped
        exact .items hlisted (Value.isTupleFree_list (Value.everywhere_toItems h))
      · rw [shapeBare_between] at hshaped
        obtain ⟨range, hrange, rfl⟩ := map_eq_ok_iff.mp hshaped
        have hends := Value.everywhere_toRange h hrange
        exact .range rfl hends.1 hends.2
      · rw [shapeBare_of_single hlisted hbetween] at hshaped
        obtain rfl := Except.ok.inj hshaped
        exact .bare hlisted hbetween henv h

/-- A stored value that is written as plain data is shaped into itself. -/
theorem shapeValue_plain_of_stored {op : Operator} {v : Value} (h : v.Stored op) :
    shapeValue op v.plain = .ok v := by
  induction h with
  | items hop hfree =>
      rw [Value.plain_of_isTupleFree _ hfree, shapeValue_of_not_envelope rfl,
        shapeBare_of_isListed hop, Value.toItems_list]
  | @range low high hop hlow hhigh =>
      subst hop
      have hplain : (Value.tuple [low, high]).plain = .list [low, high] := by
        simp [Value.plain, Value.plainItems, Value.plain_of_isTupleFree low hlow,
          Value.plain_of_isTupleFree high hhigh]
      rw [hplain, shapeValue_of_not_envelope rfl]
      rfl
  | bare hlisted hrange henv hfree =>
      rw [Value.plain_of_isTupleFree _ hfree, shapeValue_of_not_envelope henv,
        shapeBare_of_single hlisted hrange]
  | @literal fields content hval hkind _ hfree ih =>
      rw [Value.plain_record_set hval hfree,
        shapeValue_literal (Fields.get?_set_self fields "val" content.plain)
          ((Value.kind_set_val hval _).trans hkind), ih]
      show Except.ok (Value.record (Fields.set (Fields.set fields "val" content.plain) "val" content))
        = _
      rw [Fields.set_set, Fields.set_of_get? hval]
  | kept hval hkind hfree =>
      rw [Value.plain_of_isTupleFree _ hfree, shapeValue_of_kind_ne hval hkind]

end RecordQuery
