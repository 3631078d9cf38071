import RecordQuery.Proofs.Fields
import RecordQuery.Proofs.Number.Digits
import RecordQuery.Proofs.Params.Collecting
/-!
# How query parameters are refused

Query parameters that cannot be nested are refused with an error that carries the name of one of them,
but for one kind of name: where a name leads into a group by a segment of digits that is no numeral, the
fault of reading this numeral is all there is (`parse_faults_iff`). Such a segment counts as an index,
because all its characters are digits, but an ornamental digit has no decimal value, and too many
digits are not read.
-/

namespace RecordQuery.Params

/-! ## Indices that cannot be read -/

/-- The segment counts as an index and is no numeral: one of its digits has no decimal value, or there
are too many of them. -/
def isUnreadable (segment : String) : Bool :=
  isIndex segment && (segment.toList.any (fun c => !Text.Digit.isDecimal c) ||
    decide (maxIntegerDigits < segment.toList.length))

/-- On the way through groups that the segments lead there is an index that cannot be read. -/
def meetsUnreadable : List String → Bool
  | segment :: first :: later =>
    FilterKey.isBranch segment &&
      if isIndex first then isUnreadable first || meetsUnreadable later
      else meetsUnreadable (first :: later)
  | _ => false

/-- An index is read unless it cannot be, and then it is no number. -/
theorem readIndex_cases {segment : String} (h : isIndex segment = true) :
    isUnreadable segment = false ∧ (∃ index, readIndex segment = .ok index) ∨
      isUnreadable segment = true ∧ readIndex segment = .error .badValue := by
  by_cases hsegment : segment = ""
  · subst hsegment
    exact .inl ⟨by decide +kernel, 0, rfl⟩
  · have hdigits : ∀ c ∈ segment.toList, Text.Digit.isDigitLike c = true := List.all_eq_true.mp h
    have hnone := readInteger?_eq_none_iff hsegment hdigits
    have hunreadable : isUnreadable segment = true ↔ readInteger? segment = none := by
      rw [hnone, isUnreadable, h, Bool.true_and, Bool.or_eq_true, List.any_eq_true,
        decide_eq_true_eq]
      simp only [Bool.not_eq_true']
    rw [readIndex, if_neg hsegment]
    cases hread : readInteger? segment with
    | none => exact .inr ⟨hunreadable.mpr hread, rfl⟩
    | some n =>
        refine .inl ⟨Bool.eq_false_iff.mpr fun hbad => ?_, n.toNat, rfl⟩
        rw [hunreadable.mp hbad] at hread
        exact absurd hread (by simp)

/-- Inside an element the way goes on as it began. -/
theorem meetsUnreadable_of_enter? {segments inner : List String} {element : Connective × Nat}
    (h : enter? segments = some (element, inner)) :
    meetsUnreadable segments = meetsUnreadable inner := by
  obtain ⟨c, index⟩ := element
  rcases enter?_cases h with ⟨first, rfl, hindex, hread, -⟩ | ⟨first, later, rfl, hindex, rfl, rfl⟩
  · rcases readIndex_cases hindex with ⟨hreadable, -⟩ | ⟨-, hfault⟩
    · rw [meetsUnreadable, FilterKey.isBranch_word, if_pos hindex, hreadable]
      rfl
    · rw [hfault] at hread
      exact absurd hread (by simp)
  · rw [meetsUnreadable, FilterKey.isBranch_word, if_neg (Bool.eq_false_iff.mp hindex)]
    rfl

/-- Behind the word of a group there is an index, and nothing behind it if it is read, when the segments
lead into no element. -/
theorem index_of_not_enter? {c : Connective} {first : String} {later : List String}
    (h : enter? (c.word :: first :: later) = none) :
    isIndex first = true ∧ ∀ index, readIndex first = .ok index → later = [] := by
  rcases not_enter?_cases h with hnil | ⟨other, rest, heq, hindex, hlater⟩
  · exact absurd hnil (by simp)
  · obtain ⟨rfl, rfl⟩ := List.cons.inj heq
    exact ⟨hindex, hlater⟩

section

variable {key : String} {v : Value}

/-- A name that meets an index that cannot be read ends in the fault of reading it. -/
theorem assign_of_meetsUnreadable (bound : Nat) :
    ∀ {segments : List String} {ps : List Param} {entries : Entries}, segments.length < bound →
      Grown ps entries → meetsUnreadable segments = true →
      assign key v segments entries = .error (.fault .badValue) := by
  induction bound with
  | zero => exact fun hlt => absurd hlt (Nat.not_lt_zero _)
  | succ bound ih =>
      intro segments ps entries hlt h hmeets
      cases henter : enter? segments with
      | some route =>
          obtain ⟨⟨c, index⟩, inner⟩ := route
          obtain ⟨slots, hslots, hgroup⟩ := h.group c
          have hshorter := (inner_of_enter? henter).2
          rw [meetsUnreadable_of_enter? henter] at hmeets
          rw [assign_of_enter? henter, hslots, refuse, ok_bind,
            ih (by omega) (hgroup.inside index) hmeets, error_bind]
      | none =>
          cases segments with
          | nil => exact absurd hmeets (by simp [meetsUnreadable])
          | cons segment rest =>
              cases rest with
              | nil => exact absurd hmeets (by simp [meetsUnreadable])
              | cons first later =>
                  rw [meetsUnreadable, Bool.and_eq_true] at hmeets
                  obtain ⟨hbranch, hmeets⟩ := hmeets
                  obtain ⟨c, hword⟩ := Option.isSome_iff_exists.mp hbranch
                  obtain rfl := Connective.word_of_ofWord? hword
                  obtain ⟨slots, hslots, -⟩ := h.group c
                  obtain ⟨hindex, hlater⟩ := index_of_not_enter? henter
                  rw [if_pos hindex] at hmeets
                  rcases readIndex_cases hindex with ⟨hreadable, index, hread⟩ | ⟨-, hfault⟩
                  · obtain rfl := hlater index hread
                    have hend : meetsUnreadable [] = false := rfl
                    rw [hreadable, hend] at hmeets
                    exact absurd hmeets (by simp)
                  · have hmark : ¬(first = "" ∧ later = []) := by
                      rintro ⟨rfl, -⟩
                      exact absurd hfault (by simp [readIndex])
                    rw [assign, if_pos hbranch, hslots, refuse, ok_bind]
                    dsimp only
                    rw [if_neg hmark, if_pos hindex, hfault]
                    rfl

/-! ## Faults that can be told -/

/-- The message of the fault in the name can be written. -/
def Tellable (key : String) (fault : ParseFault) : Prop :=
  (FilterError.parse fault (.text key)).isWritable = true

/-- No text is too long to be written, nor is a list of texts. -/
theorem isWritable_of_isTexts (hv : isTexts v = true) : v.isWritable = true := by
  rcases text_or_list_of_isTexts hv with ⟨s, rfl⟩ | ⟨items, rfl⟩
  · rfl
  · rw [isTexts, List.all_eq_true] at hv
    rw [Value.isWritable]
    induction items with
    | nil => rfl
    | cons item rest ih =>
        obtain ⟨hitem, hrest⟩ := List.forall_mem_cons.mp hv
        rw [Value.areWritable, ih hrest, Bool.and_true]
        cases item with
        | text s => rfl
        | null | bool | int | float | list | tuple | record | moment | connective | node
        | deferred => exact absurd hitem Bool.false_ne_true

theorem areWritable_asItems (hv : isTexts v = true) : Value.areWritable (asItems v) = true := by
  have hwritable := isWritable_of_isTexts hv
  rcases text_or_list_of_isTexts hv with ⟨s, rfl⟩ | ⟨items, rfl⟩
  · rfl
  · exact hwritable

theorem tellable_notFragment {got : Value} (h : got.isWritable = true) :
    Tellable key (.notFragment got) := by
  have hkey : (Value.text key).isWritable = true := rfl
  simp [Tellable, FilterError.isWritable, FilterError.values, ParseFault.values, Value.areWritable,
    hkey, h]

theorem tellable_of_slotsOf (entries : Entries) (word : String) :
    Errs (Tellable key) (slotsOf entries word) := by
  rw [slotsOf]
  split
  · exact .ok _
  · exact .ok _
  · exact .error rfl

theorem tellable_of_addElements {items : List Value} (h : Value.areWritable items = true)
    (slots : Slots) : Errs (Tellable key) (addElements slots items) := by
  induction items generalizing slots with
  | nil => exact .ok _
  | cons item rest ih =>
      rw [Value.areWritable, Bool.and_eq_true] at h
      cases item with
      | record fields => exact ih h.2 _
      | null | bool | int | float | text | list | tuple | moment | connective | node | deferred =>
          exact .error (tellable_notFragment h.1)

theorem tellable_of_putValue (entries : Entries) (segment : String) (v : Value) :
    Errs (Tellable key) (putValue entries segment v) := by
  rw [putValue]
  split
  · exact .ok _
  · exact .ok _
  · exact .error rfl

theorem tellable_of_putBelow (v : Value) (segments : List String) (entries : Entries) :
    Errs (Tellable key) (putBelow v segments entries) := by
  induction segments generalizing entries with
  | nil => exact .ok _
  | cons segment rest ih =>
      rw [putBelow]
      split
      · exact .error rfl
      · split
        · exact tellable_of_putValue _ _ _
        · split
          · exact (ih _).bind fun _ => .ok _
          · exact (ih _).bind fun _ => .ok _
          · exact (ih _).bind fun _ => .ok _
          · exact .error rfl

theorem tellable_of_putPath (v : Value) (name : String) (rest : List String) (entries : Entries) :
    Errs (Tellable key) (putPath v name rest entries) := by
  rw [putPath]
  split
  · exact .error rfl
  · dsimp only
    split
    · rw [putAttribute]
      split
      · exact (tellable_of_putValue _ _ _).bind fun _ => .ok _
      · exact tellable_of_putValue _ _ _
    · exact (tellable_of_putBelow _ _ _).map _

/-- Inside brackets or outside, whatever is malformed about a name can be told. -/
theorem tellable_of_segmentsFrom (cs : List Char) :
    (∀ place started read, Errs (Tellable key) (segmentsFrom place started read cs)) ∧
      ∀ read, Errs (Tellable key) (segmentsFrom.bracketFrom read cs) := by
  induction cs with
  | nil =>
      refine ⟨fun place started read => ?_, fun read => .error rfl⟩
      cases read with
      | nil =>
          cases place with
          | dotted => exact .error rfl
          | plain | closed => exact .ok _
      | cons c later => cases place <;> exact .ok _
  | cons c rest ih =>
      obtain ⟨ihplain, ihbracket⟩ := ih
      constructor
      · intro place started read
        rw [segmentsFrom]
        split
        · split
          · exact .error rfl
          · split
            · exact .error rfl
            · exact (ihbracket _).bind fun _ => .ok _
        · split
          · exact ihplain _ _ _
          · split
            · exact .error rfl
            · split
              · exact .error rfl
              · split
                · split
                  · exact .error rfl
                  · exact (ihplain _ _ _).bind fun _ => .ok _
                · exact ihplain _ _ _
      · intro read
        rw [segmentsFrom.bracketFrom]
        split
        · exact (ihplain _ _ _).bind fun _ => .ok _
        · exact ihbracket _

theorem tellable_of_segments? : Errs (Tellable key) (segments? key) := by
  rw [segments?]
  split
  · exact .error rfl
  · exact ((tellable_of_segmentsFrom _).1 _ _ _).map _

/-! ## Refusals -/

/-- What is refused for a fault that can be told is refused with an error that carries the name. -/
theorem refused_of_refuse {α : Type} {x : Except ParseFault α} (hx : Errs (Tellable key) x)
    {e : Error} (h : refuse key x = .error e) : ∃ fault, e = .filter (.parse fault (.text key)) := by
  cases x with
  | ok a => exact absurd h (by simp [refuse])
  | error fault =>
      obtain rfl := Except.error.inj h
      exact ⟨fault, if_pos (hx fault rfl)⟩

/-- A group as a whole is refused with an error that carries the name, if its index can be read. -/
theorem refused_of_assign_group (hv : isTexts v = true) {c : Connective} {rest : List String}
    {entries : Entries} {e : Error}
    (henter : enter? (c.word :: rest) = none) (hmeets : meetsUnreadable (c.word :: rest) = false)
    (h : assign key v (c.word :: rest) entries = .error e) :
    ∃ fault, e = .filter (.parse fault (.text key)) := by
  rw [assign, if_pos (FilterKey.isBranch_word c)] at h
  rcases bind_eq_error_iff.mp h with h | ⟨slots, -, h⟩
  · exact refused_of_refuse (tellable_of_slotsOf _ _) h
  have hwhole : (do
      let slots ← refuse key (addElements slots (asItems v))
      pure (Fields.set entries c.word (.slots slots))) = .error e →
      ∃ fault, e = .filter (.parse fault (.text key)) := by
    intro hadd
    rcases bind_eq_error_iff.mp hadd with hadd | ⟨slots', -, hadd⟩
    · exact refused_of_refuse (tellable_of_addElements (areWritable_asItems hv) _) hadd
    · exact absurd hadd (by simp)
  cases rest with
  | nil => exact hwhole h
  | cons first later =>
      obtain ⟨hindex, hlater⟩ := index_of_not_enter? henter
      dsimp only at h
      by_cases hmark : first = "" ∧ later = []
      · rw [if_pos hmark] at h
        exact hwhole h
      · rw [if_neg hmark, if_pos hindex] at h
        rw [meetsUnreadable, FilterKey.isBranch_word, if_pos hindex] at hmeets
        rcases readIndex_cases hindex with ⟨-, index, hread⟩ | ⟨hbad, -⟩
        · obtain rfl := hlater index hread
          rw [hread] at h
          have htold : Tellable key (.notFragment v) :=
            tellable_notFragment (isWritable_of_isTexts hv)
          rcases text_or_list_of_isTexts hv with ⟨s, rfl⟩ | ⟨items, rfl⟩
          · exact refused_of_refuse (.error htold) h
          · exact refused_of_refuse (.error htold) h
        · rw [hbad] at hmeets
          exact absurd hmeets (by simp)

/-- A name that meets no index that cannot be read is refused with an error that carries the name. -/
theorem refused_of_assign (hv : isTexts v = true) (bound : Nat) :
    ∀ {segments : List String} {entries : Entries} {e : Error}, segments.length < bound →
      meetsUnreadable segments = false → assign key v segments entries = .error e →
      ∃ fault, e = .filter (.parse fault (.text key)) := by
  induction bound with
  | zero => exact fun hlt => absurd hlt (Nat.not_lt_zero _)
  | succ bound ih =>
      intro segments entries e hlt hmeets h
      cases henter : enter? segments with
      | some route =>
          obtain ⟨⟨c, index⟩, inner⟩ := route
          have hshorter := (inner_of_enter? henter).2
          rw [meetsUnreadable_of_enter? henter] at hmeets
          rw [assign_of_enter? henter] at h
          rcases bind_eq_error_iff.mp h with h | ⟨slots, -, h⟩
          · exact refused_of_refuse (tellable_of_slotsOf _ _) h
          · rcases bind_eq_error_iff.mp h with h | ⟨element, -, h⟩
            · exact ih (by omega) hmeets h
            · exact absurd h (by simp)
      | none =>
          match segments with
          | [] => exact absurd h (by simp [assign])
          | segment :: rest =>
              cases hword : Connective.ofWord? segment with
              | none =>
                  rw [assign, if_neg (by simp [FilterKey.isBranch_eq_false.mpr hword])] at h
                  exact refused_of_refuse (tellable_of_putPath _ _ _ _) h
              | some c =>
                  obtain rfl := Connective.word_of_ofWord? hword
                  exact refused_of_assign_group hv henter hmeets h

end

/-! ## All parameters -/

/-- A malformed name is refused with an error that carries it. -/
theorem refused_of_splitKey {key : String} {e : Error} (h : liftFilter (splitKey key) = .error e) :
    ∃ fault, e = .filter (.parse fault (.text key)) := by
  rw [splitKey] at h
  cases hkey : segments? key with
  | error fault =>
      rw [hkey] at h
      obtain rfl := Except.error.inj h
      exact ⟨fault, if_pos (tellable_of_segments? fault hkey)⟩
  | ok segments =>
      rw [hkey] at h
      exact absurd h (by simp [liftFilter])

/-- Of parameters in two parts the second grows behind the first. -/
theorem growFrom_append {first : Fields}
    (hvalues : ∀ param ∈ first, param.2.isNull = true ∨ isTexts param.2 = true) (second : Fields)
    (entries : Entries) :
    growFrom entries (first ++ second) = (do
      let entries ← growFrom entries first
      growFrom entries second) := by
  induction first generalizing entries with
  | nil => rfl
  | cons param rest ih =>
      rw [List.forall_mem_cons] at hvalues
      obtain ⟨hv, hrest⟩ := hvalues
      obtain ⟨key, v⟩ := param
      rcases hv with hnull | hv
      · obtain rfl : v = .null := Value.isNull_iff.mp hnull
        exact ih hrest entries
      · rw [List.cons_append, growFrom_cons_of_isTexts hv, growFrom_cons_of_isTexts hv, bind_assoc]
        refine bind_congr fun segments => ?_
        rw [bind_assoc]
        exact bind_congr fun next => ih hrest next

/-- Parameters end in the fault of reading an index when those before one that meets such an index are
taken. -/
theorem growFrom_of_meetsUnreadable {before after : Fields} {key : String} {v : Value}
    (hvalues : ∀ param ∈ before, param.2.isNull = true ∨ isTexts param.2 = true)
    (hv : isTexts v = true) (hmeets : meetsUnreadable (segmentsOf key) = true) {entries : Entries}
    (hbefore : growFrom [] before = .ok entries) :
    growFrom [] (before ++ (key, v) :: after) = .error (.fault .badValue) := by
  have hne : segmentsOf key ≠ [] := by
    intro hnil
    rw [hnil] at hmeets
    exact absurd hmeets (by decide)
  have hsplit : liftFilter (splitKey key) = .ok (segmentsOf key) :=
    liftFilter_eq_ok_iff.mpr (splitKey_eq_ok_iff.mpr ⟨rfl, hne⟩)
  have hgrown := Grown.growFrom .nil hvalues hbefore
  rw [growFrom_append hvalues, hbefore, ok_bind, growFrom_cons_of_isTexts hv, hsplit, ok_bind,
    assign_of_meetsUnreadable _ (Nat.lt_succ_self _) hgrown hmeets, error_bind]

/-- Parameters fail with an error that carries the name of one of them, or at an index that cannot be
read when those before it are taken. -/
theorem growFrom_error_cases {params : Fields} :
    ∀ {ps : List Param} {entries : Entries} {e : Error}, Grown ps entries →
      (∀ param ∈ params, param.2.isNull = true ∨ isTexts param.2 = true) →
      growFrom entries params = .error e →
      (∃ key ∈ Fields.keys params, ∃ fault, e = .filter (.parse fault (.text key))) ∨
        e = .fault .badValue ∧ ∃ before key v after, params = before ++ (key, v) :: after ∧
          v.isNull = false ∧ (∃ entries', growFrom entries before = .ok entries') ∧
            meetsUnreadable (segmentsOf key) = true := by
  induction params with
  | nil => exact fun _ _ h => absurd h (by simp [growFrom])
  | cons param rest ih =>
      intro ps entries e h hvalues hgrow
      rw [List.forall_mem_cons] at hvalues
      obtain ⟨hv, hrest⟩ := hvalues
      obtain ⟨key, v⟩ := param
      rw [Fields.keys_cons]
      rcases hv with hnull | hv
      · obtain rfl : v = .null := Value.isNull_iff.mp hnull
        rcases ih h hrest hgrow with ⟨other, hother, hparse⟩ |
          ⟨he, before, other, w, after, rfl, hpresent, hbefore, hmeets⟩
        · exact .inl ⟨other, List.mem_cons_of_mem _ hother, hparse⟩
        · exact .inr ⟨he, (key, .null) :: before, other, w, after, rfl, hpresent, hbefore, hmeets⟩
      · have hpresent : v.isNull = false := by
          rcases text_or_list_of_isTexts hv with ⟨s, rfl⟩ | ⟨items, rfl⟩ <;> rfl
        rw [growFrom_cons_of_isTexts hv] at hgrow
        rcases bind_eq_error_iff.mp hgrow with hsplit | ⟨segments, hsplit, hgrow⟩
        · exact .inl ⟨key, List.mem_cons_self, refused_of_splitKey hsplit⟩
        · obtain ⟨rfl, hne⟩ := splitKey_eq_ok_iff.mp (liftFilter_eq_ok_iff.mp hsplit)
          rcases bind_eq_error_iff.mp hgrow with hassign | ⟨next, hassign, hgrow⟩
          · cases hmeets : meetsUnreadable (segmentsOf key) with
            | true =>
                rw [assign_of_meetsUnreadable _ (Nat.lt_succ_self _) h hmeets] at hassign
                exact .inr ⟨(Except.error.inj hassign).symm, [], key, v, rest, rfl, hpresent,
                  ⟨entries, rfl⟩, hmeets⟩
            | false =>
                exact .inl ⟨key, List.mem_cons_self,
                  refused_of_assign hv _ (Nat.lt_succ_self _) hmeets hassign⟩
          · have hnext : Grown (ps ++ [⟨key, segmentsOf key, v⟩]) next := .concat h hv hne hassign
            rcases ih hnext hrest hgrow with ⟨other, hother, hparse⟩ |
              ⟨he, before, other, w, after, rfl, hpresent', ⟨entries', hbefore⟩, hmeets⟩
            · exact .inl ⟨other, List.mem_cons_of_mem _ hother, hparse⟩
            · refine .inr ⟨he, (key, v) :: before, other, w, after, rfl, hpresent', ⟨entries', ?_⟩,
                hmeets⟩
              exact (growFrom_cons_eq_ok_iff hv).mpr ⟨hne, next, hassign, hbefore⟩

/-- **How query parameters are refused.** Texts, lists of texts and absent values that cannot be nested
are refused with an error that carries the name of one of them, or with the fault of reading a
number. The fault shows exactly when the first name that is not taken meets an index that cannot be
read. -/
theorem parse_faults_iff {params : Fields}
    (hvalues : ∀ param ∈ params, param.2.isNull = true ∨ isTexts param.2 = true) :
    (∀ e, parse params = .error e →
      (∃ key ∈ Fields.keys params, ∃ fault, e = .filter (.parse fault (.text key))) ∨
        e = .fault .badValue) ∧
      (parse params = .error (.fault .badValue) ↔
        ∃ before key v after, params = before ++ (key, v) :: after ∧ v.isNull = false ∧
          (∃ fields, parse before = .ok fields) ∧ meetsUnreadable (segmentsOf key) = true) := by
  simp only [parse, map_eq_error_iff, exists_map_iff]
  refine ⟨fun e he => ?_, fun hfault => ?_, ?_⟩
  · exact (growFrom_error_cases .nil hvalues he).imp_right And.left
  · rcases growFrom_error_cases .nil hvalues hfault with ⟨key, -, fault, hparse⟩ | ⟨-, hwhere⟩
    · exact absurd hparse (by simp)
    · exact hwhere
  · rintro ⟨before, key, v, after, rfl, hpresent, ⟨entries, hbefore⟩, hmeets⟩
    rw [List.forall_mem_append, List.forall_mem_cons] at hvalues
    obtain ⟨hearlier, hv, -⟩ := hvalues
    have hv : isTexts v = true := hv.resolve_left (by simp [hpresent])
    exact growFrom_of_meetsUnreadable hearlier hv hmeets hbefore

/-- A parameter whose index is an ornamental digit. -/
def squaredParams : Fields := [("or[²].name", .text "Ada")]

/-- A parameter with an ornamental digit for its index ends in a fault. -/
theorem squaredParams_fault :
    (∀ param ∈ squaredParams, param.2.isNull = true ∨ isTexts param.2 = true) ∧
      parse squaredParams = .error (.fault .badValue) := by
  have hvalues : ∀ param ∈ squaredParams, param.2.isNull = true ∨ isTexts param.2 = true := by
    decide
  refine ⟨hvalues, (parse_faults_iff hvalues).2.mpr ?_⟩
  exact ⟨[], "or[²].name", .text "Ada", [], rfl, rfl, ⟨[], rfl⟩, by decide +kernel⟩

/-- Not every error of a parameter carries a name: there is a parameter with a text that is refused in
another way. -/
theorem squaredParams_escape :
    ¬∀ params : Fields, (∀ param ∈ params, param.2.isNull = true ∨ isTexts param.2 = true) →
      (∃ fields, parse params = .ok fields) ∨
        ∃ fault key, parse params = .error (.filter (.parse fault (.text key))) := by
  intro hall
  have hfault : parse squaredParams = .error (.fault .badValue) := by decide +kernel
  rcases hall squaredParams (by decide) with ⟨fields, hok⟩ | ⟨fault, key, herror⟩
  · rw [hfault] at hok
    exact absurd hok (by simp)
  · rw [hfault] at herror
    exact absurd herror (by simp)

end RecordQuery.Params
