import RecordQuery.Proofs.Calendar.Limits
import RecordQuery.Proofs.Filter.Descent
import RecordQuery.Proofs.Json.Overlong
import RecordQuery.Proofs.Number.Integers
/-!
# What typing makes of values

A text that has a reading is typed as what it means and any other text stays as it is, unless it only
looks like a number, a JSON text or a moment: a numeral with an information separator around it, a
JSON text with an overlong integer, and a moment outside the calendar have no reading, but reading
them fails instead of finding none. `typing_exact` says that these are the only texts on which typing
fails. This is about what a text says. How deep a JSON text may nest before its reader runs out of
stack depends on more than the text and is outside the model.
-/

namespace RecordQuery

open Text

/-! ## Texts that are typed -/

/-- What a text can be converted to. -/
inductive Converts (s : String) : Value → Prop
  | absent : isNullWord s = true → Converts s .null
  | holds : s = "true" → Converts s (.bool true)
  | fails : s = "false" → Converts s (.bool false)
  | number {v : Value} : isNumeric s = true → readNumber s = .ok v → Converts s v
  | json {v : Value} : beginsJson (trim s).toList = true → Json.read (trim s) = .ok v → Converts s v
  | moment {m : Moment} : Moment.ofText? (trim s).toList = .ok (some m) → Converts s (.moment m)

/-- The text looks like a number, a JSON text or a moment, but has no reading as such: a numeral with
an information separator before or behind it, a JSON text that meets an overlong integer, or a moment
that leaves the calendar. -/
inductive Deceptive (s : String) : Prop
  | number {c : Char} : isNumeric s = true → c ∈ s.toList → isInformationSeparator c = true →
      Deceptive s
  | json : beginsJson (trim s).toList = true → Json.MeetsOverlong (trim s).toList → Deceptive s
  | moment : Moment.LeavesCalendar (trim s).toList → Deceptive s

/-! ## Numbers -/

/-- A text that counts as a numeral is read as a number exactly when no information separator stands
around it. -/
theorem exists_readNumber_iff_forall {s : String} (hs : isNumeric s = true) :
    (∃ v, readNumber s = .ok v) ↔ ∀ c ∈ s.toList, isInformationSeparator c = false := by
  rw [exists_readNumber_iff hs]
  constructor
  · intro htrim c hc
    by_contra hsep
    rw [Bool.not_eq_false] at hsep
    -- the separator is no padding, so it is left among the characters of the numeral
    have hpadding : isPadding c = false := by rw [isPadding, hsep, Bool.not_true, Bool.and_false]
    have hmem := mem_trimBy_of_not hc hpadding
    rw [← htrim] at hmem
    obtain ⟨n, hn⟩ := Option.isSome_iff_exists.mp hs
    have hpart := Numeral.part_of_read? hn hmem
    rw [not_part_of_separator hsep] at hpart
    exact absurd hpart (by simp)
  · intro hall
    apply trimBy_eq_of_forall fun c hc => isBlank_of_isPadding hc
    intro c hc hblank
    rw [isPadding, hblank, hall c (mem_of_mem_trimBy hc)]
    rfl

/-! ## The kinds of texts are distinct -/

/-- Digits are taken up to the first character that is none. -/
theorem Numeral.takeDigits_append {digits rest : List Char} (h : ∀ c ∈ digits, c.isDigit = true)
    (hrest : takeDigits rest = ([], rest)) :
    takeDigits (digits ++ rest) = (digits.map fun c => c.toNat - '0'.toNat, rest) := by
  induction digits with
  | nil => exact hrest
  | cons c digits ih =>
      rw [List.forall_mem_cons] at h
      rw [List.cons_append, takeDigits, Digit.value?_of_isDigit h.1, ih h.2]
      rfl

/-- A date is no numeral. -/
theorem read?_of_takeDate? {cs rest : List Char} {date : Date}
    (h : Moment.takeDate? cs = some (date, rest)) : Numeral.read? cs = none := by
  obtain ⟨digits, after, rfl, hne, hdigits⟩ := Moment.digits_of_takeDate? h
  obtain ⟨c, more, rfl⟩ := List.exists_cons_of_ne_nil hne
  have hc : c.isDigit = true := hdigits c List.mem_cons_self
  have hsign : Numeral.takeSign (c :: more ++ '-' :: after) =
      (false, c :: more ++ '-' :: after) := by
    unfold Numeral.takeSign
    split
    · rename_i heq
      rw [(List.cons.inj heq).1] at hc
      exact absurd hc (by decide)
    · rename_i heq
      rw [(List.cons.inj heq).1] at hc
      exact absurd hc (by decide)
    · rfl
  have hhyphen : Numeral.takeDigits ('-' :: after) = ([], '-' :: after) := rfl
  rw [Numeral.read?, hsign]
  dsimp only
  rw [Numeral.takeDigits_append hdigits hhyphen]
  rfl

/-- A JSON text begins with a bracket or a brace. -/
theorem beginsJson_cases {cs : List Char} (h : beginsJson cs = true) :
    ∃ c rest, cs = c :: rest ∧ (c = '[' ∨ c = '\x7b') := by
  cases cs with
  | nil => exact absurd h (by decide)
  | cons c rest =>
      rw [beginsJson, Bool.or_eq_true, List.head?_cons, beq_iff_eq, beq_iff_eq, Option.some.injEq,
        Option.some.injEq] at h
      exact ⟨c, rest, rfl, h.symm⟩

/-- A JSON text is no numeral. -/
theorem not_isNumeric_of_beginsJson {s : String} (h : beginsJson (trim s).toList = true) :
    isNumeric s = false := by
  obtain ⟨c, rest, hs, hc⟩ := beginsJson_cases h
  rw [isNumeric, ← toList_trim, hs]
  rw [← Bool.not_eq_true, Option.isSome_iff_exists]
  rintro ⟨n, hn⟩
  have hpart := Numeral.part_of_read? hn List.mem_cons_self
  rcases hc with rfl | rfl
  · exact absurd hpart (by decide)
  · exact absurd hpart (by decide)

/-- A moment that leaves the calendar is no numeral. -/
theorem not_isNumeric_of_leavesCalendar {s : String} (h : Moment.LeavesCalendar (trim s).toList) :
    isNumeric s = false := by
  obtain ⟨date, rest, t, o, hdate, -⟩ := h
  rw [isNumeric, ← toList_trim, read?_of_takeDate? hdate]
  rfl

/-- A moment that leaves the calendar is no JSON text. -/
theorem not_beginsJson_of_leavesCalendar {cs : List Char} (h : Moment.LeavesCalendar cs) :
    beginsJson cs = false := by
  obtain ⟨date, rest, t, o, hdate, -⟩ := h
  obtain ⟨digits, after, rfl, hne, hdigits⟩ := Moment.digits_of_takeDate? hdate
  obtain ⟨c, more, rfl⟩ := List.exists_cons_of_ne_nil hne
  have hc : c.isDigit = true := hdigits c List.mem_cons_self
  rw [← Bool.not_eq_true]
  intro hjson
  obtain ⟨d, _, heq, hd⟩ := beginsJson_cases hjson
  rw [(List.cons.inj heq).1] at hc
  rcases hd with rfl | rfl
  · exact absurd hc (by decide)
  · exact absurd hc (by decide)

/-- A numeral is deceptive when an information separator stands around it. -/
theorem deceptive_iff_of_isNumeric {s : String} (h : isNumeric s = true) :
    Deceptive s ↔ ∃ c ∈ s.toList, isInformationSeparator c = true := by
  constructor
  · intro hs
    cases hs with
    | number _ hc hsep => exact ⟨_, hc, hsep⟩
    | json hbegins _ =>
        rw [not_isNumeric_of_beginsJson hbegins] at h
        exact absurd h (by simp)
    | moment hleaves =>
        rw [not_isNumeric_of_leavesCalendar hleaves] at h
        exact absurd h (by simp)
  · rintro ⟨c, hc, hsep⟩
    exact .number h hc hsep

/-- Any other text is deceptive as a JSON text or as a moment. -/
theorem deceptive_iff_of_not_isNumeric {s : String} (h : isNumeric s = false) :
    Deceptive s ↔ (beginsJson (trim s).toList = true ∧ Json.MeetsOverlong (trim s).toList) ∨
      Moment.LeavesCalendar (trim s).toList := by
  constructor
  · intro hs
    cases hs with
    | number hnumeric _ _ =>
        rw [hnumeric] at h
        exact absurd h (by simp)
    | json hbegins hmeets => exact .inl ⟨hbegins, hmeets⟩
    | moment hleaves => exact .inr hleaves
  · rintro (⟨hbegins, hmeets⟩ | hleaves)
    · exact .json hbegins hmeets
    · exact .moment hleaves

/-! ## Typing a text -/

/-- The texts that are typed without being read as anything. -/
def plainWords : List String := ["", "null", "undefined", "true", "false"]

/-- No word that is typed without being read looks like anything else. -/
theorem not_deceptive_of_plainWord {s : String} (h : s ∈ plainWords) : ¬Deceptive s := by
  have hnumeric : isNumeric s = false := by revert s; decide
  have hjson : beginsJson (trim s).toList = false := by revert s; decide
  have hdate : Moment.takeDate? (trim s).toList = none := by revert s; decide
  rw [deceptive_iff_of_not_isNumeric hnumeric, hjson, not_or]
  refine ⟨fun h => absurd h.1 (by simp), ?_⟩
  rintro ⟨date, rest, t, o, hsome, -⟩
  rw [hdate] at hsome
  exact absurd hsome (by simp)

/-- Nothing is made of the empty text. -/
theorem not_converts_empty (v : Value) : ¬Converts "" v := by
  intro h
  cases h with
  | absent h => exact absurd h (by decide)
  | holds h => exact absurd h (by decide)
  | fails h => exact absurd h (by decide)
  | number h _ => exact absurd h (by decide)
  | json h _ => exact absurd h (by decide)
  | moment h =>
      have hread : Moment.ofText? (trim "").toList = .ok none := by decide
      rw [hread] at h
      exact absurd h (by simp)

theorem typedText_of_plainWord {s : String} (h : s ∈ plainWords) :
    ∃ v, typedText s = .ok v ∧ (Converts s v ∨ (∀ w, ¬Converts s w) ∧ v = .text s) := by
  simp only [plainWords, List.mem_cons, List.not_mem_nil, or_false] at h
  rcases h with rfl | rfl | rfl | rfl | rfl
  · exact ⟨_, rfl, .inr ⟨not_converts_empty, rfl⟩⟩
  · exact ⟨_, rfl, .inl (.absent rfl)⟩
  · exact ⟨_, rfl, .inl (.absent rfl)⟩
  · exact ⟨_, rfl, .inl (.holds rfl)⟩
  · exact ⟨_, rfl, .inl (.fails rfl)⟩

/-- Any other text is a number, else a JSON text, else a moment, or else itself. -/
theorem typedText_of_not_plainWord {s : String} (hword : s ∉ plainWords)
    (hnumeric : isNumeric s = false) :
    typedText s = (do
      match ← readEmbeddedJson (trim s) with
      | some v => return v
      | none => readMomentOr s) := by
  simp only [plainWords, List.mem_cons, List.not_mem_nil, or_false, not_or] at hword
  obtain ⟨hempty, hnull, hundefined, htrue, hfalse⟩ := hword
  have habsent : isNullWord s = false := by simp [isNullWord, hnull, hundefined]
  rw [typedText, if_neg hempty, habsent, if_neg Bool.false_ne_true,
    if_neg (not_or.mpr ⟨htrue, hfalse⟩), hnumeric]
  exact if_neg Bool.false_ne_true

theorem readEmbeddedJson_eq_error_iff {s : String} {f : Fault} :
    readEmbeddedJson s = .error f ↔
      beginsJson s.toList = true ∧ f = .badValue ∧ Json.MeetsOverlong s.toList := by
  rw [readEmbeddedJson]
  cases hbegins : beginsJson s.toList with
  | false => simp
  | true =>
      obtain ⟨c, rest, hs, hc⟩ := beginsJson_cases hbegins
      rw [if_pos rfl, and_iff_right rfl, ← Json.read_eq_fault_iff hs hc]
      cases Json.read s with
      | ok v => simp
      | error e => cases e <;> simp

theorem readEmbeddedJson_eq_some_iff {s : String} {v : Value} :
    readEmbeddedJson s = .ok (some v) ↔ beginsJson s.toList = true ∧ Json.read s = .ok v := by
  rw [readEmbeddedJson]
  cases beginsJson s.toList with
  | false => simp
  | true =>
      rw [if_pos rfl, and_iff_right rfl]
      cases Json.read s with
      | ok v => simp
      | error e => cases e <;> simp

theorem readMomentOr_eq (s : String) :
    readMomentOr s = (Moment.ofText? (trim s).toList).map fun found =>
      match found with
      | some m => .moment m
      | none => .text s := by
  rw [readMomentOr, toList_trim]
  cases Moment.ofText? (trimBy isBlank s.toList) with
  | error f => rfl
  | ok found => cases found <;> rfl

/-- A text is read as a moment, if not as itself, unless it leaves the calendar. -/
theorem exists_readMomentOr_iff (s : String) :
    (∃ v, readMomentOr s = .ok v) ↔ ¬Moment.LeavesCalendar (trim s).toList := by
  rw [readMomentOr_eq, exists_map_iff]
  cases hread : Moment.ofText? (trim s).toList with
  | error f =>
      exact iff_of_false (by simp) fun hinside => hinside (Moment.ofText?_eq_error_iff.mp hread).2
  | ok found =>
      refine iff_of_true ⟨found, rfl⟩ fun hleaves => ?_
      rw [Moment.ofText?_eq_error_iff.mpr ⟨rfl, hleaves⟩] at hread
      exact absurd hread (by simp)

/-- Typing fails on the deceptive texts only. -/
theorem exists_typedText_iff (s : String) : (∃ v, typedText s = .ok v) ↔ ¬Deceptive s := by
  by_cases hword : s ∈ plainWords
  · obtain ⟨v, hv, -⟩ := typedText_of_plainWord hword
    exact iff_of_true ⟨v, hv⟩ (not_deceptive_of_plainWord hword)
  cases hnumeric : isNumeric s with
  | true =>
      rw [typedText_of_isNumeric hnumeric, exists_readNumber_iff_forall hnumeric,
        deceptive_iff_of_isNumeric hnumeric]
      simp only [not_exists, not_and, Bool.not_eq_true]
  | false =>
      rw [typedText_of_not_plainWord hword hnumeric, deceptive_iff_of_not_isNumeric hnumeric, not_or,
        ← exists_readMomentOr_iff]
      cases hjson : readEmbeddedJson (trim s) with
      | error f =>
          obtain ⟨hbegins, -, hmeets⟩ := readEmbeddedJson_eq_error_iff.mp hjson
          exact iff_of_false (by simp) fun hs => hs.1 ⟨hbegins, hmeets⟩
      | ok found =>
          have hwell : ¬(beginsJson (trim s).toList = true ∧
              Json.MeetsOverlong (trim s).toList) := by
            rintro ⟨hbegins, hmeets⟩
            rw [readEmbeddedJson_eq_error_iff.mpr ⟨hbegins, rfl, hmeets⟩] at hjson
            exact absurd hjson (by simp)
          rw [and_iff_right hwell]
          cases found with
          | none => exact Iff.rfl
          | some v =>
              -- a JSON text is no moment, so that reading it as one would not fail either
              refine iff_of_true ⟨v, rfl⟩ ((exists_readMomentOr_iff s).mpr fun hleaves => ?_)
              have hbegins := (readEmbeddedJson_eq_some_iff.mp hjson).1
              rw [not_beginsJson_of_leavesCalendar hleaves] at hbegins
              exact absurd hbegins (by simp)

/-- Nothing is made of a text that is no word, no numeral, no JSON text and no moment. -/
theorem not_converts {s : String} (hword : s ∉ plainWords) (hnumeric : isNumeric s = false)
    (hjson : readEmbeddedJson (trim s) = .ok none)
    (hmoment : Moment.ofText? (trim s).toList = .ok none) (w : Value) : ¬Converts s w := by
  simp only [plainWords, List.mem_cons, List.not_mem_nil, or_false, not_or] at hword
  obtain ⟨-, hnull, hundefined, htrue, hfalse⟩ := hword
  intro hw
  cases hw with
  | absent habsent => simp [isNullWord, hnull, hundefined] at habsent
  | holds h => exact htrue h
  | fails h => exact hfalse h
  | number h _ =>
      rw [hnumeric] at h
      exact absurd h (by simp)
  | json hbegins hread =>
      rw [readEmbeddedJson_eq_some_iff.mpr ⟨hbegins, hread⟩] at hjson
      exact absurd hjson (by simp)
  | moment h =>
      rw [hmoment] at h
      exact absurd h (by simp)

/-- A text is typed as what it can be converted to, and as itself if there is nothing. -/
theorem converts_of_typedText {s : String} {v : Value} (h : typedText s = .ok v) :
    Converts s v ∨ (∀ w, ¬Converts s w) ∧ v = .text s := by
  by_cases hword : s ∈ plainWords
  · obtain ⟨w, hw, hconverts⟩ := typedText_of_plainWord hword
    obtain rfl := Except.ok.inj (h.symm.trans hw)
    exact hconverts
  cases hnumeric : isNumeric s with
  | true => exact .inl (.number hnumeric ((typedText_of_isNumeric hnumeric).symm.trans h))
  | false =>
      rw [typedText_of_not_plainWord hword hnumeric] at h
      obtain ⟨found, hjson, h⟩ := bind_eq_ok_iff.mp h
      cases found with
      | some w =>
          obtain rfl := Except.ok.inj h
          obtain ⟨hbegins, hread⟩ := readEmbeddedJson_eq_some_iff.mp hjson
          exact .inl (.json hbegins hread)
      | none =>
          dsimp only at h
          rw [readMomentOr_eq] at h
          obtain ⟨found, hmoment, rfl⟩ := map_eq_ok_iff.mp h
          cases found with
          | some m => exact .inl (.moment hmoment)
          | none => exact .inr ⟨not_converts hword hnumeric hjson hmoment, rfl⟩

/-! ## Typing a value -/

namespace Value

mutual

/-- The texts in a value, at any depth and from left to right. -/
def texts : Value → List String
  | .text s => [s]
  | .connective c => [c.word]
  | .list items => itemTexts items
  | .tuple items => itemTexts items
  | .record fields => fieldTexts fields
  | _ => []
termination_by structural v => v

/-- The texts in the items of a list. -/
def itemTexts : List Value → List String
  | [] => []
  | item :: rest => item.texts ++ itemTexts rest
termination_by structural items => items

/-- The texts in the values of a record; the names are no values. -/
def fieldTexts : List (String × Value) → List String
  | [] => []
  | (_, value) :: rest => value.texts ++ fieldTexts rest
termination_by structural fields => fields

end

theorem itemTexts_eq_flatMap (items : List Value) : itemTexts items = items.flatMap texts := by
  induction items with
  | nil => rfl
  | cons item rest ih => rw [itemTexts, ih, List.flatMap_cons]

/-- The texts in a record are those in its values. -/
theorem fieldTexts_eq (fields : Fields) : fieldTexts fields = itemTexts (fields.map (·.2)) := by
  induction fields with
  | nil => rfl
  | cons field rest ih => rw [fieldTexts, ih, List.map_cons, itemTexts]

theorem typedItems_eq_mapM (items : List Value) : typedItems items = items.mapM typed := by
  induction items with
  | nil => rfl
  | cons item rest ih => rw [typedItems, ih, List.mapM_cons]

/-- A record is typed by typing its values; the names stay. -/
theorem typedFields_eq (fields : Fields) :
    typedFields fields = (typedItems (fields.map (·.2))).map (Fields.keys fields).zip := by
  induction fields with
  | nil => rfl
  | cons field rest ih =>
      rw [typedFields, ih, List.map_cons, typedItems, Fields.keys_cons]
      cases field.2.typed with
      | error f => rfl
      | ok v => cases typedItems (rest.map (·.2)) <;> rfl

/-- What typing makes of a value: texts are converted, or stay as they are when they cannot be; lists
and tuples keep the order of their items, records their names, and all else stays as it is. -/
inductive TypedAs : Value → Value → Prop
  | converted {v w : Value} {s : String} : v.text? = some s → Converts s w → TypedAs v w
  | kept {v : Value} {s : String} : v.text? = some s → (∀ w, ¬Converts s w) → TypedAs v (.text s)
  | items {v : Value} {items typed : List Value} : v.items? = some items →
      List.Forall₂ TypedAs items typed → TypedAs v (.list typed)
  | fields {fields : Fields} {typed : List Value} :
      List.Forall₂ TypedAs (fields.map (·.2)) typed →
      TypedAs (.record fields) (.record ((Fields.keys fields).zip typed))
  | other {v : Value} : v.text? = none → v.items? = none → v.record? = none → TypedAs v v

/-- What begins with a bracket or a brace is read as a list or a record. -/
theorem text?_of_readValue {c : Char} {rest : List Char} (hc : c = '[' ∨ c = '\x7b') {v : Value}
    {more : Json.Rest (c :: rest)} (h : Json.readValue (c :: rest) = .ok (v, more)) :
    v.text? = none := by
  rcases hc with rfl | rfl
  · rw [Json.readValue] at h
    split at h
    · obtain ⟨rfl, -⟩ := Prod.mk.inj (Except.ok.inj h)
      rfl
    · obtain ⟨items, -, h⟩ := bind_eq_ok_iff.mp h
      obtain ⟨rfl, -⟩ := Prod.mk.inj (Except.ok.inj h)
      rfl
  · rw [Json.readValue] at h
    split at h
    · obtain ⟨rfl, -⟩ := Prod.mk.inj (Except.ok.inj h)
      rfl
    · obtain ⟨fields, -, h⟩ := bind_eq_ok_iff.mp h
      obtain ⟨rfl, -⟩ := Prod.mk.inj (Except.ok.inj h)
      rfl

theorem text?_of_read {s : String} {c : Char} {rest : List Char} (hs : s.toList = c :: rest)
    (hc : c = '[' ∨ c = '\x7b') {v : Value} (h : Json.read s = .ok v) : v.text? = none := by
  have hgap : Json.skipGap s.toList = c :: rest := by
    rw [hs]
    rcases hc with rfl | rfl <;> rfl
  unfold Json.read at h
  dsimp only at h
  split at h
  · exact absurd h (by simp)
  · rw [hgap] at h
    obtain ⟨⟨found, more⟩, hread, h⟩ := bind_eq_ok_iff.mp h
    split at h
    · exact Except.ok.inj h ▸ text?_of_readValue hc hread
    · exact absurd h (by simp)

/-- What a text is converted to is no text. -/
theorem text?_of_converts {s : String} {v : Value} (h : Converts s v) : v.text? = none := by
  cases h with
  | absent | holds | fails | moment => rfl
  | number hnumeric hread =>
      unfold readNumber at hread
      split at hread
      · split at hread <;> exact (Except.ok.inj hread) ▸ rfl
      · exact absurd hread (by simp)
  | json hbegins hread =>
      obtain ⟨c, rest, hs, hc⟩ := beginsJson_cases hbegins
      exact text?_of_read hs hc hread

/-- A list is typed when every one of its items is, and then item by item. -/
theorem typedItems_exact {items : List Value}
    (h : ∀ item ∈ items, ((∃ w, item.typed = .ok w) ↔ ∀ s ∈ item.texts, ¬Deceptive s) ∧
      ∀ w, item.typed = .ok w → TypedAs item w) :
    ((∃ typed, typedItems items = .ok typed) ↔ ∀ s ∈ itemTexts items, ¬Deceptive s) ∧
      ∀ typed, typedItems items = .ok typed → List.Forall₂ TypedAs items typed := by
  rw [typedItems_eq_mapM, itemTexts_eq_flatMap]
  constructor
  · rw [exists_mapM_iff, List.forall_mem_flatMap]
    exact forall₂_congr fun item hitem => (h item hitem).1
  · intro typed htyped
    have hpairs := (List.forall₂_and_left _ _).mpr ⟨h, mapM_eq_ok_iff.mp htyped⟩
    exact hpairs.imp fun _ _ hpair => hpair.1.2 _ hpair.2

/-- Typing gives a result exactly when no text in the value looks like a number, a JSON text or a
moment without being one, and the result is the value with its texts converted where they can be. -/
theorem typing_exact (v : Value) :
    ((∃ w, v.typed = .ok w) ↔ ∀ s ∈ v.texts, ¬Deceptive s) ∧
      ∀ w, v.typed = .ok w → TypedAs v w := by
  have htext : ∀ {v : Value} {s : String}, v.text? = some s → ∀ w, typedText s = .ok w →
      TypedAs v w := by
    intro v s hs w hw
    rcases converts_of_typedText hw with hconverts | ⟨hkept, rfl⟩
    · exact .converted hs hconverts
    · exact .kept hs hkept
  induction v using Value.partInduction with
  | list items ih | tuple items ih =>
      obtain ⟨hexists, hitems⟩ := typedItems_exact ih
      rw [typed, texts, exists_bind_pure_iff]
      refine ⟨hexists, fun w hw => ?_⟩
      obtain ⟨typed, htyped, hw⟩ := bind_eq_ok_iff.mp hw
      obtain rfl := Except.ok.inj hw
      exact .items rfl (hitems typed htyped)
  | record fields ih =>
      obtain ⟨hexists, hitems⟩ := typedItems_exact (List.forall_mem_map.mpr ih)
      rw [typed, texts, exists_bind_pure_iff, typedFields_eq, fieldTexts_eq, exists_map_iff]
      refine ⟨hexists, fun w hw => ?_⟩
      obtain ⟨named, hnamed, hw⟩ := bind_eq_ok_iff.mp hw
      obtain rfl := Except.ok.inj hw
      obtain ⟨typed, htyped, rfl⟩ := map_eq_ok_iff.mp hnamed
      exact .fields (hitems typed htyped)
  | deferred answer =>
      refine ⟨iff_of_true ⟨_, rfl⟩ (by simp [texts]), fun w hw => ?_⟩
      obtain rfl := Except.ok.inj hw
      exact .other rfl rfl rfl
  | other v hitems hrecord =>
      cases hv : v.text? with
      | none =>
          have hnone : v.texts = [] := by cases v <;> simp_all [texts, text?, items?, record?]
          rw [typed_of_scalar hv hitems hrecord, hnone]
          refine ⟨iff_of_true ⟨v, rfl⟩ (by simp), fun w hw => ?_⟩
          obtain rfl := Except.ok.inj hw
          exact .other hv hitems hrecord
      | some s =>
          have heq : v.typed = typedText s ∧ v.texts = [s] := by
            cases v <;> simp_all [typed, texts, text?]
          rw [heq.1, heq.2, List.forall_mem_singleton]
          exact ⟨exists_typedText_iff s, htext hv⟩

/-- A value that is typed as a text is that text. -/
theorem text?_of_typed {v w : Value} {s : String} (h : v.typed = .ok w) (hw : w.text? = some s) :
    v.text? = some s := by
  cases (typing_exact v).2 w h with
  | converted _ hconverts =>
      rw [text?_of_converts hconverts] at hw
      exact absurd hw (by simp)
  | kept hv _ => rw [hv, ← hw]; rfl
  | items | fields => exact absurd hw (by simp [text?])
  | other => exact hw

/-- Typing fails on a numeral behind an information separator, and on a moment of the first day that
is on the day before in universal time. -/
theorem deceptive_texts_not_typed :
    (text "\x1c5").typed = .error .badValue ∧
      (text "0001-01-01T00:00+01:00").typed = .error .outOfRange :=
  ⟨rfl, rfl⟩

end Value

end RecordQuery
