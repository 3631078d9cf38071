import RecordQuery.Json.Reading
import RecordQuery.Proofs.Outcome
/-!
# Integers that a JSON text cannot have

Most of what can be wrong with a JSON text makes it malformed. An integer of too many digits does not:
the text is well-formed, but the integer has no value, and reading ends in a fault. `MeetsOverlong`
follows a text from value to value, over lists and objects, to the first such integer, and
`readValue_eq_fault_iff` says that this is the only way to a fault. A malformed part that comes
earlier hides the integer.
-/

namespace RecordQuery.Json

/-! ## Texts with an overlong integer -/

/-- The text begins with an integer of more digits than an integer may have. -/
def BeginsOverlong (cs : List Char) : Prop :=
  ∃ n rest, takeNumber? cs = some (n, rest) ∧ n.fraction = [] ∧ n.exponent = none ∧
    maxIntegerDigits < n.whole.length

mutual

/-- The value at the start of a text is an overlong integer, or well-formed up to one inside it. -/
inductive MeetsOverlong : List Char → Prop
  | integer {cs : List Char} : BeginsOverlong cs → MeetsOverlong cs
  | list {rest : List Char} : ItemsMeetOverlong (skipGap rest) → MeetsOverlong ('[' :: rest)
  | record {rest : List Char} : FieldsMeetOverlong (skipGap rest) → MeetsOverlong ('\x7b' :: rest)

/-- The items at the start of a text are well-formed up to one that meets an overlong integer. -/
inductive ItemsMeetOverlong : List Char → Prop
  | here {cs : List Char} : MeetsOverlong cs → ItemsMeetOverlong cs
  | later {cs after : List Char} {value : Value} {more : Rest cs} :
      readValue cs = .ok (value, more) → skipGap more.1 = ',' :: after →
      ItemsMeetOverlong (skipGap after) → ItemsMeetOverlong cs

/-- The fields at the start of a text are well-formed up to one whose value meets an overlong
integer. -/
inductive FieldsMeetOverlong : List Char → Prop
  | here {cs : List Char} {name : String} {start : Rest cs} :
      readName cs = .ok (name, start) → MeetsOverlong start.1 → FieldsMeetOverlong cs
  | later {cs after : List Char} {name : String} {start : Rest cs} {value : Value}
      {more : Rest start.1} :
      readName cs = .ok (name, start) → readValue start.1 = .ok (value, more) →
      skipGap more.1 = ',' :: after → FieldsMeetOverlong (skipGap after) → FieldsMeetOverlong cs

end

/-! ## Numbers -/

theorem length_takeWhole_lt {cs : List Char} (h : (takeWhole cs).1 ≠ []) :
    (takeWhole cs).2.length < cs.length := by
  revert h
  unfold takeWhole
  split
  · simp
  · intro h
    have hlength := congrArg List.length
      (List.takeWhile_append_dropWhile (p := Char.isDigit) (l := cs))
    have hpos := List.length_pos_of_ne_nil h
    rw [List.length_append] at hlength
    dsimp only at hpos ⊢
    omega

theorem length_takePlaces_le (cs : List Char) : (takePlaces cs).2.length ≤ cs.length := by
  unfold takePlaces
  split
  · rename_i rest
    have hlength := (List.dropWhile_sublist Char.isDigit (l := rest)).length_le
    dsimp only
    split
    · exact Nat.le_refl _
    · exact Nat.le_succ_of_le hlength
  · exact Nat.le_refl _

theorem length_takeSign_le (cs : List Char) : (Numeral.takeSign cs).2.length ≤ cs.length := by
  unfold Numeral.takeSign
  split
  · exact Nat.le_succ _
  · exact Nat.le_succ _
  · exact Nat.le_refl _

theorem length_takeExponent_le (cs : List Char) : (takeExponent cs).2.length ≤ cs.length := by
  unfold takeExponent
  split
  · rename_i c rest
    split
    · have hsign := length_takeSign_le rest
      have hdigits :=
        (List.dropWhile_sublist Char.isDigit (l := (Numeral.takeSign rest).2)).length_le
      dsimp only
      split
      · exact Nat.le_refl _
      · exact Nat.le_succ_of_le (Nat.le_trans hdigits hsign)
    · exact Nat.le_refl _
  · exact Nat.le_refl _

/-- A number takes at least one character. -/
theorem length_lt_of_takeNumber? {cs rest : List Char} {n : Number}
    (h : takeNumber? cs = some (n, rest)) : rest.length < cs.length := by
  have hunsigned : ∀ negative unsigned, unsigned.length ≤ cs.length →
      (if (takeWhole unsigned).1.isEmpty then none
        else some (Number.mk negative (takeWhole unsigned).1 (takePlaces (takeWhole unsigned).2).1
          (takeExponent (takePlaces (takeWhole unsigned).2).2).1,
            (takeExponent (takePlaces (takeWhole unsigned).2).2).2)) = some (n, rest) →
      rest.length < cs.length := by
    intro negative unsigned hle h
    by_cases hwhole : (takeWhole unsigned).1 = []
    · rw [hwhole] at h
      exact absurd h (by simp)
    · rw [if_neg (by simpa using hwhole)] at h
      obtain ⟨-, rfl⟩ := Prod.mk.inj (Option.some.inj h)
      have htaken := length_takeWhole_lt hwhole
      have hplaces := length_takePlaces_le (takeWhole unsigned).2
      have hexponent := length_takeExponent_le (takePlaces (takeWhole unsigned).2).2
      omega
  unfold takeNumber? at h
  split at h
  rename_i negative unsigned hsign
  split at hsign
  · obtain ⟨rfl, rfl⟩ := Prod.mk.inj hsign
    exact hunsigned _ _ (Nat.le_succ _) h
  · obtain ⟨rfl, rfl⟩ := Prod.mk.inj hsign
    exact hunsigned _ _ (Nat.le_refl _) h

/-- No number begins where a constant word does. -/
theorem takeNumber?_of_constant {cs : List Char} {constant : List Char × Value}
    (h : constants.find? (fun constant => constant.1.isPrefixOf cs) = some constant) :
    takeNumber? cs = none := by
  have hmem := List.mem_of_find?_eq_some h
  have hprefix := List.find?_some h
  obtain ⟨rest, rfl⟩ := List.isPrefixOf_iff_prefix.mp hprefix
  simp only [constants, List.mem_cons, List.not_mem_nil, or_false] at hmem
  rcases hmem with rfl | rfl | rfl | rfl | rfl | rfl <;> rfl

/-- A number has no value exactly when it is an integer with too many digits. -/
theorem Number.value_eq_error_iff {n : Number} {e : Failure} :
    n.value = .error e ↔ e = .fault .badValue ∧ n.fraction = [] ∧ n.exponent = none ∧
      maxIntegerDigits < n.whole.length := by
  rw [Number.value]
  split
  · rename_i hfraction hexponent
    by_cases hlong : maxIntegerDigits < n.whole.length
    · rw [if_pos hlong, Except.error.injEq]
      exact ⟨fun he => ⟨he.symm, hfraction, hexponent, hlong⟩, fun he => he.1.symm⟩
    · rw [if_neg hlong]
      exact iff_of_false (by simp) fun he => hlong he.2.2.2
  · rename_i hparts
    exact iff_of_false (by simp) fun he => hparts he.2.1 he.2.2.1

/-! ## Scalars -/

theorem readScalar_eq_fault_iff {cs : List Char} {f : Fault} :
    readScalar cs = .error (.fault f) ↔ f = .badValue ∧ BeginsOverlong cs := by
  rw [readScalar]
  split
  · rename_i word value hfind
    refine iff_of_false ?_ ?_
    · dsimp only
      split <;> simp
    · rintro ⟨-, n, rest, hnumber, -⟩
      rw [takeNumber?_of_constant hfind] at hnumber
      exact absurd hnumber (by simp)
  · split
    · rename_i number rest hnumber
      have hbegins : BeginsOverlong cs ↔ number.fraction = [] ∧ number.exponent = none ∧
          maxIntegerDigits < number.whole.length := by
        constructor
        · rintro ⟨n, rest', hn, hlong⟩
          obtain ⟨rfl, -⟩ := Prod.mk.inj (Option.some.inj (hnumber.symm.trans hn))
          exact hlong
        · exact fun hlong => ⟨number, rest, hnumber, hlong⟩
      rw [dif_pos (length_lt_of_takeNumber? hnumber), hbegins]
      cases hvalue : number.value with
      | ok value =>
          refine iff_of_false (by simp) ?_
          rintro ⟨hf, hlong⟩
          have herror := Number.value_eq_error_iff.mpr ⟨congrArg Failure.fault hf, hlong⟩
          rw [hvalue] at herror
          exact absurd herror (by simp)
      | error e =>
          obtain ⟨rfl, hlong⟩ := Number.value_eq_error_iff.mp hvalue
          rw [error_bind, Except.error.injEq, Failure.fault.injEq, eq_comm, and_iff_left hlong]
    · rename_i hnumber
      refine iff_of_false (by simp) ?_
      rintro ⟨-, n, rest, hn, -⟩
      rw [hnumber] at hn
      exact absurd hn (by simp)

/-! ## Steps of the readers -/

/-- The failure of a lexeme is no fault. -/
theorem ofLexeme_ne_fault {α : Type} {x : Except Flaw α} {f : Fault} :
    ofLexeme x ≠ .error (.fault f) := by
  cases x with
  | error flaw => simp [ofLexeme]
  | ok a => simp [ofLexeme]

/-- A name is malformed or read. -/
theorem readName_ne_fault {cs : List Char} {f : Fault} : readName cs ≠ .error (.fault f) := by
  unfold readName
  split
  · intro h
    rcases bind_eq_error_iff.mp h with h | ⟨⟨chars, more, hshort⟩, -, h⟩
    · exact ofLexeme_ne_fault h
    · revert h
      dsimp only
      split <;> simp
  · simp

/-- Items end in a fault when the first of them does, or else those behind it. -/
theorem readItems_eq_fault_iff {cs : List Char} {f : Fault} :
    readItems cs = .error (.fault f) ↔ readValue cs = .error (.fault f) ∨
      ∃ value more after, readValue cs = .ok (value, more) ∧ skipGap more.1 = ',' :: after ∧
        readItems (skipGap after) = .error (.fault f) := by
  rw [readItems]
  cases hvalue : readValue cs with
  | error e => simp
  | ok r =>
      obtain ⟨value, more, hshort⟩ := r
      rw [ok_bind]
      constructor
      · intro h
        right
        dsimp only at h
        split at h
        · exact absurd h (by simp)
        · rename_i after hgap
          rcases bind_eq_error_iff.mp h with h | ⟨_, -, h⟩
          · exact ⟨value, ⟨more, hshort⟩, after, rfl, hgap, h⟩
          · exact absurd h (by simp)
        · exact absurd h (by simp)
      · rintro (h | ⟨value', more', after, hread, hgap, h⟩)
        · exact absurd h (by simp)
        · obtain ⟨rfl, rfl⟩ := Prod.mk.inj (Except.ok.inj hread)
          dsimp only at hgap ⊢
          split
          · rename_i hclose
            rw [hgap] at hclose
            exact absurd hclose (by simp)
          · rename_i hcomma
            obtain rfl := (List.cons.inj (hgap.symm.trans hcomma)).2
            rw [h]
            rfl
          · rename_i hcomma
            exact absurd hgap (hcomma after)

/-- Fields end in a fault when the value of the first of them does, or else those behind it. -/
theorem readFields_eq_fault_iff {cs : List Char} {f : Fault} :
    readFields cs = .error (.fault f) ↔
      ∃ name start, readName cs = .ok (name, start) ∧
        (readValue start.1 = .error (.fault f) ∨
          ∃ value more after, readValue start.1 = .ok (value, more) ∧
            skipGap more.1 = ',' :: after ∧ readFields (skipGap after) = .error (.fault f)) := by
  rw [readFields]
  cases hname : readName cs with
  | error e =>
      refine iff_of_false ?_ (by simp)
      rintro h
      obtain rfl := Except.error.inj h
      exact readName_ne_fault hname
  | ok r =>
      obtain ⟨name, start, hstart⟩ := r
      rw [ok_bind]
      dsimp only
      cases hvalue : readValue start with
      | error e =>
          constructor
          · intro h
            obtain rfl := Except.error.inj h
            exact ⟨name, ⟨start, hstart⟩, rfl, .inl hvalue⟩
          · rintro ⟨name', start', hread, h⟩
            obtain ⟨rfl, rfl⟩ := Prod.mk.inj (Except.ok.inj hread)
            rcases h with h | ⟨value, more, after, hread', -⟩
            · obtain rfl := Except.error.inj (hvalue.symm.trans h)
              rfl
            · rw [hvalue] at hread'
              exact absurd hread' (by simp)
      | ok r =>
          obtain ⟨value, more, hshort⟩ := r
          rw [ok_bind]
          constructor
          · intro h
            refine ⟨name, ⟨start, hstart⟩, rfl, .inr ?_⟩
            dsimp only at h
            split at h
            · exact absurd h (by simp)
            · rename_i after hgap
              rcases bind_eq_error_iff.mp h with h | ⟨_, -, h⟩
              · exact ⟨value, ⟨more, hshort⟩, after, hvalue, hgap, h⟩
              · exact absurd h (by simp)
            · exact absurd h (by simp)
          · rintro ⟨name', start', hread, h⟩
            obtain ⟨rfl, rfl⟩ := Prod.mk.inj (Except.ok.inj hread)
            rcases h with h | ⟨value', more', after, hread', hgap, h⟩
            · rw [hvalue] at h
              exact absurd h (by simp)
            · obtain ⟨rfl, rfl⟩ := Prod.mk.inj (Except.ok.inj (hvalue.symm.trans hread'))
              dsimp only at hgap ⊢
              split
              · rename_i hclose
                rw [hgap] at hclose
                exact absurd hclose (by simp)
              · rename_i hcomma
                obtain rfl := (List.cons.inj (hgap.symm.trans hcomma)).2
                rw [h]
                rfl
              · rename_i hcomma
                exact absurd hgap (hcomma after)

/-- No value begins with a closing bracket. -/
theorem readItems_close (rest : List Char) :
    readItems (']' :: rest) = .error (.malformed .missingValue) := by
  have hvalue : readValue (']' :: rest) = .error (.malformed .missingValue) := by
    rw [readValue]
    · rfl
    all_goals simp
  rw [readItems, hvalue, error_bind]

/-- No name begins with a closing brace. -/
theorem readFields_close (rest : List Char) :
    readFields ('\x7d' :: rest) = .error (.malformed .missingName) := by
  rw [readFields]
  rfl

/-- A list ends in a fault when its items do, of which an empty list has none. -/
theorem readValue_list_eq_fault_iff {rest : List Char} {f : Fault} :
    readValue ('[' :: rest) = .error (.fault f) ↔ readItems (skipGap rest) = .error (.fault f) := by
  rw [readValue]
  split
  · rename_i after hclose
    refine iff_of_false (by simp) ?_
    rw [hclose, readItems_close]
    simp
  · cases readItems (skipGap rest) with
    | error e => simp
    | ok r => simp

/-- An object ends in a fault when its fields do, of which an empty object has none. -/
theorem readValue_record_eq_fault_iff {rest : List Char} {f : Fault} :
    readValue ('\x7b' :: rest) = .error (.fault f) ↔
      readFields (skipGap rest) = .error (.fault f) := by
  rw [readValue]
  split
  · rename_i after hclose
    refine iff_of_false (by simp) ?_
    rw [hclose, readFields_close]
    simp
  · cases readFields (skipGap rest) with
    | error e => simp
    | ok r => simp

/-- A string is malformed or read. -/
theorem readValue_text_ne_fault {rest : List Char} {f : Fault} :
    readValue ('\x22' :: rest) ≠ .error (.fault f) := by
  rw [readValue]
  intro h
  rcases bind_eq_error_iff.mp h with h | ⟨r, -, h⟩
  · exact ofLexeme_ne_fault h
  · exact absurd h (by simp)

/-! ## Whole values -/

/-- Every text begins like a string, a list, an object, or else like a scalar. -/
theorem readValue_cases (cs : List Char) :
    (∃ rest, cs = '\x22' :: rest) ∨ (∃ rest, cs = '[' :: rest) ∨ (∃ rest, cs = '\x7b' :: rest) ∨
      ((∀ rest, cs ≠ '[' :: rest) ∧ (∀ rest, cs ≠ '\x7b' :: rest) ∧
        readValue cs = readScalar cs) := by
  by_cases htext : ∃ rest, cs = '\x22' :: rest
  · exact .inl htext
  by_cases hlist : ∃ rest, cs = '[' :: rest
  · exact .inr (.inl hlist)
  by_cases hrecord : ∃ rest, cs = '\x7b' :: rest
  · exact .inr (.inr (.inl hrecord))
  · refine .inr (.inr (.inr ⟨fun rest h => hlist ⟨rest, h⟩, fun rest h => hrecord ⟨rest, h⟩, ?_⟩))
    rw [readValue]
    · exact fun rest h => htext ⟨rest, h⟩
    · exact fun rest h => hlist ⟨rest, h⟩
    · exact fun rest h => hrecord ⟨rest, h⟩

/-- What begins with a number does not begin like a string, a list or an object. -/
theorem not_beginsOverlong {c : Char} (hc : c ∈ ['\x22', '[', '\x7b']) (rest : List Char) :
    ¬BeginsOverlong (c :: rest) := by
  rintro ⟨n, rest', hnumber, -⟩
  simp only [List.mem_cons, List.not_mem_nil, or_false] at hc
  rcases hc with rfl | rfl | rfl
  · exact absurd hnumber (by simp [takeNumber?, takeWhole])
  · exact absurd hnumber (by simp [takeNumber?, takeWhole])
  · exact absurd hnumber (by simp [takeNumber?, takeWhole])

/-- Reading ends in a fault at an overlong integer and nowhere else. The induction is on the number of
characters; inside it values come first, because items and fields begin with values. -/
theorem fault_iff_of_length_lt (bound : Nat) {f : Fault} : ∀ {cs : List Char}, cs.length < bound →
    (readValue cs = .error (.fault f) ↔ f = .badValue ∧ MeetsOverlong cs) ∧
      (readItems cs = .error (.fault f) ↔ f = .badValue ∧ ItemsMeetOverlong cs) ∧
      (readFields cs = .error (.fault f) ↔ f = .badValue ∧ FieldsMeetOverlong cs) := by
  induction bound with
  | zero => exact fun hlt => absurd hlt (Nat.not_lt_zero _)
  | succ bound ih =>
      intro cs hlt
      have hgap : ∀ rest : List Char, rest.length < cs.length → (skipGap rest).length < bound :=
        fun rest hrest => Nat.lt_of_le_of_lt (length_skipGap_le rest) (by omega)
      have hafter : ∀ {ds more after : List Char}, ds.length ≤ cs.length → more.length < ds.length →
          skipGap more = ',' :: after → (skipGap after).length < bound := by
        intro ds more after hds hmore hcomma
        have hskip := length_skipGap_le more
        rw [hcomma, List.length_cons] at hskip
        exact hgap after (by omega)
      have hstart : ∀ start : Rest cs, start.1.length < bound :=
        fun start => Nat.lt_of_lt_of_le start.2 (Nat.le_of_lt_succ hlt)
      have hvalue : readValue cs = .error (.fault f) ↔ f = .badValue ∧ MeetsOverlong cs := by
        rcases readValue_cases cs with ⟨rest, rfl⟩ | ⟨rest, rfl⟩ | ⟨rest, rfl⟩ |
          ⟨hlist, hrecord, hscalar⟩
        · refine iff_of_false readValue_text_ne_fault ?_
          rintro ⟨-, hmeets⟩
          cases hmeets with
          | integer h => exact not_beginsOverlong (by simp) rest h
        · rw [readValue_list_eq_fault_iff, (ih (hgap rest (by simp))).2.1]
          refine and_congr_right fun _ => ⟨.list, fun hmeets => ?_⟩
          cases hmeets with
          | integer h => exact absurd h (not_beginsOverlong (by simp) rest)
          | list h => exact h
        · rw [readValue_record_eq_fault_iff, (ih (hgap rest (by simp))).2.2]
          refine and_congr_right fun _ => ⟨.record, fun hmeets => ?_⟩
          cases hmeets with
          | integer h => exact absurd h (not_beginsOverlong (by simp) rest)
          | record h => exact h
        · rw [hscalar, readScalar_eq_fault_iff]
          refine and_congr_right fun _ => ⟨.integer, fun hmeets => ?_⟩
          cases hmeets with
          | integer h => exact h
          | list _ => exact absurd rfl (hlist _)
          | record _ => exact absurd rfl (hrecord _)
      refine ⟨hvalue, ?_, ?_⟩
      · rw [readItems_eq_fault_iff, hvalue]
        constructor
        · rintro (⟨hf, h⟩ | ⟨value, more, after, hread, hcomma, h⟩)
          · exact ⟨hf, .here h⟩
          · obtain ⟨hf, h⟩ := (ih (hafter (Nat.le_refl _) more.2 hcomma)).2.1.mp h
            exact ⟨hf, .later hread hcomma h⟩
        · rintro ⟨hf, h⟩
          cases h with
          | here h => exact .inl ⟨hf, h⟩
          | @later _ after value more hread hcomma h =>
              exact .inr ⟨value, more, after, hread, hcomma,
                (ih (hafter (Nat.le_refl _) more.2 hcomma)).2.1.mpr ⟨hf, h⟩⟩
      · rw [readFields_eq_fault_iff]
        constructor
        · rintro ⟨name, start, hname, h | ⟨value, more, after, hread, hcomma, h⟩⟩
          · obtain ⟨hf, h⟩ := (ih (hstart start)).1.mp h
            exact ⟨hf, .here hname h⟩
          · obtain ⟨hf, h⟩ := (ih (hafter (Nat.le_of_lt start.2) more.2 hcomma)).2.2.mp h
            exact ⟨hf, .later hname hread hcomma h⟩
        · rintro ⟨hf, h⟩
          cases h with
          | @here _ name start hname h =>
              exact ⟨name, start, hname, .inl ((ih (hstart start)).1.mpr ⟨hf, h⟩)⟩
          | @later _ after name start value more hname hread hcomma h =>
              exact ⟨name, start, hname, .inr ⟨value, more, after, hread, hcomma,
                (ih (hafter (Nat.le_of_lt start.2) more.2 hcomma)).2.2.mpr ⟨hf, h⟩⟩⟩

theorem readValue_eq_fault_iff {cs : List Char} {f : Fault} :
    readValue cs = .error (.fault f) ↔ f = .badValue ∧ MeetsOverlong cs :=
  (fault_iff_of_length_lt _ (Nat.lt_succ_self _)).1

/-- A text that begins with a bracket or brace ends in a fault exactly when it meets an overlong
integer. -/
theorem read_eq_fault_iff {s : String} {f : Fault} {c : Char} {rest : List Char}
    (hs : s.toList = c :: rest) (hc : c = '[' ∨ c = '\x7b') :
    read s = .error (.fault f) ↔ f = .badValue ∧ MeetsOverlong s.toList := by
  have hmark : s.toList.head? ≠ some byteOrderMark := by
    rw [hs, List.head?_cons, ne_eq, Option.some.injEq]
    rcases hc with rfl | rfl <;> decide
  have hgap : skipGap s.toList = s.toList := by
    rw [hs]
    rcases hc with rfl | rfl <;> rfl
  unfold read
  dsimp only
  rw [if_neg hmark, hgap, ← readValue_eq_fault_iff]
  cases readValue s.toList with
  | error e => simp
  | ok r =>
      rw [ok_bind]
      refine iff_of_false ?_ (by simp)
      split <;> simp

end RecordQuery.Json
