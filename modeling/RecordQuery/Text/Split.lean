/-!
# Splitting text at separators

`fields` cuts a text at every separator and keeps empty pieces, so that joining the pieces again
gives the text without its separators (`flatten_fields`). `runs` keeps only the non-empty pieces:
the maximal runs of characters that are no separators.
-/

namespace RecordQuery.Text

/-- The pieces of a text between separators, empty ones included. -/
def fields (sep : Char → Bool) : List Char → List (List Char)
  | [] => [[]]
  | c :: cs => if sep c then [] :: fields sep cs else (fields sep cs).modifyHead (c :: ·)

/-- There is at least one piece. -/
theorem fields_ne_nil (sep : Char → Bool) (cs : List Char) : fields sep cs ≠ [] := by
  cases cs with
  | nil => simp [fields]
  | cons c cs =>
      by_cases h : sep c
      · simp [fields, h]
      · cases hf : fields sep cs with
        | nil => exact absurd hf (fields_ne_nil sep cs)
        | cons head tail => simp [fields, h, hf]

/-- The pieces together are the text without its separators. -/
theorem flatten_fields (sep : Char → Bool) (cs : List Char) :
    (fields sep cs).flatten = cs.filter fun c => !sep c := by
  induction cs with
  | nil => rfl
  | cons c cs ih =>
      by_cases h : sep c
      · simp [fields, h, ih]
      · cases hf : fields sep cs with
        | nil => exact absurd hf (fields_ne_nil sep cs)
        | cons head tail =>
            rw [hf] at ih
            simp [fields, h, hf, ← ih]

/-- No piece holds a separator. -/
theorem not_sep_of_mem_fields {sep : Char → Bool} {cs field : List Char}
    (h : field ∈ fields sep cs) : ∀ c ∈ field, sep c = false := by
  induction cs generalizing field with
  | nil =>
      intro c hc
      simp [fields] at h
      simp [h] at hc
  | cons d cs ih =>
      intro c hc
      by_cases hd : sep d
      · simp only [fields, hd, if_true, List.mem_cons] at h
        rcases h with rfl | h
        · simp at hc
        · exact ih h c hc
      · cases hf : fields sep cs with
        | nil => exact absurd hf (fields_ne_nil sep cs)
        | cons head tail =>
            simp only [fields, hd, hf, List.modifyHead_cons, List.mem_cons, Bool.false_eq_true,
              if_false] at h
            rcases h with rfl | h
            · rcases List.mem_cons.1 hc with rfl | hc
              · simpa using hd
              · exact ih (hf ▸ List.mem_cons_self) c hc
            · exact ih (hf ▸ List.mem_cons_of_mem _ h) c hc

/-- The non-empty pieces of a text between separators. -/
def runs (sep : Char → Bool) (cs : List Char) : List (List Char) :=
  (fields sep cs).filter fun field => !field.isEmpty

/-- The pieces of a text between occurrences of one character, empty ones included. -/
def splitAt (separator : Char) (s : String) : List String :=
  (fields (· == separator) s.toList).map String.ofList

/-- The non-empty pieces of a text between characters of a class. -/
def splitRuns (sep : Char → Bool) (s : String) : List String :=
  (runs sep s.toList).map String.ofList

end RecordQuery.Text
