import RecordQuery.Json.Lexeme
/-!
# Reading JSON

The value of a JSON text. A name that is given twice in an object keeps its first place and its last
value; undefined and infinite numbers are accepted. The readers end because each works on what its
predecessor has left of the text.
-/

namespace RecordQuery.Json

/-- The failure of a lexeme as the failure of a text. -/
def ofLexeme {α : Type} : Except Flaw α → Except Failure α
  | .ok a => .ok a
  | .error flaw => .error (.malformed flaw)

/-- The name of an object's field with the colon after it. -/
def readName (cs : List Char) : Except Failure (String × Rest cs) :=
  match cs with
  | '\x22' :: rest => do
    let (chars, ⟨more, h⟩) ← ofLexeme (readString rest)
    match hgap : skipGap more with
    | ':' :: after =>
      return (String.ofList chars, ⟨skipGap after, by
        have hafter := length_skipGap_le after
        have hmore := length_skipGap_le more
        rw [hgap] at hmore
        simp only [List.length_cons] at hmore ⊢
        omega⟩)
    | _ => .error (.malformed .missingColon)
  | _ => .error (.malformed .missingName)

mutual

/-- The value at the start of a text. -/
def readValue (cs : List Char) : Except Failure (Value × Rest cs) :=
  match cs with
  | '\x22' :: rest => do
    let (chars, more) ← ofLexeme (readString rest)
    return (.text (String.ofList chars), more.weaken (by simp))
  | '[' :: rest =>
    match hgap : skipGap rest with
    | ']' :: after =>
      .ok (.list [], ⟨after, by
        have hrest := length_skipGap_le rest
        rw [hgap] at hrest
        simp only [List.length_cons] at hrest ⊢
        omega⟩)
    | _ => do
      let (items, more) ← readItems (skipGap rest)
      return (.list items, more.weaken (by
        have hrest := length_skipGap_le rest
        simp only [List.length_cons]
        omega))
  | '\x7b' :: rest =>
    match hgap : skipGap rest with
    | '\x7d' :: after =>
      .ok (.record [], ⟨after, by
        have hrest := length_skipGap_le rest
        rw [hgap] at hrest
        simp only [List.length_cons] at hrest ⊢
        omega⟩)
    | _ => do
      let (fields, more) ← readFields (skipGap rest)
      return (.record (Fields.ofList fields), more.weaken (by
        have hrest := length_skipGap_le rest
        simp only [List.length_cons]
        omega))
  | cs => readScalar cs
termination_by (cs.length, 0)
decreasing_by
  all_goals exact Prod.Lex.left _ _ (Nat.lt_succ_of_le (length_skipGap_le rest))

/-- The items of a list up to its closing bracket. -/
def readItems (cs : List Char) : Except Failure (List Value × Rest cs) := do
  let (value, ⟨more, h⟩) ← readValue cs
  match hgap : skipGap more with
  | ']' :: after =>
    return ([value], ⟨after, by
      have hmore := length_skipGap_le more
      rw [hgap] at hmore
      simp only [List.length_cons] at hmore
      omega⟩)
  | ',' :: after =>
    have hafter : (skipGap after).length < cs.length := by
      have hskip := length_skipGap_le after
      have hmore := length_skipGap_le more
      rw [hgap] at hmore
      simp only [List.length_cons] at hmore
      omega
    let (items, rest) ← readItems (skipGap after)
    return (value :: items, rest.weaken (Nat.le_of_lt hafter))
  | _ => .error (.malformed .missingComma)
termination_by (cs.length, 1)
decreasing_by
  · exact Prod.Lex.right _ Nat.zero_lt_one
  · exact Prod.Lex.left _ _ hafter

/-- The fields of an object up to its closing brace. -/
def readFields (cs : List Char) : Except Failure (List (String × Value) × Rest cs) := do
  let (name, ⟨start, hstart⟩) ← readName cs
  let (value, ⟨more, h⟩) ← readValue start
  match hgap : skipGap more with
  | '\x7d' :: after =>
    return ([(name, value)], ⟨after, by
      have hmore := length_skipGap_le more
      rw [hgap] at hmore
      simp only [List.length_cons] at hmore
      omega⟩)
  | ',' :: after =>
    have hafter : (skipGap after).length < cs.length := by
      have hskip := length_skipGap_le after
      have hmore := length_skipGap_le more
      rw [hgap] at hmore
      simp only [List.length_cons] at hmore
      omega
    let (fields, rest) ← readFields (skipGap after)
    return ((name, value) :: fields, rest.weaken (Nat.le_of_lt hafter))
  | _ => .error (.malformed .missingComma)
termination_by (cs.length, 1)
decreasing_by
  · exact Prod.Lex.left _ _ hstart
  · exact Prod.Lex.left _ _ hafter

end

/-- The byte order mark, which may not begin a text. -/
def byteOrderMark : Char := Char.ofNat 0xfeff

/-- The value of a whole JSON text. -/
def read (s : String) : Except Failure Value :=
  let cs := s.toList
  if cs.head? = some byteOrderMark then .error (.malformed .byteOrderMark)
  else do
    let (value, rest) ← readValue (skipGap cs)
    if (skipGap rest.1).isEmpty then return value else .error (.malformed .extraData)

end RecordQuery.Json
