import RecordQuery.Error
import RecordQuery.Value.Lookup
/-!
# Whitelists

Which attributes of a resource may be filtered, and by which operators. Operators may be listed in
any spelling; an attribute with an empty list may be filtered by every operator.
`check_ok_iff` says exactly what is allowed.
-/

namespace RecordQuery

/-- The attributes that may be filtered, each with the core names of its operators. -/
structure Whitelist where
  entries : List (String × List String)

namespace Whitelist

/-- The whitelist of attributes with operators in any spelling. -/
def ofList (entries : List (String × List String)) : Whitelist :=
  ⟨entries.map fun entry => (entry.1, entry.2.map Operator.normalize)⟩

/-- The spelling that a value stands for in a list of operators. What is no text is the spelling of no
operator, and some values cannot be listed at all. -/
def spellingOf (v : Value) : Except Fault String :=
  match v.text? with
  | some s => .ok s
  | none => if v.isLookupKey then .ok v.shown else .error .wrongKind

/-- The spellings that a value lists. -/
def spellingsOf (v : Value) : Except Fault (List String) :=
  match v.elements? with
  | some elements => elements.mapM spellingOf
  | none => .error .wrongKind

/-- The whitelist that a value describes: its fields name the attributes and list operators. -/
def ofValue (v : Value) : Except Fault Whitelist := do
  let fields ← if v.truthy then v.fields else pure []
  let entries ← fields.mapM fun field => do return (field.1, ← spellingsOf field.2)
  return ofList entries

/-- The operators listed for an attribute. -/
def operators? (w : Whitelist) (name : String) : Option (List String) :=
  Fields.get? w.entries name

/-- The attribute may be filtered by the operator of a spelling. -/
def Allows (w : Whitelist) (name spelling : String) : Prop :=
  ∃ operators, w.operators? name = some operators ∧
    (operators = [] ∨ Operator.normalize spelling ∈ operators)

/-- Refuses an attribute that is not listed, and an operator that is not listed for it. -/
def check (w : Whitelist) (name spelling : String) : Except FilterError Unit :=
  match w.operators? name with
  | none => .error (.notAllowed (.text name) .null)
  | some operators =>
    if operators.isEmpty || operators.contains (Operator.normalize spelling) then .ok ()
    else .error (.notAllowed (.text name) (.text spelling))

/-- The check passes exactly what the whitelist allows. -/
theorem check_ok_iff (w : Whitelist) (name spelling : String) :
    w.check name spelling = .ok () ↔ w.Allows name spelling := by
  unfold check Allows
  cases h : w.operators? name with
  | none => simp
  | some operators =>
      by_cases ho : operators = []
      · simp [ho]
      · by_cases hm : Operator.normalize spelling ∈ operators
        · simp [ho, hm]
        · simp [ho, hm]

/-- The listed attributes, each with its operators in ascending order and without repetition. -/
def listing (w : Whitelist) : List (String × List String) :=
  w.entries.map fun entry => (entry.1, Operator.sorted entry.2.eraseDups)

end Whitelist

/-- The whitelist that a value describes, if it is not absent. -/
def Whitelist.read (v : Value) : Except Fault (Option Whitelist) :=
  if v.isNull then .ok none else (ofValue v).map some

/-- The check of a whitelist, if there is one. -/
def Whitelist.checkOption (w : Option Whitelist) (name spelling : String) :
    Except FilterError Unit :=
  match w with
  | some w => w.check name spelling
  | none => .ok ()

end RecordQuery
