import Mathlib.Data.List.Dedup
import Mathlib.Data.List.Sort
import RecordQuery.Params.Tree
/-!
# Where query parameters lead

The name of a parameter spells the path of its value: group elements, one inside the other, and then
names. Spellings of one path differ in their notation alone: an index that is left out is the first
one, and empty segments at the end only mark that several values may come. `Given.leaves` says which
leaves parameters ask for, and `Grouped` what their groups have to look like. Neither speaks of the
tree that the parameters grow into, nor of the order in which it grows.
-/

namespace RecordQuery.Params

/-! ## Paths -/

/-- Where a parameter puts its value: inside group elements, the outermost first, and there under
names. -/
@[ext] structure Path where
  elements : List (Connective × Nat)
  names : List String
deriving DecidableEq, Repr

/-- The path inside one more group element. -/
def Path.within (element : Connective × Nat) (p : Path) : Path :=
  { p with elements := element :: p.elements }

/-- The path that the segments of a parameter name spell. A group as a whole has no names. -/
def pathOf : List String → Path
  | [] => ⟨[], []⟩
  | segment :: rest =>
    match Connective.ofWord? segment with
    | none => ⟨[], segment :: dropMarks rest⟩
    | some c =>
      match rest with
      | [] => ⟨[], []⟩
      | first :: later =>
        if isIndex first then
          match readIndex first with
          | .ok index => if later = [] then ⟨[], []⟩ else (pathOf later).within (c, index)
          | .error _ => ⟨[], []⟩
        else (pathOf (first :: later)).within (c, 0)
termination_by structural segments => segments

/-- Values with their paths, in the order of the parameters that give them. -/
abbrev Given := List (Path × Value)

/-- The segments of a parameter name that is well-formed. -/
def segmentsOf (key : String) : List String :=
  (segments? key).toOption.getD []

/-- What parameters give; those without a value give nothing. -/
def given (params : Fields) : Given :=
  (params.filter fun param => !param.2.isNull).map fun param => (pathOf (segmentsOf param.1), param.2)

/-- A text, or a list of texts. -/
def isTexts : Value → Bool
  | .text _ => true
  | .list items => items.all fun item =>
    match item with
    | .text _ => true
    | _ => false
  | _ => false

/-- The value for all values of a path: a single one unchanged, and several as one list. -/
def collected : List Value → Value
  | [v] => v
  | vs => .list (vs.flatMap asItems)

namespace Given

/-! ## Leaves -/

/-- There are values for operators of the attribute at a path. -/
def hasOperators (g : Given) (p : Path) : Bool :=
  g.any fun q => decide (q.1.elements = p.elements ∧ q.1.names.head? = p.names.head? ∧
    1 < q.1.names.length)

/-- The path that counts: an attribute that has operators too stands for equality. -/
def settle (g : Given) (p : Path) : Path :=
  if p.names.length = 1 ∧ hasOperators g p = true then
    { p with names := p.names ++ [Operator.equals.name] }
  else p

/-- The values given to a path, in order. -/
def valuesAt (g : Given) (p : Path) : List Value :=
  (g.filter fun q => settle g q.1 = p).map (·.2)

/-- A value with its path inside a group element, if it is given there. -/
def inside? (element : Connective × Nat) (q : Path × Value) : Option (Path × Value) :=
  match q.1.elements with
  | [] => none
  | first :: rest => if first = element then some (⟨rest, q.1.names⟩, q.2) else none

/-- What is given inside a group element, where its paths begin. -/
def under (element : Connective × Nat) (g : Given) : Given :=
  g.filterMap (inside? element)

/-- The indices in use for a group, each once and in ascending order. -/
def indices (c : Connective) (g : Given) : List Nat :=
  (g.filterMap fun q =>
    match q.1.elements with
    | [] => none
    | first :: _ => if first.1 = c then some first.2 else none).dedup.insertionSort (· ≤ ·)

/-- Group elements by their positions among those in use instead of their indices. -/
def positions (g : Given) : List (Connective × Nat) → List (Connective × Nat)
  | [] => []
  | (c, index) :: rest => (c, (indices c g).idxOf index) :: positions (under (c, index) g) rest

/-- The leaves that are asked for, by the positions of the group elements around them. -/
def leaves (g : Given) : List (Path × Value) :=
  (g.filter fun q => q.1.names ≠ []).map fun q =>
    (⟨positions g q.1.elements, (settle g q.1).names⟩, collected (valuesAt g (settle g q.1)))

end Given

/-! ## Results -/

/-- The leaf of a value under names. A record is a leaf only when it is empty. -/
def valueLeaf? : List String → Value → Option Value
  | [], v =>
    match v.record? with
    | some (_ :: _) => none
    | _ => some v
  | name :: rest, v => (v.record?.bind fun fields => Fields.get? fields name).bind (valueLeaf? rest)

/-- The leaf of a result at a path. The word of a group is not the name of an attribute. -/
def leafAt? (names : List String) : List (Connective × Nat) → Fields → Option Value
  | [], fields =>
    match names with
    | [] => none
    | name :: rest =>
      if FilterKey.isBranch name then none else (Fields.get? fields name).bind (valueLeaf? rest)
  | (c, position) :: rest, fields =>
    match Fields.get? fields c.word with
    | some (.list items) =>
      match items[position]? with
      | some (.record inner) => leafAt? names rest inner
      | _ => none
    | _ => none

/-- Every group that a result holds, at its top or inside elements of groups, is the list of one
record for each index in use, in ascending order of the indices; a group that it does not hold has no
index in use. -/
inductive Grouped : Given → Fields → Prop
  | intro {g : Given} {fields : Fields} (elements : Connective → List Fields)
    (holds : ∀ c, Fields.get? fields c.word = some (.list ((elements c).map .record)) ∨
      Fields.get? fields c.word = none ∧ elements c = [])
    (one : ∀ c, (elements c).length = (Given.indices c g).length)
    (inside : ∀ (c : Connective) (position index : Nat) (element : Fields),
      (Given.indices c g)[position]? = some index → (elements c)[position]? = some element →
      Grouped (Given.under (c, index) g) element) :
    Grouped g fields

/-! ## What is given inside an element -/

namespace Given

variable {g : Given} {element : Connective × Nat}

theorem inside?_eq_some_iff {q r : Path × Value} :
    inside? element q = some r ↔ q = (r.1.within element, r.2) := by
  obtain ⟨⟨elements, names⟩, v⟩ := q
  obtain ⟨⟨elements', names'⟩, v'⟩ := r
  cases elements with
  | nil => simp [inside?, Path.within]
  | cons first rest =>
      simp only [inside?, Path.within, Option.ite_none_right_eq_some, Option.some.injEq,
        Prod.mk.injEq, Path.mk.injEq, List.cons.injEq]
      tauto

/-- What is given inside an element is given at the paths inside it. -/
theorem mem_under_iff {p : Path} {v : Value} :
    (p, v) ∈ under element g ↔ (p.within element, v) ∈ g := by
  simp only [under, List.mem_filterMap, inside?_eq_some_iff, exists_eq_right]

/-- Inside an element an attribute has the operators that it has at the whole path. -/
theorem hasOperators_within (p : Path) :
    hasOperators g (p.within element) = hasOperators (under element g) p := by
  rw [Bool.eq_iff_iff, hasOperators, hasOperators, List.any_eq_true, List.any_eq_true]
  simp only [decide_eq_true_eq]
  constructor
  · rintro ⟨⟨⟨elements, names⟩, v⟩, hmem, helements, hhead, hlong⟩
    obtain rfl : elements = element :: p.elements := helements
    exact ⟨(⟨p.elements, names⟩, v), mem_under_iff.mpr hmem, rfl, hhead, hlong⟩
  · rintro ⟨⟨q, v⟩, hmem, helements, hhead, hlong⟩
    refine ⟨(q.within element, v), mem_under_iff.mp hmem, ?_, hhead, hlong⟩
    exact congrArg (List.cons element) helements

/-- A path inside an element settles there. -/
theorem settle_within (p : Path) :
    settle g (p.within element) = (settle (under element g) p).within element := by
  have hnames : (p.within element).names = p.names := rfl
  rw [settle, settle, hnames, hasOperators_within]
  split <;> rfl

/-- Settling leaves the elements as they are. -/
theorem elements_settle (g : Given) (p : Path) : (settle g p).elements = p.elements := by
  rw [settle]
  split <;> rfl

theorem names_settle_eq_nil {p : Path} : (settle g p).names = [] ↔ p.names = [] := by
  rw [settle]
  split
  · next h => simp [List.ne_nil_of_length_eq_add_one h.1]
  · exact Iff.rfl

theorem within_injective {p q : Path} (h : p.within element = q.within element) : p = q := by
  obtain ⟨elements, names⟩ := p
  obtain ⟨elements', names'⟩ := q
  simpa [Path.within] using h

/-- A part of what is given holds the same values when it is seen from nearer by. -/
theorem map_filter_filterMap {α : Type} {near? : Path × Value → Option (α × Value)}
    {here : Path × Value → Bool} {there : α × Value → Bool}
    (hsame : ∀ q, here q = true ↔ ∃ r, near? q = some r ∧ there r = true)
    (hvalue : ∀ q r, near? q = some r → r.2 = q.2) (g : Given) :
    (g.filter here).map (·.2) = ((g.filterMap near?).filter there).map (·.2) := by
  induction g with
  | nil => rfl
  | cons q rest ih =>
      cases hnear : near? q with
      | none =>
          have hfar : ¬here q = true := by
            rw [hsame, hnear]
            simp
          rw [List.filter_cons_of_neg hfar, List.filterMap_cons_none hnear, ih]
      | some r =>
          have hboth : here q = true ↔ there r = true := by
            rw [hsame, hnear]
            simp
          rw [List.filterMap_cons_some hnear]
          by_cases hthere : there r = true
          · rw [List.filter_cons_of_pos (hboth.mpr hthere), List.filter_cons_of_pos hthere,
              List.map_cons, List.map_cons, ih, hvalue q r hnear]
          · rw [List.filter_cons_of_neg (mt hboth.mp hthere), List.filter_cons_of_neg hthere, ih]

/-- The values given to a path inside an element are those given to it there. -/
theorem valuesAt_within (g : Given) (p : Path) :
    valuesAt g (p.within element) = valuesAt (under element g) p := by
  refine map_filter_filterMap (fun q => ?_) (fun q r hr => ?_) g
  · simp only [decide_eq_true_eq, inside?_eq_some_iff]
    constructor
    · intro h
      have helements : q.1.elements = element :: p.elements :=
        (elements_settle g q.1).symm.trans (congrArg Path.elements h)
      have hpath : q.1 = Path.within element ⟨p.elements, q.1.names⟩ := Path.ext helements rfl
      rw [hpath, settle_within] at h
      exact ⟨(⟨p.elements, q.1.names⟩, q.2), Prod.ext hpath rfl, within_injective h⟩
    · rintro ⟨r, rfl, rfl⟩
      exact settle_within r.1
  · exact (congrArg Prod.snd (inside?_eq_some_iff.mp hr)).symm

/-- An index is in use when something is given inside its element. -/
theorem mem_indices_iff {c : Connective} {index : Nat} :
    index ∈ indices c g ↔ ∃ q ∈ g, ∃ rest, q.1.elements = (c, index) :: rest := by
  rw [indices, List.mem_insertionSort, List.mem_dedup, List.mem_filterMap]
  refine exists_congr fun q => and_congr_right fun _ => ?_
  cases q.1.elements with
  | nil => simp
  | cons first rest =>
      obtain ⟨d, i⟩ := first
      simp only [Option.ite_none_right_eq_some, Option.some.injEq, List.cons.injEq, Prod.mk.injEq,
        exists_and_left, exists_eq', and_true]

theorem sortedLT_indices (c : Connective) (g : Given) : (indices c g).SortedLT :=
  List.sortedLT_iff_nodup_and_sortedLE.mpr
    ⟨(List.perm_insertionSort _ _).nodup_iff.mpr (List.nodup_dedup _), List.sortedLE_insertionSort⟩

theorem mem_leaves_iff {path : Path} {v : Value} :
    (path, v) ∈ leaves g ↔ ∃ q ∈ g, q.1.names ≠ [] ∧ positions g q.1.elements = path.elements ∧
      (settle g q.1).names = path.names ∧ collected (valuesAt g (settle g q.1)) = v := by
  simp only [leaves, List.mem_map, List.mem_filter, decide_eq_true_eq, and_assoc, Prod.mk.injEq,
    Path.ext_iff]

/-- A leaf is asked for in the element at a position when it is inside the element whose index has
that position. -/
theorem mem_leaves_within_iff {c : Connective} {position : Nat} {rest : List (Connective × Nat)}
    {names : List String} {v : Value} :
    (⟨(c, position) :: rest, names⟩, v) ∈ leaves g ↔
      ∃ index, (indices c g)[position]? = some index ∧
        (⟨rest, names⟩, v) ∈ leaves (under (c, index) g) := by
  simp only [mem_leaves_iff]
  constructor
  · rintro ⟨⟨⟨elements, qnames⟩, w⟩, hmem, hne, hpositions, hnames, hvalue⟩
    cases elements with
    | nil => exact absurd hpositions (by simp [positions])
    | cons first later =>
        obtain ⟨d, index⟩ := first
        simp only [positions, List.cons.injEq, Prod.mk.injEq] at hpositions
        obtain ⟨⟨rfl, rfl⟩, hrest⟩ := hpositions
        have hin : index ∈ indices d g := mem_indices_iff.mpr ⟨_, hmem, later, rfl⟩
        have hpath : (⟨(d, index) :: later, qnames⟩ : Path) = Path.within (d, index) ⟨later, qnames⟩ :=
          rfl
        rw [hpath, settle_within] at hnames hvalue
        rw [valuesAt_within] at hvalue
        exact ⟨index, List.getElem?_idxOf hin, (⟨later, qnames⟩, w), mem_under_iff.mpr hmem, hne,
          hrest, hnames, hvalue⟩
  · rintro ⟨index, hindex, ⟨p, w⟩, hmem, hne, hpositions, hnames, hvalue⟩
    obtain ⟨hlt, hget⟩ := List.getElem?_eq_some_iff.mp hindex
    have hposition : (indices c g).idxOf index = position := by
      rw [← hget]
      exact (sortedLT_indices c g).nodup.idxOf_getElem position hlt
    refine ⟨(p.within (c, index), w), mem_under_iff.mp hmem, hne, ?_, ?_, ?_⟩
    · simp only [Path.within, positions, hposition, hpositions]
    · rw [settle_within]
      exact hnames
    · rw [settle_within, valuesAt_within]
      exact hvalue

/-! ## What is given to one attribute -/

/-- A value with the names below an attribute, if it is given there and in no group. -/
def below? (name : String) (q : Path × Value) : Option (List String × Value) :=
  match q.1 with
  | ⟨[], first :: rest⟩ => if first = name then some (rest, q.2) else none
  | _ => none

/-- What is given to an attribute, each value with the names below the attribute. -/
def below (name : String) (g : Given) : List (List String × Value) :=
  g.filterMap (below? name)

/-- The names below an attribute that count, among those that are given to it. -/
def settleBelow (qs : List (List String × Value)) (names : List String) : List String :=
  if names = [] ∧ ∃ q ∈ qs, q.1 ≠ [] then [Operator.equals.name] else names

variable {name : String}

theorem below?_eq_some_iff {q : Path × Value} {r : List String × Value} :
    below? name q = some r ↔ q = (⟨[], name :: r.1⟩, r.2) := by
  obtain ⟨⟨elements, names⟩, v⟩ := q
  obtain ⟨names', v'⟩ := r
  cases elements with
  | cons first rest => simp [below?]
  | nil =>
      cases names with
      | nil => simp [below?]
      | cons first rest =>
          simp only [below?, Option.ite_none_right_eq_some, Option.some.injEq, Prod.mk.injEq,
            Path.mk.injEq, List.cons.injEq]
          tauto

theorem mem_below_iff {names : List String} {v : Value} :
    (names, v) ∈ below name g ↔ (⟨[], name :: names⟩, v) ∈ g := by
  simp only [below, List.mem_filterMap, below?_eq_some_iff, exists_eq_right]

/-- The path of an attribute settles with the names below it. -/
theorem settle_attribute (g : Given) (names : List String) :
    settle g ⟨[], name :: names⟩ = ⟨[], name :: settleBelow (below name g) names⟩ := by
  have hoperators : hasOperators g ⟨[], [name]⟩ = true ↔ ∃ q ∈ below name g, q.1 ≠ [] := by
    rw [hasOperators, List.any_eq_true]
    simp only [decide_eq_true_eq]
    constructor
    · rintro ⟨⟨⟨elements, qnames⟩, v⟩, hmem, rfl, hhead, hlong⟩
      match qnames with
      | [] => exact absurd hlong (by simp)
      | [_] => exact absurd hlong (by simp)
      | first :: second :: rest =>
          obtain rfl : first = name := Option.some.inj hhead
          exact ⟨(second :: rest, v), mem_below_iff.mpr hmem, by simp⟩
    · rintro ⟨⟨names, v⟩, hmem, hne⟩
      refine ⟨_, mem_below_iff.mp hmem, rfl, rfl, ?_⟩
      simpa [List.length_pos_iff] using hne
  rw [settle, settleBelow]
  cases names with
  | cons first rest => rw [if_neg (by simp), if_neg (by simp)]
  | nil =>
      by_cases hany : ∃ q ∈ below name g, q.1 ≠ []
      · rw [if_pos ⟨rfl, hoperators.mpr hany⟩, if_pos ⟨rfl, hany⟩]
        rfl
      · rw [if_neg (fun h => hany (hoperators.mp h.2)), if_neg (fun h => hany h.2)]

/-- A path that settles at an attribute outside of groups is one of that attribute. -/
theorem attribute_of_settle {p : Path} {names : List String}
    (h : settle g p = ⟨[], name :: names⟩) : ∃ rest, p = ⟨[], name :: rest⟩ := by
  obtain ⟨elements, pnames⟩ := p
  obtain rfl : elements = [] := (elements_settle g _).symm.trans (congrArg Path.elements h)
  cases pnames with
  | nil => exact absurd (names_settle_eq_nil.mpr rfl) (by rw [h]; simp)
  | cons first rest =>
      rw [settle_attribute, Path.mk.injEq, List.cons.injEq] at h
      exact ⟨rest, by rw [h.2.1]⟩

/-- The values given to names below an attribute are those given to them there. -/
theorem valuesAt_attribute (g : Given) (names : List String) :
    valuesAt g ⟨[], name :: names⟩ =
      ((below name g).filter fun q => settleBelow (below name g) q.1 = names).map (·.2) := by
  refine map_filter_filterMap (fun q => ?_) (fun q r hr => ?_) g
  · simp only [decide_eq_true_eq, below?_eq_some_iff]
    constructor
    · intro h
      obtain ⟨rest, hpath⟩ := attribute_of_settle h
      rw [hpath, settle_attribute, Path.mk.injEq, List.cons.injEq] at h
      exact ⟨(rest, q.2), Prod.ext hpath rfl, h.2.2⟩
    · rintro ⟨r, rfl, rfl⟩
      exact settle_attribute g r.1
  · exact (congrArg Prod.snd (below?_eq_some_iff.mp hr)).symm

/-- A leaf is asked for at an attribute outside of groups when it is among those given to it. -/
theorem mem_leaves_attribute_iff {names : List String} {v : Value} :
    (⟨[], name :: names⟩, v) ∈ leaves g ↔ ∃ q ∈ below name g,
      settleBelow (below name g) q.1 = names ∧
        collected (((below name g).filter fun q => settleBelow (below name g) q.1 = names).map
          (·.2)) = v := by
  rw [mem_leaves_iff]
  constructor
  · rintro ⟨⟨⟨elements, qnames⟩, w⟩, hmem, -, hpositions, hnames, hvalue⟩
    cases elements with
    | cons first later => exact absurd hpositions (by simp [positions])
    | nil =>
        have hsettle : settle g ⟨[], qnames⟩ = ⟨[], name :: names⟩ :=
          Path.ext (elements_settle g _) hnames
        obtain ⟨rest, hpath⟩ := attribute_of_settle hsettle
        obtain rfl : qnames = name :: rest := congrArg Path.names hpath
        rw [hsettle, valuesAt_attribute] at hvalue
        rw [settle_attribute, Path.mk.injEq, List.cons.injEq] at hsettle
        exact ⟨(rest, w), mem_below_iff.mpr hmem, hsettle.2.2, hvalue⟩
  · rintro ⟨⟨rest, w⟩, hmem, rfl, hvalue⟩
    refine ⟨_, mem_below_iff.mp hmem, by simp, rfl, ?_, ?_⟩
    · rw [settle_attribute]
    · rw [settle_attribute, valuesAt_attribute]
      exact hvalue

/-- Nothing is asked for at a path without names. -/
theorem ne_nil_of_mem_leaves {path : Path} {v : Value} (h : (path, v) ∈ leaves g) :
    path.names ≠ [] := by
  obtain ⟨q, -, hne, -, hnames, -⟩ := mem_leaves_iff.mp h
  rw [← hnames]
  exact mt names_settle_eq_nil.mp hne

end Given

end RecordQuery.Params
