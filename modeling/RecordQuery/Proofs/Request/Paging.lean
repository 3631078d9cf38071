import Mathlib.Algebra.Order.Floor.Semifield
import Mathlib.Data.Rat.Floor
import RecordQuery.Pagination
import RecordQuery.Proofs.Number.Rows
import RecordQuery.Proofs.Outcome
/-!
# Malformed paging options

A number of a list request that is missing, malformed or not positive gives way to its default, whatever
kind of value stands in its place: `StandsFor` says which integer a value stands for, if any. Two
conversions are not guarded, though. An infinite number has no integer, and an integer with too many
digits has no text; `paging_read_iff` says that these are the only options that are not read.
-/

namespace RecordQuery

/-! ## Integral parts -/

namespace Binary64

/-- The ratio of a finite number is its magnitude. -/
theorem ratio_div (m : Nat) (e : Int) :
    ((ratio m e).1 : ℚ) / ((ratio m e).2 : ℚ) = (m : ℚ) * 2 ^ e := by
  obtain ⟨k, rfl | rfl⟩ := e.eq_nat_or_neg
  · rw [ratio, pow2_natCast, pow2_of_nonpos (by omega)]
    simp
  · rw [ratio, neg_neg, pow2_natCast, pow2_of_nonpos (by omega)]
    simp [div_eq_mul_inv]

/-- A finite number is truncated to the integral part of its magnitude, with its sign. -/
theorem truncate?_finite (negative : Bool) (m : Nat) (e : Int) :
    (finite negative m e).truncate? = some (signed negative ⌊(m : ℚ) * 2 ^ e⌋₊) := by
  rw [← ratio_div, Nat.floor_div_eq_div]
  rfl

end Binary64

/-! ## Values that stand for integers -/

namespace Value

/-- The value is an infinite number. -/
def IsInfinite (v : Value) : Prop :=
  ∃ negative, v = .float (.infinity negative)

/-- The value stands for the integer: it is the integer itself, a finite number that leaves the integer
when its fraction is dropped, or a text that spells the integer. -/
inductive StandsFor : Value → Int → Prop
  | int (n : Int) : StandsFor (.int n) n
  | float (negative : Bool) (m : Nat) (e : Int) :
      StandsFor (.float (.finite negative m e)) (Binary64.signed negative ⌊(m : ℚ) * 2 ^ e⌋₊)
  | text {s : String} {n : Int} : Spells s n → StandsFor (.text s) n

/-- An empty value can be written. -/
theorem isWritable_of_not_truthy {v : Value} (h : v.truthy = false) : v.isWritable = true := by
  cases v with
  | null | bool | float | text | moment | connective | deferred => rfl
  | int n =>
      obtain rfl : n = 0 := by simpa [truthy] using h
      decide +kernel
  | list items =>
      obtain rfl : items = [] := by simpa [truthy] using h
      rfl
  | tuple items =>
      obtain rfl : items = [] := by simpa [truthy] using h
      rfl
  | record fields =>
      obtain rfl : fields = [] := by simpa [truthy] using h
      rfl
  | node n => exact absurd h (by simp [truthy])

end Value

namespace Pagination

/-- An infinite number has no integer. -/
theorem integer?_of_isInfinite {v : Value} (h : v.IsInfinite) : integer? v = .error .outOfRange := by
  obtain ⟨negative, rfl⟩ := h
  rfl

/-- Any other value gives the integer that it stands for, if there is one. -/
theorem integer?_of_not_isInfinite {v : Value} (h : ¬v.IsInfinite) :
    ∃ found, integer? v = .ok found ∧ ∀ n, found = some n ↔ v.StandsFor n := by
  cases v with
  | int k =>
      refine ⟨some k, rfl, fun n => ?_⟩
      constructor
      · rintro ⟨⟩
        exact .int k
      · rintro ⟨⟩
        rfl
  | text s =>
      refine ⟨readInteger? s, rfl, fun n => ?_⟩
      rw [readInteger?_eq_some_iff]
      constructor
      · exact .text
      · intro hstands
        cases hstands with
        | text hspells => exact hspells
  | float x =>
      cases x with
      | infinity negative => exact absurd ⟨negative, rfl⟩ h
      | nan =>
          refine ⟨none, rfl, fun n => iff_of_false (by simp) ?_⟩
          rintro ⟨⟩
      | finite negative m e =>
          refine ⟨_, congrArg Except.ok (Binary64.truncate?_finite negative m e), fun n => ?_⟩
          constructor
          · rintro ⟨⟩
            exact .float negative m e
          · rintro ⟨⟩
            rfl
  | null | bool | list | tuple | record | moment | connective | node | deferred =>
      refine ⟨none, rfl, fun n => iff_of_false (by simp) ?_⟩
      rintro ⟨⟩

/-! ## Numbers -/

/-- What becomes of an option that has to be a positive number: the positive integer that its value
stands for, or else the default. -/
def FallsBack (v : Value) (default n : Int) : Prop :=
  0 < n ∧ v.StandsFor n ∨ n = default ∧ ∀ m, v.StandsFor m → m ≤ 0

theorem FallsBack.pos {v : Value} {default n : Int} (h : FallsBack v default n)
    (hdefault : 1 ≤ default) : 1 ≤ n := by
  rcases h with ⟨hpos, -⟩ | ⟨rfl, -⟩
  · exact hpos
  · exact hdefault

/-- An infinite number is a fault, and any other value is read or falls back to the default. -/
theorem readCount_cases (v : Value) (default : Int) :
    v.IsInfinite ∧ readCount v default = .error .outOfRange ∨
      ¬v.IsInfinite ∧ ∃ n, readCount v default = .ok n ∧ FallsBack v default n := by
  by_cases h : v.IsInfinite
  · exact .inl ⟨h, by rw [readCount, integer?_of_isInfinite h]; rfl⟩
  · obtain ⟨found, hfound, hiff⟩ := integer?_of_not_isInfinite h
    refine .inr ⟨h, _, congrArg (Except.map _) hfound, ?_⟩
    cases found with
    | none => exact .inr ⟨rfl, fun m hm => absurd ((hiff m).mpr hm) (by simp)⟩
    | some k =>
        dsimp only
        split
        · next hpos => exact .inl ⟨hpos, (hiff k).mp rfl⟩
        · next hpos =>
            refine .inr ⟨rfl, fun m hm => ?_⟩
            obtain rfl := Option.some.inj ((hiff m).mpr hm)
            exact Int.not_lt.mp hpos

/-- The value is the word for all pages. -/
def SaysAll (v : Value) : Prop :=
  ∃ s, v.text? = some s ∧ (Text.trim s).toLower = "all"

/-- What becomes of the option for the pages: all of them where the word says so, and a number
otherwise. -/
inductive ReadsPages (v : Value) (default : Int) : Pages → Prop
  | all : SaysAll v → ReadsPages v default .all
  | some {n : Int} : ¬SaysAll v → FallsBack v default n → ReadsPages v default (.some n)

theorem ReadsPages.pos {v : Value} {default : Int} {pages : Pages} (h : ReadsPages v default pages)
    (hdefault : 1 ≤ default) : pages = .all ∨ ∃ n, pages = .some n ∧ 1 ≤ n := by
  cases h with
  | all => exact .inl rfl
  | some _ hnumber => exact .inr ⟨_, rfl, hnumber.pos hdefault⟩

theorem readPages_of_saysAll {v : Value} (h : SaysAll v) (default : Int) :
    readPages v default = .ok .all := by
  obtain ⟨s, hs, hall⟩ := h
  rw [readPages, hs]
  exact if_pos hall

theorem readPages_of_not_saysAll {v : Value} (h : ¬SaysAll v) (default : Int) :
    readPages v default = (readCount v default).map .some := by
  rw [readPages]
  split
  · next s hs => exact if_neg fun hall => h ⟨s, hs, hall⟩
  · rfl

/-- An infinite number of pages is a fault too. -/
theorem readPages_cases (v : Value) (default : Int) :
    v.IsInfinite ∧ readPages v default = .error .outOfRange ∨
      ¬v.IsInfinite ∧ ∃ pages, readPages v default = .ok pages ∧ ReadsPages v default pages := by
  by_cases hall : SaysAll v
  · refine .inr ⟨?_, .all, readPages_of_saysAll hall default, .all hall⟩
    rintro ⟨negative, rfl⟩
    obtain ⟨s, hs, -⟩ := hall
    exact absurd hs (by simp [Value.text?])
  · rw [readPages_of_not_saysAll hall]
    rcases readCount_cases v default with ⟨h, hcount⟩ | ⟨h, n, hcount, hnumber⟩
    · exact .inl ⟨h, by rw [hcount]; rfl⟩
    · exact .inr ⟨h, .some n, by rw [hcount]; rfl, .some hall hnumber⟩

/-! ## Texts -/

/-- A value that cannot be written has no text. -/
theorem textOf?_cases (v : Value) :
    v.isWritable = false ∧ textOf? v = .error .badValue ∨
      v.isWritable = true ∧ ∃ text?, textOf? v = .ok text? := by
  cases hwritable : v.isWritable with
  | false =>
      have htruthy : v.truthy = true := by
        by_contra hempty
        rw [Value.isWritable_of_not_truthy (Bool.eq_false_iff.mpr hempty)] at hwritable
        exact absurd hwritable (by simp)
      exact .inl ⟨rfl, by rw [textOf?, if_pos htruthy, Value.written, hwritable]; rfl⟩
  | true =>
      refine .inr ⟨rfl, ?_⟩
      rw [textOf?, Value.written, hwritable]
      split
      · exact ⟨_, rfl⟩
      · exact ⟨_, rfl⟩

theorem readOrder_cases (v : Value) :
    v.isWritable = false ∧ readOrder v = .error .badValue ∨
      v.isWritable = true ∧ ∃ order, readOrder v = .ok order := by
  rcases textOf?_cases v with ⟨h, hread⟩ | ⟨h, text?, hread⟩
  · exact .inl ⟨h, by rw [readOrder, hread]; rfl⟩
  · exact .inr ⟨h, _, by rw [readOrder, hread]; rfl⟩

/-! ## All options -/

/-- The options can be read: the numbers are not infinite, and the others can be written. -/
structure Readable (params : Fields) : Prop where
  finite : ∀ key ∈ ["limit", "count", "pages"], ¬(parameter params key).IsInfinite
  writable : ∀ key ∈ ["order", "cursor"], (parameter params key).isWritable = true

/-- Options that cannot be read are a fault, and the others are read before the numbers are
checked. -/
theorem ofParams_cases (d : Defaults) (params : Fields) :
    (¬Readable params ∧ ∃ f, ofParams d params = .error (.fault f)) ∨
      Readable params ∧ ∃ limit count pages order cursor,
        FallsBack (parameter params "limit") d.limit limit ∧
        FallsBack (parameter params "count") d.count count ∧
        ReadsPages (parameter params "pages") d.pages pages ∧
        ofParams d params = check ⟨limit, count, pages, order, cursor⟩ := by
  -- in the order in which the options are read
  rcases readPages_cases (parameter params "pages") d.pages with
    ⟨hpages, hread⟩ | ⟨hpages, pages, hreadPages, hp⟩
  · exact .inl ⟨fun h => h.finite "pages" (by simp) hpages, .outOfRange, by rw [ofParams, hread]; rfl⟩
  rcases readCount_cases (parameter params "limit") d.limit with
    ⟨hlimit, hread⟩ | ⟨hlimit, limit, hreadLimit, hl⟩
  · exact .inl ⟨fun h => h.finite "limit" (by simp) hlimit, .outOfRange, by
      rw [ofParams, hreadPages, hread]; rfl⟩
  rcases readCount_cases (parameter params "count") d.count with
    ⟨hcount, hread⟩ | ⟨hcount, count, hreadCount, hc⟩
  · exact .inl ⟨fun h => h.finite "count" (by simp) hcount, .outOfRange, by
      rw [ofParams, hreadPages, hreadLimit, hread]; rfl⟩
  rcases readOrder_cases (parameter params "order") with
    ⟨horder, hread⟩ | ⟨horder, order, hreadOrder⟩
  · have hno : ¬Readable params := fun h => by simp [h.writable "order" (by simp)] at horder
    exact .inl ⟨hno, .badValue, by
      rw [ofParams, hreadPages, hreadLimit, hreadCount, hread]; rfl⟩
  rcases textOf?_cases (parameter params "cursor") with
    ⟨hcursor, hread⟩ | ⟨hcursor, cursor, hreadCursor⟩
  · have hno : ¬Readable params := fun h => by simp [h.writable "cursor" (by simp)] at hcursor
    exact .inl ⟨hno, .badValue, by
      rw [ofParams, hreadPages, hreadLimit, hreadCount, hreadOrder, readCursor, hread]; rfl⟩
  refine .inr ⟨⟨by simp [hpages, hlimit, hcount], by simp [horder, hcursor]⟩, limit, count, pages,
    order, cursor, hl, hc, hp, ?_⟩
  rw [ofParams, hreadPages, hreadLimit, hreadCount, hreadOrder, readCursor, hreadCursor]
  rfl

/-- Positive numbers pass the check. -/
theorem check_of_pos {p : Pagination} (hlimit : 1 ≤ p.limit) (hcount : 1 ≤ p.count) :
    check p = .ok p := by
  rw [check, positiveIssue, positiveIssue, if_neg (Int.not_lt.mpr hlimit),
    if_neg (Int.not_lt.mpr hcount)]
  rfl

/-- **Which paging options are read.** With positive defaults, the options of a list request are read
exactly when no number among them is infinite and neither the order nor the cursor has an integer in
it that is too long to be written; otherwise there is a fault. Options that are read are in bounds, and
each number is the positive integer that the first item of its own value stands for, or else exactly
its default. -/
theorem paging_read_iff {d : Defaults} (hlimit : 1 ≤ d.limit) (hcount : 1 ≤ d.count)
    (hpages : 1 ≤ d.pages) (params : Fields) :
    ((∃ page, ofParams d params = .ok page) ↔ Readable params) ∧
      (∀ e, ofParams d params = .error e → ∃ f, e = .fault f) ∧
      ∀ page, ofParams d params = .ok page →
        (1 ≤ page.limit ∧ FallsBack (parameter params "limit") d.limit page.limit) ∧
        (1 ≤ page.count ∧ FallsBack (parameter params "count") d.count page.count) ∧
        ((page.pages = .all ∨ ∃ n, page.pages = .some n ∧ 1 ≤ n) ∧
          ReadsPages (parameter params "pages") d.pages page.pages) ∧
        (page.order.word = "asc" ∨ page.order.word = "desc") := by
  rcases ofParams_cases d params with ⟨hreadable, f, hread⟩ |
    ⟨hreadable, limit, count, pages, order, cursor, hl, hc, hp, hread⟩
  · rw [hread]
    refine ⟨iff_of_false (by simp) hreadable, fun e he => ⟨f, (Except.error.inj he).symm⟩,
      fun page hpage => absurd hpage (by simp)⟩
  · rw [hread, check_of_pos (hl.pos hlimit) (hc.pos hcount)]
    refine ⟨iff_of_true ⟨_, rfl⟩ hreadable, fun e he => absurd he (by simp), fun page hpage => ?_⟩
    obtain rfl := Except.ok.inj hpage
    refine ⟨⟨hl.pos hlimit, hl⟩, ⟨hc.pos hcount, hc⟩, ⟨hp.pos hpages, hp⟩, ?_⟩
    cases order with
    | ascending => exact .inl rfl
    | descending => exact .inr rfl

/-- A padded limit of which only the first item counts, a count below one, and all pages. -/
def paddedOptions : Fields :=
  [("limit", .list [.text " +1_0 ", .text "9"]), ("count", .text "-5"), ("pages", .text " ALL ")]

/-- The padded options are read, and the count falls back to its default. -/
theorem paddedOptions_read :
    (1 ≤ defaults.limit ∧ 1 ≤ defaults.count ∧ 1 ≤ defaults.pages) ∧
      ofParams defaults paddedOptions = .ok ⟨10, 12, .all, .ascending, none⟩ ∧
      Readable paddedOptions ∧ FallsBack (.text " +1_0 ") defaults.limit 10 ∧
      FallsBack (.text "-5") defaults.count 12 ∧ ReadsPages (.text " ALL ") defaults.pages .all := by
  have hpositive : 1 ≤ defaults.limit ∧ 1 ≤ defaults.count ∧ 1 ≤ defaults.pages := by decide
  have hread : ofParams defaults paddedOptions = .ok ⟨10, 12, .all, .ascending, none⟩ := by
    decide +kernel
  obtain ⟨hiff, -, hpage⟩ :=
    paging_read_iff hpositive.1 hpositive.2.1 hpositive.2.2 paddedOptions
  obtain ⟨⟨-, hlimit⟩, ⟨-, hcount⟩, ⟨-, hpages⟩, -⟩ := hpage _ hread
  exact ⟨hpositive, hread, hiff.mp ⟨_, hread⟩, hlimit, hcount, hpages⟩

/-- An infinite limit does not give way to its default. -/
theorem infiniteLimit_not_read :
    (1 ≤ defaults.limit ∧ 1 ≤ defaults.count ∧ 1 ≤ defaults.pages) ∧
      ofParams defaults [("limit", .float (.infinity false))] = .error (.fault .outOfRange) := by
  decide +kernel

end Pagination

end RecordQuery
