import RecordQuery.Text.CodePoint
/-!
# Blank characters

The characters that count as empty space around a text, and cutting them off at both ends.
`trimBy_eq_append` says that trimming only removes characters of the class, and only at the ends.
-/

namespace RecordQuery.Text

/-- The white space and separator characters, together with the four information separators. -/
def blankRanges : CodeRanges := [
    (0x0009, 0x000d), (0x001c, 0x0020), (0x0085, 0x0085), (0x00a0, 0x00a0), (0x1680, 0x1680), (0x2000, 0x200a),
    (0x2028, 0x2029), (0x202f, 0x202f), (0x205f, 0x205f), (0x3000, 0x3000)]

/-- White space in the widest sense: line and page breaks, separators and spaces of every width. -/
def isBlank (c : Char) : Bool :=
  blankRanges.holds c

/-- The four information separators, which are blank but never stand around a number. -/
def isInformationSeparator (c : Char) : Bool :=
  0x1c ≤ c.toNat && c.toNat ≤ 0x1f

/-- The blank characters that may stand around a number. -/
def isPadding (c : Char) : Bool :=
  isBlank c && !isInformationSeparator c

/-- Every padding character is blank. -/
theorem isBlank_of_isPadding {c : Char} (h : isPadding c = true) : isBlank c = true := by
  simp only [isPadding, Bool.and_eq_true] at h
  exact h.1

/-! ## Trimming -/

/-- The characters without those of a class at either end. -/
def trimBy (p : Char → Bool) (cs : List Char) : List Char :=
  ((cs.dropWhile p).reverse.dropWhile p).reverse

/-- Trimming splits the characters into a leading part of the class, what is kept, and a trailing
part of the class. -/
theorem trimBy_eq_append (p : Char → Bool) (cs : List Char) :
    cs = cs.takeWhile p ++ trimBy p cs ++ ((cs.dropWhile p).reverse.takeWhile p).reverse := by
  have h := congrArg List.reverse
    (List.takeWhile_append_dropWhile (p := p) (l := (cs.dropWhile p).reverse))
  rw [List.reverse_append, List.reverse_reverse] at h
  -- the leading part is cut off first, so the trailing part is one of what is left
  rw [trimBy, List.append_assoc, h, List.takeWhile_append_dropWhile]

/-- The text without the blank characters at either end. -/
def trim (s : String) : String :=
  String.ofList (trimBy isBlank s.toList)

end RecordQuery.Text
