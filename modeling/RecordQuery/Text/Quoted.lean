import RecordQuery.Text.Printable
/-!
# Quoted text

How a text is shown inside a message: between quotes, with every code point that could not be read
back written as an escape, each surrogate among them. The quotes are single unless only double ones
avoid an escape.
-/

namespace RecordQuery.Text

/-- The single quote. -/
def singleQuote : Char := '\x27'

/-- The double quote. -/
def doubleQuote : Char := '\x22'

/-- The quote to put around a text: double when the text holds a single quote and no double one. -/
def quoteFor (cs : List Char) : Char :=
  if singleQuote ∈ cs ∧ doubleQuote ∉ cs then doubleQuote else singleQuote

/-- The number in lower-case hexadecimal digits, at least `width` of them. -/
def hexDigits (width n : Nat) : List Char :=
  let digits := Nat.toDigits 16 n
  List.replicate (width - digits.length) '0' ++ digits

/-- A code point by its number, in the shortest of the three escapes that holds it. -/
def codePointEscape (n : Nat) : List Char :=
  if n < 0x100 then '\\' :: 'x' :: hexDigits 2 n
  else if n < 0x10000 then '\\' :: 'u' :: hexDigits 4 n
  else '\\' :: 'U' :: hexDigits 8 n

/-- The written form of one character between the given quotes. -/
def escapeChar (quote c : Char) : List Char :=
  if c = quote ∨ c = '\\' then ['\\', c]
  else if c = '\n' then ['\\', 'n']
  else if c = '\r' then ['\\', 'r']
  else if c = '\t' then ['\\', 't']
  else if isPrintable c then [c]
  else codePointEscape c.toNat

/-- The written form of one code point between the given quotes. -/
def escapePoint (quote : Char) : CodePoint → List Char
  | .char c => escapeChar quote c
  | point => codePointEscape point.number

/-- The text between quotes, with escapes where they are needed. -/
def quoted (s : String) : String :=
  -- the choice of the quote looks at the whole text, the escapes at one code point each
  let quote := quoteFor s.toList
  String.ofList (quote :: (toCodePoints s).flatMap (escapePoint quote) ++ [quote])

end RecordQuery.Text
