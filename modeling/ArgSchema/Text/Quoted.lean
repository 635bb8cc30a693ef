/-
# Quoted text

The quoted form of a text or of a string of bytes: single quotes unless the text
holds one and no double quote; the backslash, the quote in use, line ends and
tabs are escaped by name and every other unprintable character by number.

Key definitions:
* `quoteText`: the quoted form of a text.
* `quoteBytes`: the quoted form of bytes, after the letter `b`.
* `quoteMutableBytes`: the same for bytes that can change.
-/
import ArgSchema.Text.Printable

namespace ArgSchema

/-- The digit of a number below sixteen. -/
def hexDigit (n : Nat) : Char := "0123456789abcdef".toList.getD n '0'

/-- The last `width` hexadecimal digits of `n`. -/
def hexDigits : (width n : Nat) → List Char
  | 0, _ => []
  | width + 1, n => hexDigits width (n / 16) ++ [hexDigit (n % 16)]

/-- The quote that needs the fewest escapes. -/
def quoteFor (cs : List Char) : Char :=
  if cs.contains '\'' && !cs.contains '"' then '"' else '\''

/-- One character inside quotes of the kind `quote`. -/
def escapeChar (quote c : Char) : List Char :=
  if c = quote ∨ c = '\\' then ['\\', c]
  else if c = '\n' then ['\\', 'n']
  else if c = '\r' then ['\\', 'r']
  else if c = '\t' then ['\\', 't']
  else if isPrintable c then [c]
  else if c.toNat < 0x100 then '\\' :: 'x' :: hexDigits 2 c.toNat
  else if c.toNat < 0x10000 then '\\' :: 'u' :: hexDigits 4 c.toNat
  else '\\' :: 'U' :: hexDigits 8 c.toNat

/-- A text between quotes. -/
def quoteText (s : String) : String :=
  let quote := quoteFor s.toList
  String.ofList (quote :: s.toList.flatMap (escapeChar quote) ++ [quote])

/-- One byte inside quotes: what is not printable in ASCII goes by number. -/
def escapeByte (quote : Char) (b : Nat) : List Char :=
  if b < 0x7F then escapeChar quote (Char.ofNat b) else '\\' :: 'x' :: hexDigits 2 b

/-- Bytes between quotes; `escape` writes one byte between quotes of a kind. -/
def quoteBytesWith (escape : Char → Nat → List Char) (bytes : List Nat) : String :=
  let quote := quoteFor (bytes.map Char.ofNat)
  String.ofList ('b' :: quote :: bytes.flatMap (escape quote) ++ [quote])

/-- Bytes between quotes. -/
def quoteBytes (bytes : List Nat) : String := quoteBytesWith escapeByte bytes

/-- Bytes that can change between quotes: a single quote is escaped even where it need
not be. -/
def quoteMutableBytes (bytes : List Nat) : String :=
  quoteBytesWith (fun quote b => if b = '\''.toNat then ['\\', '\''] else escapeByte quote b) bytes

end ArgSchema
