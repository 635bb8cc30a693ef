/-
# A place in a YAML text

The characters that are left of a text, with the line and the column reached and the
number of characters before. Lines end in several ways; a carriage return and a line
feed together end one line.

Key definitions:
* `Cursor`: a place in a text.
* `Cursor.forward`: the place one character on.
* `Cursor.lineBreak?`: the end of a line, as the character it counts for.
-/
import ArgSchema.Fault

namespace ArgSchema
namespace Yaml

/-- What stops the reading of a YAML text: it is not YAML, or one of its scalars stands
for no value. -/
inductive Trouble where
  | malformed
  | scalar (fault : ScalarFault)
  deriving Repr

/-- Characters that a YAML text may hold. -/
def isAllowed (c : Char) : Bool :=
  let n := c.toNat
  n == 0x09 || n == 0x0A || n == 0x0D || (0x20 ≤ n && n ≤ 0x7E) || n == 0x85
    || (0xA0 ≤ n && n ≤ 0xD7FF) || (0xE000 ≤ n && n ≤ 0xFFFD) || 0x10000 ≤ n

/-- The mark that may stand before a text. -/
def byteOrderMark : Char := '\uFEFF'

/-- Characters that end a line. -/
def isBreak (c : Char) : Bool :=
  c == '\n' || c == '\r' || c == '\u0085' || c == '\u2028' || c == '\u2029'

/-- A place in a text. -/
structure Cursor where
  rest : List Char
  index : Nat
  line : Nat
  column : Nat
  deriving Repr

namespace Cursor

def ofText (s : String) : Cursor := ⟨s.toList, 0, 0, 0⟩

/-- The character `n` places on. -/
def peek (c : Cursor) (n : Nat) : Option Char := c.rest[n]?

/-- The next character. -/
def head? (c : Cursor) : Option Char := c.rest.head?

def isAtEnd (c : Cursor) : Bool := c.rest.isEmpty

/-- The place after one character. -/
def forward (c : Cursor) : Cursor :=
  match c.rest with
  | [] => c
  | ch :: rest =>
    let ends := isBreak ch && !(ch == '\r' && rest.head? == some '\n')
    if ends then ⟨rest, c.index + 1, c.line + 1, 0⟩
    else ⟨rest, c.index + 1, c.line, if ch == byteOrderMark then c.column else c.column + 1⟩

/-- The place after `n` characters. -/
def skip : Nat → Cursor → Cursor
  | 0, c => c
  | n + 1, c => skip n c.forward

/-- The characters at the front that satisfy `p`. -/
def span (c : Cursor) (p : Char → Bool) : List Char := c.rest.takeWhile p

/-- The place after the characters at the front that satisfy `p`. -/
def skipWhile (c : Cursor) (p : Char → Bool) : Cursor := c.skip (c.span p).length

/-- The end of a line, if there is one here. The common ends count as a line feed, the
others as themselves. -/
def lineBreak? (c : Cursor) : Option (Char × Cursor) :=
  match c.rest with
  | '\r' :: '\n' :: _ => some ('\n', c.skip 2)
  | ch :: _ =>
    if ch == '\u2028' || ch == '\u2029' then some (ch, c.forward)
    else if isBreak ch then some ('\n', c.forward)
    else none
  | [] => none

/-- Passes the end of a line, if there is one. -/
def skipLineBreak (c : Cursor) : Cursor :=
  match c.lineBreak? with
  | some (_, c) => c
  | none => c

/-- Whether a character, or the end of the text, ends a line. -/
def endsLine : Option Char → Bool
  | none => true
  | some ch => isBreak ch

/-- Whether a character, or the end of the text, is a blank or ends a line. -/
def isGap : Option Char → Bool
  | none => true
  | some ch => ch == ' ' || ch == '\t' || isBreak ch

/-- Whether three signs that separate documents stand here. -/
def isSeparator (c : Cursor) (sign : Char) : Bool :=
  c.peek 0 == some sign && c.peek 1 == some sign && c.peek 2 == some sign && isGap (c.peek 3)

/-- Whether the start or the end of a document is marked here. -/
def isDocumentMark (c : Cursor) : Bool := c.isSeparator '-' || c.isSeparator '.'

end Cursor
end Yaml
end ArgSchema
