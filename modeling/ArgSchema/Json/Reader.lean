/-
# Reading JSON

A reader of JSON texts: objects become mappings in which the last of equal names
counts, numbers without point and exponent are integers, and `NaN`, `Infinity` and
`-Infinity` are numbers too. An error says what was expected and where, in lines and
columns; an integer of too many digits is an error of its own.

Readers work on the characters that are left; the place of an error is counted back
from their number.

Key definitions:
* `Json.read`: the value of a text, or its first error.
* `Json.Problem.message`: the wording of an error.
-/
import ArgSchema.Value.Key

namespace ArgSchema
namespace Json

/-- What is wrong with a text. -/
inductive Reason where
  | value | name | colon | comma | extra | unterminated | escape | unicodeEscape | control | mark
  | digits (count : Nat)
  deriving DecidableEq, Repr

def Reason.message : Reason → String
  | .value => "Expecting value"
  | .name => "Expecting property name enclosed in double quotes"
  | .colon => "Expecting ':' delimiter"
  | .comma => "Expecting ',' delimiter"
  | .extra => "Extra data"
  | .unterminated => "Unterminated string starting at"
  | .escape => "Invalid \\escape"
  | .unicodeEscape => "Invalid \\uXXXX escape"
  | .control => "Invalid control character at"
  | .mark => "Unexpected UTF-8 BOM (decode using utf-8-sig)"
  | .digits count => (ScalarFault.tooManyDigits count).message

/-- An error and the number of characters before it. -/
structure Problem where
  reason : Reason
  position : Nat
  deriving DecidableEq, Repr

/-- An error while reading: what is wrong, and how many characters are left there. -/
abbrev Stop := Reason × Nat

/-- A reader gives a result and the characters that are left. -/
abbrev Reader (α : Type) := List Char → Except Stop (α × List Char)

def isBlank (c : Char) : Bool := c == ' ' || c == '\t' || c == '\n' || c == '\r'

def skipBlanks (cs : List Char) : List Char := cs.dropWhile isBlank

/-! ### Strings -/

def hexValue? (c : Char) : Option Nat :=
  if c.isDigit then some (c.toNat - '0'.toNat)
  else if 'a' ≤ c ∧ c ≤ 'f' then some (c.toNat - 'a'.toNat + 10)
  else if 'A' ≤ c ∧ c ≤ 'F' then some (c.toNat - 'A'.toNat + 10)
  else none

/-- The number that hexadecimal digits write. -/
def hexNumber? (ds : List Char) : Option Nat :=
  ds.foldlM (fun n d => (hexValue? d).map (16 * n + ·)) 0

/-- The characters that a backslash and a letter stand for. -/
def shortEscape? : Char → Option Char
  | '"' => some '"'
  | '\\' => some '\\'
  | '/' => some '/'
  | 'b' => some '\x08'
  | 'f' => some '\x0c'
  | 'n' => some '\n'
  | 'r' => some '\r'
  | 't' => some '\t'
  | _ => none

def isHighSurrogate (n : Nat) : Bool := 0xD800 ≤ n && n ≤ 0xDBFF
def isLowSurrogate (n : Nat) : Bool := 0xDC00 ≤ n && n ≤ 0xDFFF

/-- The character of a code unit; a lone surrogate has none and is replaced. -/
def unitChar (n : Nat) : Char := if n.isValidChar then Char.ofNat n else '\uFFFD'

/-- The character that two surrogates stand for. -/
def pairChar (high low : Nat) : Char := Char.ofNat (0x10000 + (high - 0xD800) * 0x400 + (low - 0xDC00))

/-- Reads a string after its opening quote; `opened` characters were left at the quote,
and `read` holds the characters read so far, the last one first. -/
def stringBody (opened : Nat) (read : List Char) : Reader String
  | [] => .error (.unterminated, opened)
  | '"' :: rest => .ok (String.ofList read.reverse, rest)
  | '\\' :: [] => .error (.unterminated, opened)
  | '\\' :: 'u' :: a :: b :: c :: d :: rest =>
    -- a character has to follow the four digits
    match hexNumber? [a, b, c, d] with
    | none => .error (.unicodeEscape, rest.length + 5)
    | some n =>
      if rest.isEmpty then .error (.unicodeEscape, rest.length + 5)
      else if isHighSurrogate n then
        match rest with
        | '\\' :: 'u' :: e :: f :: g :: h :: more =>
          if more.isEmpty then stringBody opened (unitChar n :: read) ('\\' :: 'u' :: e :: f :: g :: h :: more)
          else match hexNumber? [e, f, g, h] with
            | none => .error (.unicodeEscape, more.length + 5)
            | some m =>
              if isLowSurrogate m then stringBody opened (pairChar n m :: read) more
              else stringBody opened (unitChar n :: read) ('\\' :: 'u' :: e :: f :: g :: h :: more)
        | rest => stringBody opened (unitChar n :: read) rest
      else stringBody opened (unitChar n :: read) rest
  | '\\' :: 'u' :: rest => .error (.unicodeEscape, rest.length + 1)
  | '\\' :: c :: rest =>
    match shortEscape? c with
    | some e => stringBody opened (e :: read) rest
    | none => .error (.escape, rest.length + 2)
  | c :: rest =>
    if c.toNat < 0x20 then .error (.control, rest.length + 1) else stringBody opened (c :: read) rest
termination_by cs => cs.length

/-! ### Numbers -/

/-- The digits at the front, and what follows them. -/
def digits (cs : List Char) : List Char × List Char := (cs.takeWhile Char.isDigit, cs.dropWhile Char.isDigit)

/-- The whole part of a number: a zero, or digits that do not start with one. -/
def wholePart? : List Char → Option (List Char × List Char)
  | '0' :: rest => some (['0'], rest)
  | cs => let (ds, rest) := digits cs; if ds.isEmpty then none else some (ds, rest)

/-- The fraction: a point that is followed by digits. -/
def fractionPart (cs : List Char) : List Char × List Char :=
  match cs with
  | '.' :: rest => let (ds, more) := digits rest; if ds.isEmpty then ([], cs) else (ds, more)
  | _ => ([], cs)

/-- The exponent: its letter, an optional sign, and digits. -/
def exponentPart (cs : List Char) : Option Int × List Char :=
  match cs with
  | e :: rest =>
    if e = 'e' ∨ e = 'E' then
      let (negative, afterSign) := splitSign rest
      let (ds, more) := digits afterSign
      if ds.isEmpty then (none, cs)
      else (some (if negative then -(natOfDigits ds : Int) else natOfDigits ds), more)
    else (none, cs)
  | [] => (none, cs)

/-- Reads a number: an integer unless it has a fraction or an exponent. -/
def number : Reader Value := fun cs =>
  let negative := cs.head? == some '-'
  match wholePart? (if negative then cs.drop 1 else cs) with
  | none => .error (.value, cs.length)
  | some (whole, r₁) =>
    let (fraction, r₂) := fractionPart r₁
    let (exponent, rest) := exponentPart r₂
    if fraction.isEmpty && exponent.isNone then
      let n : Int := natOfDigits whole
      if digitLimit < whole.length then .error (.digits whole.length, cs.length)
      else .ok (.ofInt (if negative then -n else n), rest)
    else
      .ok (.ofDouble (.ofDecimal negative (natOfDigits (whole ++ fraction))
        (exponent.getD 0 - fraction.length)), rest)

/-! ### Values -/

/-- Words that stand for values. -/
def words : List (String × Value) :=
  [("null", .null), ("true", .ofBool true), ("false", .ofBool false), ("NaN", .ofDouble (.nan 0)),
   ("Infinity", .ofDouble (.infinite false)), ("-Infinity", .ofDouble (.infinite true))]

/-- Reads a word or a number. -/
def scalar : Reader Value := fun cs =>
  match words.find? fun w => w.1.toList.isPrefixOf cs with
  | some (w, v) => .ok (v, cs.drop w.length)
  | none => number cs

mutual
/-- Reads a value. No value is longer than the text, which bounds the nesting. -/
def value : (bound : Nat) → Reader Value
  | 0, cs => .error (.value, cs.length)
  | bound + 1, cs =>
    match cs with
    | '"' :: rest => do
      let (s, rest) ← stringBody cs.length [] rest
      .ok (.ofText s, rest)
    | '[' :: rest =>
      match skipBlanks rest with
      | ']' :: more => .ok (.ofList [], more)
      | more => do
        let (xs, rest) ← items bound more
        .ok (.ofList xs, rest)
    | '\x7b' :: rest =>
      match skipBlanks rest with
      | '\x7d' :: more => .ok (.ofEntries [], more)
      | more => do
        let (es, rest) ← members bound [] more
        .ok (.ofEntries es, rest)
    | cs => scalar cs

/-- Reads the items of an array, at least one, and its end. -/
def items : (bound : Nat) → Reader (List Value)
  | 0, cs => .error (.value, cs.length)
  | bound + 1, cs => do
    let (x, rest) ← value bound cs
    match skipBlanks rest with
    | ']' :: more => .ok ([x], more)
    | ',' :: more =>
      let (xs, rest) ← items bound (skipBlanks more)
      .ok (x :: xs, rest)
    | more => .error (.comma, more.length)

/-- Reads the members of an object, at least one, and its end; they are written into `es`. -/
def members : (bound : Nat) → (es : Entries) → Reader Entries
  | 0, _, cs => .error (.name, cs.length)
  | bound + 1, es, cs =>
    match cs with
    | '"' :: rest => do
      let (name, rest) ← stringBody cs.length [] rest
      match skipBlanks rest with
      | ':' :: more =>
        let (v, rest) ← value bound (skipBlanks more)
        let es := Entries.insert [.text name] (.ofText name) v es
        match skipBlanks rest with
        | '\x7d' :: more => .ok (es, more)
        | ',' :: more => members bound es (skipBlanks more)
        | more => .error (.comma, more.length)
      | more => .error (.colon, more.length)
    | cs => .error (.name, cs.length)
end

/-- Reads a value that takes all characters, apart from blanks around it. -/
def whole (cs : List Char) : Except Stop Value := do
  if cs.head? = some '\uFEFF' then .error (.mark, cs.length)
  else
    let (v, rest) ← value (2 * cs.length + 1) (skipBlanks cs)
    match skipBlanks rest with
    | [] => .ok v
    | more => .error (.extra, more.length)

/-- Reads a whole text. -/
def read (text : String) : Except Problem Value :=
  let cs := text.toList
  (whole cs).mapError fun stop => ⟨stop.1, cs.length - stop.2⟩

/-- The wording of an error, with its line and column in the text. -/
def Problem.message (p : Problem) (text : String) : String :=
  let before := text.toList.take p.position
  let line := before.count '\n' + 1
  let column := (before.reverse.takeWhile (· != '\n')).length + 1
  p.reason.message ++ ": line " ++ toString line ++ " column " ++ toString column
    ++ " (char " ++ toString p.position ++ ")"

end Json
end ArgSchema
