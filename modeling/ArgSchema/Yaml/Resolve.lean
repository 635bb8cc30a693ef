/-
# What a plain scalar stands for

A plain scalar is null, a boolean, an integer, a number with a point, a date or a
moment if it is written like one, and text otherwise. Numbers may have underscores
between digits and may be written to the base sixty. Two plain scalars are signs: one
merges a mapping into another, the other is no value at all.

Key definitions:
* `ScalarType`: the types of scalars.
* `ScalarType.ofPlain`: the type that a plain scalar is written like.
* `ScalarType.valueOf`: the value of a scalar of a type, or why it has none.
-/
import ArgSchema.Yaml.Cursor
import ArgSchema.Calendar.Iso
import ArgSchema.Json.Reader
import ArgSchema.File
import ArgSchema.Text.Base64

namespace ArgSchema
namespace Yaml

/-- The types of scalars. -/
inductive ScalarType where
  | null | bool | int | float | timestamp | binary | merge | default | text
  deriving DecidableEq, Repr

def isDigitOrGap (c : Char) : Bool := c.isDigit || c == '_'

/-- The text without underscores. -/
def withoutGaps (cs : List Char) : List Char := cs.filter (· != '_')

/-- The parts of a number to the base sixty behind the first: one or two digits each,
below sixty. -/
def isSixtieth : List Char → Bool
  | [a] => a.isDigit
  | [a, b] => '0' ≤ a && a ≤ '5' && b.isDigit
  | _ => false

/-- A digit, followed by digits and underscores. -/
def isDigits (cs : List Char) : Bool := cs.head?.any Char.isDigit && cs.all isDigitOrGap

/-- The whole number before the parts to the base sixty. -/
def isPlainInteger (cs : List Char) : Bool := cs == ['0'] || (isDigits cs && cs.head? != some '0')

def isInteger (cs : List Char) : Bool :=
  let (_, body) := splitSign cs
  match body with
  | '0' :: 'b' :: ds => !ds.isEmpty && ds.all fun c => c == '0' || c == '1' || c == '_'
  | '0' :: 'x' :: ds => !ds.isEmpty && ds.all fun c => (Json.hexValue? c).isSome || c == '_'
  | '0' :: d :: ds => (d :: ds).all fun c => ('0' ≤ c && c ≤ '7') || c == '_'
  | _ =>
    match splitOnChar ':' body with
    | [ds] => isPlainInteger ds
    | first :: parts => isDigits first && first.head? != some '0' && parts.all isSixtieth
    | [] => false

/-- The exponent of a number with a point: its letter, a sign and digits. -/
def isExponent : List Char → Bool
  | [] => true
  | e :: sign :: ds => (e == 'e' || e == 'E') && (sign == '+' || sign == '-') && !ds.isEmpty && ds.all Char.isDigit
  | _ => false

/-- Digits, underscores, and an exponent: what may stand behind the point. -/
def isFraction (cs : List Char) : Bool := isExponent (cs.dropWhile isDigitOrGap)

def isFloat (cs : List Char) : Bool :=
  let (_, body) := splitSign cs
  let whole := body.takeWhile (· != '.')
  match body.dropWhile (· != '.') with
  | [] => false
  | _ :: behind =>
    if whole.isEmpty then
      (body.length == cs.length && behind.head?.any Char.isDigit && isFraction behind)
        || behind ∈ ["inf", "Inf", "INF"].map String.toList
        || (body.length == cs.length && behind ∈ ["nan", "NaN", "NAN"].map String.toList)
    else if isDigits whole then isFraction behind
    else match splitOnChar ':' whole with
      | first :: part :: parts => isDigits first && (part :: parts).all isSixtieth && behind.all isDigitOrGap
      | _ => false

/-! ### Dates and moments -/

/-- The parts of a date or a moment as they are written. -/
structure Stamp where
  date : Date
  /-- Whether month and day have two digits each. -/
  wide : Bool
  clock : Option Clock
  offset : Option Duration

/-- An offset behind a time of day: blanks, then `Z` or a signed number of hours and
perhaps minutes. -/
def offsetOf (cs : List Char) : Option (Option Duration) :=
  match cs.dropWhile fun c => c == ' ' || c == '\t' with
  | [] => if cs.isEmpty then some none else none
  | ['Z'] => some (some ⟨0⟩)
  | sign :: rest =>
    if sign = '+' ∨ sign = '-' then do
      let (hour, rest) ← digitsBetween 1 2 rest
      let minutes ← match rest with
        | [] => some []
        | rest => do
          let (minute, rest) ← digitsBetween 2 2 (← expect ':' rest)
          if rest.isEmpty then some minute else none
      let n : Int := ((3600 * natOfDigits hour + 60 * natOfDigits minutes : Nat) : Int)
      some (some (.ofSeconds (if sign = '-' then -n else n)))
    else none

/-- What a pattern is held against: it may end before a line feed at the end of the text. -/
def beforeLineFeed (cs : List Char) : List Char := if cs.getLast? = some '\n' then cs.dropLast else cs

/-- Reads a date, or a date with a time of day. -/
def stampOf? (cs : List Char) : Option Stamp := do
  let (year, r) ← digitsBetween 4 4 cs
  let (month, r) ← digitsBetween 1 2 (← expect '-' r)
  let (day, r) ← digitsBetween 1 2 (← expect '-' r)
  let date : Date := ⟨natOfDigits year, natOfDigits month, natOfDigits day⟩
  let wide := month.length == 2 && day.length == 2
  if r.isEmpty then some ⟨date, wide, none, none⟩
  else
    let time ← match r with
      | c :: rest =>
        if c = 'T' ∨ c = 't' then some rest
        else if c = ' ' ∨ c = '\t' then some (r.dropWhile fun c => c == ' ' || c == '\t')
        else none
      | [] => none
    let (hour, r) ← digitsBetween 1 2 time
    let (minute, r) ← digitsBetween 2 2 (← expect ':' r)
    let (second, r) ← digitsBetween 2 2 (← expect ':' r)
    let (fraction, r) := match r with
      | '.' :: rest => (rest.takeWhile Char.isDigit, rest.dropWhile Char.isDigit)
      | r => ([], r)
    let offset ← offsetOf r
    some ⟨date, wide,
      some ⟨natOfDigits hour, natOfDigits minute, natOfDigits second, microsecondsOf fraction⟩, offset⟩

/-- A date without a time of day needs two digits for month and day. -/
def isTimestamp (cs : List Char) : Bool :=
  match stampOf? cs with
  | some s => s.clock.isSome || s.wide
  | none => false

/-! ### Types -/

def nullWords : List String := ["~", "null", "Null", "NULL", ""]

def trueWords : List String :=
  ["yes", "Yes", "YES", "true", "True", "TRUE", "on", "On", "ON"]

def falseWords : List String :=
  ["no", "No", "NO", "false", "False", "FALSE", "off", "Off", "OFF"]

namespace ScalarType

/-- The type that a plain scalar is written like. The patterns of types are told by the first
character, so a lone line feed is text. -/
def ofPlain (s : String) : ScalarType :=
  let cs := beforeLineFeed s.toList
  let word := String.ofList cs
  if s = "\n" then .text
  else if word ∈ trueWords ∨ word ∈ falseWords then .bool
  else if isFloat cs then .float
  else if isInteger cs then .int
  else if word = "<<" then .merge
  else if word ∈ nullWords then .null
  else if isTimestamp cs then .timestamp
  else if word = "=" then .default
  else .text

/-- Characters that may stand around a number. -/
def isSpace (c : Char) : Bool :=
  let n := c.toNat
  (0x09 ≤ n && n ≤ 0x0D) || (0x1C ≤ n && n ≤ 0x20) || n == 0x85 || n == 0xA0 || n == 0x1680
    || (0x2000 ≤ n && n ≤ 0x200A) || n == 0x2028 || n == 0x2029 || n == 0x202F || n == 0x205F || n == 0x3000

/-- The code points of the digit zero in every script that has decimal digits; the other nine follow. -/
def zeros : List Nat :=
  [0x30, 0x660, 0x6F0, 0x7C0, 0x966, 0x9E6, 0xA66, 0xAE6, 0xB66, 0xBE6, 0xC66, 0xCE6, 0xD66, 0xDE6,
   0xE50, 0xED0, 0xF20, 0x1040, 0x1090, 0x17E0, 0x1810, 0x1946, 0x19D0, 0x1A80, 0x1A90, 0x1B50,
   0x1BB0, 0x1C40, 0x1C50, 0xA620, 0xA8D0, 0xA900, 0xA9D0, 0xA9F0, 0xAA50, 0xABF0, 0xFF10, 0x104A0,
   0x10D30, 0x11066, 0x110F0, 0x11136, 0x111D0, 0x112F0, 0x11450, 0x114D0, 0x11650, 0x116C0,
   0x11730, 0x118E0, 0x11950, 0x11C50, 0x11D50, 0x11DA0, 0x16A60, 0x16AC0, 0x16B50, 0x1D7CE,
   0x1D7D8, 0x1D7E2, 0x1D7EC, 0x1D7F6, 0x1E140, 0x1E2F0, 0x1E950, 0x1FBF0]

/-- A decimal digit of any script as the one that numbers are read from; other characters stay. -/
def westernDigit (c : Char) : Char :=
  match zeros.find? fun z => z ≤ c.toNat && c.toNat < z + 10 with
  | some z => Char.ofNat ('0'.toNat + (c.toNat - z))
  | none => c

/-- The characters between the spaces around them. -/
def trim (cs : List Char) : List Char := ((cs.dropWhile isSpace).reverse.dropWhile isSpace).reverse

/-- Digits to a base without the prefix that may tell the base. -/
def withoutPrefix (base : Nat) : List Char → List Char
  | '0' :: c :: ds => if (base, c.toLower) ∈ [(2, 'b'), (8, 'o'), (16, 'x')] then ds else '0' :: c :: ds
  | ds => ds

/-- The integer that a text without underscores writes to a base. -/
def numberToBase (base : Nat) (cs : List Char) : Except ScalarFault Int :=
  let (negative, body) := splitSign ((trim cs).map westernDigit)
  let ds := withoutPrefix base body
  let digit (n : Nat) (d : Char) : Option Nat :=
    (Json.hexValue? d).bind fun k => if k < base then some (base * n + k) else none
  match ds.foldlM digit 0 with
  | some n =>
    if ds.isEmpty then .error (.noDigits base (String.ofList cs)) else .ok (if negative then -(n : Int) else n)
  | none => .error (.noDigits base (String.ofList cs))

/-- The integer that decimal digits write. -/
def decimalNumber (cs : List Char) : Except ScalarFault Int :=
  let (_, body) := splitSign ((trim cs).map westernDigit)
  let count := (body.takeWhile Char.isDigit).length
  if digitLimit < count then .error (.tooManyDigits count) else numberToBase 10 cs

/-- The number to the base sixty whose parts are given, the most significant first. -/
def sixtieths (parts : List Int) : Int := parts.foldl (fun n p => 60 * n + p) 0

/-- The integer that a text writes. -/
def integerOf (cs : List Char) : Except ScalarFault Int := do
  let (negative, body) := splitSign (withoutGaps cs)
  let n ← match body with
    | [] => .error .emptyNumber
    | ['0'] => .ok 0
    | '0' :: 'b' :: ds => numberToBase 2 ds
    | '0' :: 'x' :: ds => numberToBase 16 ds
    | '0' :: ds => numberToBase 8 ('0' :: ds)
    | body =>
      match splitOnChar ':' body with
      | [ds] => decimalNumber ds
      | parts => do .ok (sixtieths (← parts.mapM decimalNumber))
  .ok (if negative then -n else n)

/-- The sum of the parts of a number to the base sixty, the last part first. The weight of
a part is rounded to a double, then its product with the part, then the sum. -/
def sixtiethSum : (weight : Nat) → (sum : Double) → List Double → Except ScalarFault Double
  | _, sum, [] => .ok sum
  | weight, sum, part :: rest =>
    match Double.ofInt weight with
    | .infinite _ => .error .hugeWeight
    | w => sixtiethSum (60 * weight) (sum.add (part.multiply w)) rest

/-- The number with a point that a text writes. -/
def floatOf (cs : List Char) : Except ScalarFault Double :=
  let (negative, body) := splitSign ((withoutGaps cs).map Char.toLower)
  let signed (x : Double) := if negative then x.negate else x
  if (withoutGaps cs).isEmpty then .error .emptyNumber
  else if body = ".inf".toList then .ok (.infinite negative)
  else if body = ".nan".toList then .ok (.nan 0)
  else
    let read (ds : List Char) : Except ScalarFault Double :=
      match Double.ofText? 0 (String.ofList ((trim ds).map westernDigit)) with
      | some x => .ok x
      | none => .error (.notANumber (String.ofList ds))
    match splitOnChar ':' body with
    | [ds] => do .ok (signed (← read ds))
    | parts => do
      let xs ← parts.mapM read
      .ok (signed (← sixtiethSum 1 (.zero false) xs.reverse))

/-- The date or moment that a text writes. -/
def timestampOf (cs : List Char) : Except ScalarFault (Option Value) :=
  match stampOf? (beforeLineFeed cs) with
  | none => .ok none
  | some s =>
    match s.clock with
    | none => match s.date.fault? with
      | some f => .error (.calendar f)
      | none => .ok (some (.atom (.date s.date)))
    | some clock =>
      let offsetFault := s.offset.bind Duration.offsetFault?
      match offsetFault <|> s.date.fault? <|> clock.fault? with
      | some f => .error (.calendar f)
      | none => .ok (some (.atom (.moment ⟨s.date, clock, s.offset⟩)))

/-- The value of a scalar of a type. The signs have none. A scalar that was given a type it
is not written like fails where its text is read. -/
def valueOf (t : ScalarType) (s : String) : Except Trouble Value :=
  let cs := s.toList
  let scalar {α : Type} (r : Except ScalarFault α) : Except Trouble α := r.mapError .scalar
  match t with
  | .null => .ok .null
  | .bool =>
    let word := String.ofList (cs.map Char.toLower)
    if word ∈ trueWords then .ok (.ofBool true)
    else if word ∈ falseWords then .ok (.ofBool false)
    else .error (.scalar (.unknownWord word))
  | .int => do .ok (.ofInt (← scalar (integerOf cs)))
  | .float => do .ok (.ofDouble (← scalar (floatOf cs)))
  | .timestamp => do
    match ← scalar (timestampOf cs) with
    | some v => .ok v
    | none => .error (.scalar .notAStamp)
  | .binary => match bytesOfBase64 cs with
    | some data => .ok (.atom (.bytes .constant data))
    | none => .error .malformed
  | .text => .ok (.ofText s)
  | .merge | .default => .error .malformed

end ScalarType
end Yaml
end ArgSchema
