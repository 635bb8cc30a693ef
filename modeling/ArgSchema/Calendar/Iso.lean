/-
# Reading dates and times of day

Readers of the ISO form: a date with or without dashes, a time of day with or without
colons whose last parts may be left out, and an offset from universal time behind it. A
moment is a date, one character and a time of day; a date alone starts at midnight.

Key definitions:
* `digitsBetween`, `expect`, `microsecondsOf`: parts that all such readers share.
* `Date.ofIso?`, `TimeOfDay.ofIso?`, `Moment.ofIso?`: the readers.
* `Duration.ofDouble`: the duration of a number of seconds.
-/
import ArgSchema.Calendar
import ArgSchema.Number.Decimal

namespace ArgSchema

/-- Up to `most` digits at the front, at least `least`, and what follows them. -/
def digitsBetween (least most : Nat) (cs : List Char) : Option (List Char × List Char) :=
  let ds := (cs.take most).takeWhile Char.isDigit
  if least ≤ ds.length then some (ds, cs.drop ds.length) else none

/-- Passes one character. -/
def expect (c : Char) : List Char → Option (List Char)
  | d :: rest => if c = d then some rest else none
  | [] => none

/-- Passes one character if there has to be one. -/
def expectIf (needed : Bool) (c : Char) (cs : List Char) : Option (List Char) :=
  if needed then expect c cs else some cs

/-- The first six digits behind the point, as microseconds. -/
def microsecondsOf (ds : List Char) : Nat :=
  let ds := ds.take 6
  natOfDigits ds * Nat.pow 10 (6 - ds.length)

/-- The duration of a number of seconds that need not be whole. What is below a second is
counted in microseconds, as a double, and then rounded, a half to the even neighbour. -/
def Duration.ofDouble (x : Double) : Duration :=
  let q := x.toRat?.getD 0
  let whole : Nat := q.num.natAbs / q.den
  let below := Double.ofRatio false (q.num.natAbs % q.den) q.den
  let count := ((below.multiply (.ofInt 1000000)).toRat?.getD 0) + whole * 1000000
  let n : Int := (roundDiv count.num.natAbs count.den : Nat)
  ⟨if x.isNegative then -n else n⟩

/-- Reads a date at the front. Either both dashes are there or none. -/
def Date.atFront? (cs : List Char) : Option (Date × List Char) := do
  let (year, r) ← digitsBetween 4 4 cs
  let dashed := r.head? == some '-'
  let (month, r) ← digitsBetween 2 2 (← expectIf dashed '-' r)
  let (day, r) ← digitsBetween 2 2 (← expectIf dashed '-' r)
  some (⟨natOfDigits year, natOfDigits month, natOfDigits day⟩, r)

/-- Reads a date. -/
def Date.ofIso? (s : String) : Option Date := do
  let (d, r) ← Date.atFront? s.toList
  if r.isEmpty then some d else none

/-- Reads a time of day: an hour, perhaps a minute, perhaps a second, and behind a second
perhaps a fraction. Either all colons are there or none. -/
def Clock.ofDigits? (cs : List Char) : Option Clock := do
  let (hour, r) ← digitsBetween 2 2 cs
  let hour := natOfDigits hour
  let colon := r.head? == some ':'
  if r.isEmpty then some ⟨hour, 0, 0, 0⟩
  else
    let (minute, r) ← digitsBetween 2 2 (← expectIf colon ':' r)
    let minute := natOfDigits minute
    if r.isEmpty then some ⟨hour, minute, 0, 0⟩
    else
      let (second, r) ← digitsBetween 2 2 (← expectIf colon ':' r)
      let second := natOfDigits second
      match r with
      | [] => some ⟨hour, minute, second, 0⟩
      | point :: ds =>
        if (point = '.' ∨ point = ',') ∧ ds ≠ [] ∧ ds.all Char.isDigit then
          some ⟨hour, minute, second, microsecondsOf ds⟩
        else none

/-- Reads an offset: `Z`, or a sign and a time of day. -/
def offsetOfIso? : List Char → Option Duration
  | ['Z'] => some ⟨0⟩
  | sign :: rest =>
    if sign = '+' ∨ sign = '-' then do
      let n : Int := ((← Clock.ofDigits? rest).microseconds : Nat)
      some ⟨if sign = '-' then -n else n⟩
    else none
  | [] => none

/-- Reads a time of day that may have an offset. -/
def TimeOfDay.ofChars? (cs : List Char) : Option TimeOfDay := do
  let clock ← Clock.ofDigits? (cs.takeWhile fun c => c != '+' && c != '-' && c != 'Z')
  match cs.dropWhile fun c => c != '+' && c != '-' && c != 'Z' with
  | [] => some ⟨clock, none⟩
  | zone => do some ⟨clock, some (← offsetOfIso? zone)⟩

/-- Reads a time of day; a `T` may stand before it. -/
def TimeOfDay.ofIso? (s : String) : Option TimeOfDay :=
  match s.toList with
  | 'T' :: rest => TimeOfDay.ofChars? rest
  | cs => TimeOfDay.ofChars? cs

/-- Reads a moment. -/
def Moment.ofIso? (s : String) : Option Moment := do
  let (date, r) ← Date.atFront? s.toList
  match r with
  | [] => some ⟨date, ⟨0, 0, 0, 0⟩, none⟩
  | _ :: r => do
    let time ← TimeOfDay.ofChars? r
    some ⟨date, time.clock, time.offset⟩

end ArgSchema
